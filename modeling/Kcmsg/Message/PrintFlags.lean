import Kcmsg.Library.Modes
import Kcmsg.Message.PrintOrder

/-!
# What is left of a printout in `std::cout`

The manipulators that `debugMessagePrint` puts in front of its values stay in force: `std::hex`,
which the case of a byte sets and which does not even change what is printed there, makes numbers
hexadecimal for the rest of the message and in the headers of all that follow.

A history is a list of calls, one after the other, on messages made by puts. Its lines are those of
a writer with a mode, the items being the header fields and the elements. `SameText` asks that two
histories could have been written by one function of the single items, which writes numbers in
decimal, and `sameText_iff` says when they could: the numbers behind the first byte of each of them
have a single digit.
-/

namespace Kcmsg

/-- Bool, byte, short, int, long long, char and duration. -/
def plainKinds : List ScalarKind := [.bool, .byte, .short, .int, .longLong, .char, .duration]

/-- The message has been made by puts of plain kinds, and these values of them have not been read:
some may have been read before others were put, and the header may have been set at any time. -/
inductive MadeByPuts (host : ByteOrder) : Message → List ScalarValue → Prop
  | new (hdr : MessageHeader) : MadeByPuts host (Message.new hdr) []
  | put {m m' : Message} {vs : List ScalarValue} {v : ScalarValue} : MadeByPuts host m vs →
      v.kind ∈ plainKinds → (v.put host).run m = .returns () m' → MadeByPuts host m' (vs ++ [v])
  | header {m : Message} {vs : List ScalarValue} (hdr : MessageHeader) : MadeByPuts host m vs →
      MadeByPuts host { m with hdr := hdr } vs
  | get {m m' : Message} {vs : List ScalarValue} {v w : ScalarValue} :
      MadeByPuts host m (v :: vs) → (v.kind.get host).run m = .returns w m' → MadeByPuts host m' vs

/-- One call of `debugMessagePrint`: the message, the values that will be printed, and the heap in
each round. -/
structure PrintCall (host : ByteOrder) where
  msg : Message
  unread : List ScalarValue
  heaps : Nat → Heap
  made : MadeByPuts host msg unread

/-! ## Items -/

/-- Something that has a text of its own in a printout. -/
inductive Item where
  | number (name : String) (w : Nat) (val : BitVec w)
  | flag (name : String) (val : Bool)
  | element (val : ScalarValue)

namespace Item

def name : Item → String
  | number name _ _ => name
  | flag name _ => name
  | element val => val.kind.elementName

/-- The number an item stands for, if it is a header integer, a short, an int, a long long or a
duration. -/
def value : Item → Option Int
  | number _ _ val => some val.toNat
  | element (.short val) => some val.toInt
  | element (.int val) => some val.toInt
  | element (.longLong val) => some val.toInt
  | element (.duration val) => some val.toNat
  | _ => none

def isByte : Item → Bool
  | element (.byte _) => true
  | _ => false

/-- An element of a plain kind, or a header field. -/
def IsPlain : Item → Prop
  | element val => val.kind ∈ plainKinds
  | _ => True

/-- The line of an item with this text. -/
def line (text : String) (i : Item) : String := tagged 8 i.name text

/-- What `debugMessagePrint` writes for an item. -/
def shown (floats : FloatText) (ios : Ios) : Item → String
  | number _ _ val => ios.showUnsigned val
  | flag _ val => if val then "true" else "false"
  | element val =>
      Console.scalarText floats ((Getter.scalar val.kind).manipulator ios) val

/-- The flags behind an item. -/
def flags (ios : Ios) : Item → Ios
  | element val => (Getter.scalar val.kind).manipulator ios
  | _ => ios

end Item

def headerItems (m : Message) : List Item :=
  [.number "source_identifier" 32 m.getSourceIdentifier.toBitVec,
    .number "source_organization" 16 m.getSourceOrganization.toBitVec,
    .number "target_identifier" 32 m.getTargetIdentifier.toBitVec,
    .number "target_organization" 16 m.getTargetOrganization.toBitVec,
    .number "transaction_identifier" 16 m.getTransactionIdentifier.toBitVec,
    .number "transaction_application" 16 m.getTransactionApplication.toBitVec,
    .number "transaction_organization" 16 m.getTransactionOrganization.toBitVec,
    .number "ttl" 32 m.getTTL.toBitVec,
    .flag "is_once" m.isOnceAndOnlyOnce,
    .flag "is_quick_death" m.isQuickDeath,
    .flag "is_fragment" m.isMessageFragment]

namespace PrintCall

variable {host : ByteOrder}

def items (p : PrintCall host) : List Item := headerItems p.msg ++ p.unread.map .element

/-- The lines of a call around those of its items. -/
def around (header elements : List String) : List Output :=
  (["Debug message printout", "======================", "<message>", "    <header>"] ++ header ++
    ["    </header>", "    <data>"] ++ elements ++ ["    </data>", "</message>"]).map .cout

/-- The lines of a call in which every item has its own text. -/
def transcript (text : Item → String) (p : PrintCall host) : List Output :=
  around ((headerItems p.msg).map fun i => i.line (text i))
    ((p.unread.map Item.element).map fun i => i.line (text i))

end PrintCall

/-- The calls are made one after the other, and all of them return. -/
inductive PrintsAll (host : ByteOrder) (floats : FloatText) :
    Console → List (PrintCall host) → Console → Prop
  | nil {c : Console} : PrintsAll host floats c [] c
  | cons {c c' c'' : Console} {p : PrintCall host} {ps : List (PrintCall host)} {fuel : Nat} :
      Console.debugMessagePrint host floats p.heaps fuel { c with msg := p.msg } =
        some (.returns () c') →
      PrintsAll host floats c' ps c'' → PrintsAll host floats c (p :: ps) c''

/-- What a history prints on a fresh `std::cout` is the transcript in which every item has its own
text. -/
def PrintsAs (host : ByteOrder) (floats : FloatText) (text : Item → String)
    (history : List (PrintCall host)) : Prop :=
  ∃ c, PrintsAll host floats (Console.consoleOf (Message.new default)) history c ∧
    c.out = history.flatMap (PrintCall.transcript text)

/-- The text of an item is the same function of the item in both histories, and that of a number is
its decimal numeral. -/
def SameText (host : ByteOrder) (floats : FloatText) (h h' : List (PrintCall host)) : Prop :=
  ∃ text : Item → String, (∀ i n, i.value = some n → text i = decimal n) ∧
    PrintsAs host floats text h ∧ PrintsAs host floats text h'

/-- Every number that is printed behind a byte has one digit. -/
def OneDigitBehindBytes {host : ByteOrder} (history : List (PrintCall host)) : Prop :=
  ∀ before i after, history.flatMap PrintCall.items = before ++ i :: after →
    before.any Item.isByte = true → ∀ n, i.value = some n → 0 ≤ n ∧ n < 10

/-! ## The text of an item -/

namespace Item

/-- The decimal numeral of a number, and of any other item what is always written for it. -/
def plainText (floats : FloatText) (i : Item) : String :=
  match i.value with
  | some n => decimal n
  | none => i.shown floats .init

theorem plainText_of_value (floats : FloatText) {i : Item} {n : Int} (h : i.value = some n) :
    i.plainText floats = decimal n := by
  rw [plainText, h]

theorem hex_flags (ios : Ios) (i : Item) : (i.flags ios).hex = (ios.hex || i.isByte) := by
  cases i with
  | number name w val => exact (Bool.or_false _).symm
  | flag name val => exact (Bool.or_false _).symm
  | element val => cases val <;> first | exact (Bool.or_false _).symm | exact (Bool.or_true _).symm

/-- Once a byte has been printed, all is hexadecimal. -/
theorem hex_foldl_flags (ios : Ios) (items : List Item) :
    (items.foldl flags ios).hex = (ios.hex || items.any isByte) := by
  induction items generalizing ios with
  | nil => exact (Bool.or_false _).symm
  | cons i items ih => rw [List.foldl_cons, ih, hex_flags, List.any_cons, Bool.or_assoc]

theorem showInt_eq_iff (ios : Ios) {w : Nat} (val : BitVec w) :
    ios.showInt val = decimal val.toInt ↔
      (ios.hex = true → 0 ≤ val.toInt ∧ val.toInt < 10) := by
  unfold Ios.showInt
  by_cases hhex : ios.hex = true
  · rw [if_pos hhex, hexadecimal_eq_decimal_iff]
    exact ⟨fun h _ => h, fun h => h hhex⟩
  · rw [if_neg hhex]
    exact iff_of_true rfl fun h => absurd h hhex

theorem showUnsigned_eq_iff (ios : Ios) {w : Nat} (val : BitVec w) :
    ios.showUnsigned val = decimal val.toNat ↔
      (ios.hex = true → 0 ≤ (val.toNat : Int) ∧ (val.toNat : Int) < 10) := by
  unfold Ios.showUnsigned
  by_cases hhex : ios.hex = true
  · rw [if_pos hhex, hexadecimal_eq_decimal_natCast_iff]
    refine ⟨fun h _ => by omega, fun h => ?_⟩
    have := h hhex
    omega
  · rw [if_neg hhex]
    exact iff_of_true rfl fun h => absurd h hhex

/-- **A plain item has its plain text** unless it is a number of more digits, or a negative one, and
the flags are those behind a byte. -/
theorem shown_eq_plainText_iff (floats : FloatText) (ios : Ios) {i : Item} (hi : i.IsPlain) :
    i.shown floats ios = i.plainText floats ↔
      (ios.hex = true → ∀ n, i.value = some n → 0 ≤ n ∧ n < 10) := by
  have hnumber {n : Int} {p : Prop} : (p → ∀ k, some n = some k → 0 ≤ k ∧ k < 10) ↔
      (p → 0 ≤ n ∧ n < 10) := by
    simp only [Option.some.injEq, forall_eq']
  have hother {p : Prop} : p → ∀ k, (none : Option Int) = some k → 0 ≤ k ∧ k < 10 := nofun
  cases i with
  | number name w val => exact (showUnsigned_eq_iff ios val).trans hnumber.symm
  | flag name val => exact iff_of_true rfl hother
  | element v =>
      cases v with
      | short val => exact (showInt_eq_iff ios val.toBitVec).trans hnumber.symm
      | int val => exact (showInt_eq_iff ios val.toBitVec).trans hnumber.symm
      | longLong val => exact (showInt_eq_iff ios val.toBitVec).trans hnumber.symm
      | duration val => exact (showUnsigned_eq_iff ios val.toBitVec).trans hnumber.symm
      | bool val => exact iff_of_true rfl hother
      | byte val => exact iff_of_true rfl hother
      | char val => exact iff_of_true rfl hother
      | _ => exact absurd hi (by simp [IsPlain, ScalarValue.kind, plainKinds])

end Item

/-! ## One call -/

namespace MadeByPuts

variable {host : ByteOrder} {m : Message} {vs : List ScalarValue}

theorem plain (h : MadeByPuts host m vs) : ∀ v ∈ vs, v.kind ∈ plainKinds := by
  induction h with
  | new hdr => exact fun v hv => absurd hv List.not_mem_nil
  | put hm hv hput ih =>
      intro w hw
      rcases List.mem_append.mp hw with hw | hw
      · exact ih w hw
      · rwa [List.mem_singleton.mp hw]
  | header hdr hm ih => exact ih
  | get hm hget ih => exact fun w hw => ih w (List.mem_cons_of_mem _ hw)

theorem ne_long_of_plain {k : ScalarKind} (h : k ∈ plainKinds) : k ≠ .long := by
  rintro rfl
  exact absurd h (by decide)

/-- What the calls keep: the unread values stand in the block from the cursor on. -/
theorem laid (h : MadeByPuts host m vs) :
    messageLengthOffset + 2 ≤ m.offset ∧
      Laid host m.data m.offset (vs.map .scalar) m.dataLength := by
  induction h with
  | new hdr => exact ⟨Nat.le_refl _, rfl⟩
  | @put m m' vs v hm hv hput ih =>
      obtain ⟨hpast, hlaid⟩ := ih
      have hend := hlaid.le
      obtain ⟨hwritable, hfit, rfl⟩ := Value.put_returned (v := .scalar v) (by omega) hput
      refine ⟨hpast, ?_⟩
      rw [List.map_append, List.map_singleton]
      refine Laid.concat (hlaid.frame fun i hp hq => ?_) (Message.place_load (by omega)) hfit
      exact Message.place_data_of_outside (.inr (by omega)) (.inl hq)
  | header hdr hm ih => exact ih
  | @get m m' vs v w hm hget ih =>
      obtain ⟨hpast, hload, hroom, hrest⟩ := ih
      have hlong := ne_long_of_plain (hm.plain v List.mem_cons_self)
      obtain ⟨-, rfl⟩ := Outcome.returns.inj
        ((ScalarValue.run_get hlong hload hroom).2.symm.trans hget)
      exact ⟨Nat.le_trans hpast (Nat.le_add_right _ _), hrest⟩

/-- A message that has been printed is one of these again, with nothing unread. -/
theorem printed (h : MadeByPuts host m vs) :
    MadeByPuts host { m with offset := m.dataLength } [] := by
  induction vs generalizing m with
  | nil =>
      obtain ⟨data, offset, dataLength, hdr⟩ := m
      obtain rfl : offset = dataLength := h.laid.2
      exact h
  | cons v vs ih =>
      obtain ⟨-, hload, hroom, -⟩ := h.laid
      have hlong := ne_long_of_plain (h.plain v List.mem_cons_self)
      have hrest := ih (h.get (ScalarValue.run_get hlong hload hroom).2)
      exact hrest

end MadeByPuts

namespace Console

open PrintCall

variable {host : ByteOrder} {floats : FloatText}

/-- A plain value has a line of its own. -/
theorem valueLines_of_plain (floats : FloatText) (ios : Ios) {v : ScalarValue}
    (hv : v.kind ∈ plainKinds) :
    valueLines floats ios (.scalar v) =
      some [.cout (tagged 8 v.kind.elementName (scalarText floats ios v))] := by
  cases v with
  | time t => exact absurd hv (by simp [ScalarValue.kind, plainKinds])
  | _ => rfl

/-- The run lemma: the loop prints the unread values in order, with the flags as they come. -/
theorem reaches_of_laid (floats : FloatText) {heaps : Nat → Heap} {c : Console}
    (vs : List ScalarValue)
    (hplain : ∀ v ∈ vs, v.kind ∈ plainKinds) {n : Nat} {s : Console}
    (hs : Reaches host floats heaps c n s)
    (hlaid : Laid host s.msg.data s.msg.offset (vs.map .scalar) s.msg.dataLength) :
    ∃ s', Reaches host floats heaps c (n + vs.length) s' ∧ unread s' = false ∧
      s'.msg = { s.msg with offset := s.msg.dataLength } ∧
      s'.ios = (vs.map Item.element).foldl Item.flags s.ios ∧
      s'.out = s.out ++ (written (fun ios i => i.line (i.shown floats ios)) Item.flags s.ios
        (vs.map .element)).map .cout := by
  induction vs generalizing n s with
  | nil =>
      have hend : s.msg.offset = s.msg.dataLength := hlaid
      refine ⟨s, hs, ?_, by rw [← hend], rfl, (List.append_nil _).symm⟩
      rw [Bool.eq_false_iff]
      intro ht
      have := unread_iff.mp ht
      omega
  | cons v vs ih =>
      obtain ⟨hload, hroom, hrest⟩ := hlaid
      have hv := hplain v List.mem_cons_self
      have ht : unread s = true := unread_iff.mpr (Laid.lt_of_cons ⟨hload, hroom, hrest⟩)
      have hrun := round_of_scalar floats (heaps n) hload hroom
        (MadeByPuts.ne_long_of_plain hv) (valueLines_of_plain floats _ hv)
      obtain ⟨s', hs', hstop, hmsg, hios, hout⟩ :=
        ih (fun w hw => hplain w (List.mem_cons_of_mem v hw)) (hs.next ht hrun) hrest
      refine ⟨s', ?_, hstop, hmsg, hios, ?_⟩
      · rw [List.length_cons, Nat.add_comm vs.length, ← Nat.add_assoc]
        exact hs'
      · rw [hout, List.append_assoc]
        rfl

end Console

namespace PrintCall

open Console

variable {host : ByteOrder} {floats : FloatText}

/-- The line of an item as it is printed. -/
def shownLine (floats : FloatText) (ios : Ios) (i : Item) : String := i.line (i.shown floats ios)

/-- The lines of a call, with the flags it finds. -/
def shown (floats : FloatText) (ios : Ios) (p : PrintCall host) : List Output :=
  around ((headerItems p.msg).map (shownLine floats ios))
    (written (shownLine floats) Item.flags ios (p.unread.map .element))

/-- What one call prints, and the message and the flags it leaves. -/
theorem debugMessagePrint_eq (p : PrintCall host) (floats : FloatText) (c : Console) :
    ∃ fuel c', debugMessagePrint host floats p.heaps fuel { c with msg := p.msg } =
        some (.returns () c') ∧ c'.msg = { p.msg with offset := p.msg.dataLength } ∧
      c'.ios = p.items.foldl Item.flags c.ios ∧ c'.out = c.out ++ p.shown floats c.ios := by
  have hstart : Reaches host floats p.heaps { c with msg := p.msg } 0
      (printHeader { c with msg := p.msg }) := .start
  obtain ⟨s, hs, hstop, hmsg, hios, hout⟩ :=
    reaches_of_laid floats p.unread p.made.plain hstart p.made.laid.2
  refine ⟨0 + 1 + (0 + p.unread.length), printFooter s, ?_, hmsg, hios, ?_⟩
  · unfold debugMessagePrint loop
    rw [Rounds.whileLoop_eq hs, whileLoop_stop hstop, Option.map_some]
  · show s.out ++ _ = _
    rw [hout, shown, around, List.map_append, List.map_append, ← List.append_assoc,
      ← List.append_assoc]
    rfl

/-- So the message can be put on, and printed, again. -/
theorem made_of_returned {p : PrintCall host} {c c' : Console} {fuel : Nat}
    (h : debugMessagePrint host floats p.heaps fuel { c with msg := p.msg } =
      some (.returns () c')) : MadeByPuts host c'.msg [] := by
  obtain ⟨fuel', c₁, hcall, hmsg, -, -⟩ := p.debugMessagePrint_eq floats c
  cases debugMessagePrint_unique h hcall
  rw [hmsg]
  exact p.made.printed

/-- The lines around the items are the same in all calls. -/
theorem around_inj {header header' elements elements' : List String}
    (hheader : header.length = header'.length) (helements : elements.length = elements'.length) :
    around header elements = around header' elements' ↔
      header = header' ∧ elements = elements' := by
  constructor
  · intro h
    have hlines := List.map_injective_iff.mpr (fun _ _ => Output.cout.inj) h
    obtain ⟨hall, -⟩ := List.append_inj' hlines rfl
    obtain ⟨hfront, hback⟩ := List.append_inj' hall helements
    obtain ⟨hstart, -⟩ := List.append_inj' hfront rfl
    exact ⟨(List.append_inj' hstart hheader).2, hback⟩
  · rintro ⟨rfl, rfl⟩
    rfl

theorem foldl_flags_headerItems (ios : Ios) (m : Message) :
    (headerItems m).foldl Item.flags ios = ios := rfl

/-- The lines of a call are a transcript if the lines of its items are. -/
theorem shown_eq_transcript_iff (p : PrintCall host) (ios : Ios) (text : Item → String) :
    p.shown floats ios = p.transcript text ↔
      written (shownLine floats) Item.flags ios p.items =
        p.items.map fun i => i.line (text i) := by
  have hheader : written (shownLine floats) Item.flags ios (headerItems p.msg) =
      (headerItems p.msg).map (shownLine floats ios) := rfl
  rw [shown, transcript, around_inj (by rw [List.length_map, List.length_map])
    (by rw [length_written, List.length_map, List.length_map, List.length_map]), items,
    written_append, foldl_flags_headerItems,
    hheader, List.map_append]
  constructor
  · rintro ⟨hfields, helements⟩
    rw [hfields, helements]
  · exact fun h => List.append_inj h (by rw [List.length_map, List.length_map])

end PrintCall

/-! ## Histories -/

section Histories

variable {host : ByteOrder} {floats : FloatText} {c c' c'' : Console}
  {history : List (PrintCall host)} {text : Item → String}

/-- What a history prints from these flags on. -/
def shownAll (floats : FloatText) (ios : Ios) : List (PrintCall host) → List Output
  | [] => []
  | p :: ps => p.shown floats ios ++ shownAll floats (p.items.foldl Item.flags ios) ps

theorem exists_printsAll (floats : FloatText) (c : Console) (history : List (PrintCall host)) :
    ∃ c', PrintsAll host floats c history c' ∧ c'.out = c.out ++ shownAll floats c.ios history := by
  induction history generalizing c with
  | nil => exact ⟨c, .nil, (List.append_nil _).symm⟩
  | cons p ps ih =>
      obtain ⟨fuel, c₁, hcall, -, hios, hout⟩ := p.debugMessagePrint_eq floats c
      obtain ⟨c', hrest, hout'⟩ := ih c₁
      refine ⟨c', .cons hcall hrest, ?_⟩
      rw [hout', hout, hios, List.append_assoc]
      rfl

theorem PrintsAll.unique (h : PrintsAll host floats c history c')
    (h' : PrintsAll host floats c history c'') : c' = c'' := by
  induction h with
  | nil =>
      cases h'
      rfl
  | cons hcall hrest ih =>
      cases h' with
      | cons hcall' hrest' =>
          cases Console.debugMessagePrint_unique hcall hcall'
          exact ih hrest'

theorem printsAs_iff : PrintsAs host floats text history ↔
    shownAll floats .init history = history.flatMap (PrintCall.transcript text) := by
  obtain ⟨c, hc, hout⟩ :=
    exists_printsAll floats (Console.consoleOf (Message.new default)) history
  rw [show (Console.consoleOf (Message.new default)).out = [] from rfl, List.nil_append] at hout
  constructor
  · rintro ⟨c', hc', hout'⟩
    rw [← hout', ← hc.unique hc']
    exact hout.symm
  · exact fun h => ⟨c, hc, hout.trans h⟩

theorem length_shown (p : PrintCall host) (ios : Ios) (text : Item → String) :
    (p.shown floats ios).length = (p.transcript text).length := by
  simp only [PrintCall.shown, PrintCall.transcript, PrintCall.around, List.length_map,
    List.length_append, length_written]

/-- A history is a transcript if its items are written as such. -/
theorem shownAll_eq_iff (ios : Ios) :
    shownAll floats ios history = history.flatMap (PrintCall.transcript text) ↔
      written (PrintCall.shownLine floats) Item.flags ios (history.flatMap PrintCall.items) =
        (history.flatMap PrintCall.items).map fun i => i.line (text i) := by
  induction history generalizing ios with
  | nil => exact iff_of_true rfl rfl
  | cons p ps ih =>
      rw [shownAll, List.flatMap_cons, List.flatMap_cons, written_append, List.map_append]
      constructor
      · intro h
        obtain ⟨hfirst, hrest⟩ := List.append_inj h (length_shown p ios text)
        rw [(p.shown_eq_transcript_iff ios text).mp hfirst, (ih _).mp hrest]
      · intro h
        obtain ⟨hfirst, hrest⟩ := List.append_inj h (by rw [length_written, List.length_map])
        rw [(p.shown_eq_transcript_iff ios text).mpr hfirst, (ih _).mpr hrest]

theorem line_inj {i : Item} {text text' : String} :
    i.line text = i.line text' ↔ text = text' := by
  unfold Item.line tagged
  rw [String.append_left_inj, String.append_left_inj, String.append_left_inj,
    String.append_right_inj]

/-- A history is printed as a transcript exactly if every item has its text there, with the flags
that the items in front of it have left. -/
theorem printsAs_iff_shown : PrintsAs host floats text history ↔
    ∀ before i after, history.flatMap PrintCall.items = before ++ i :: after →
      i.shown floats (before.foldl Item.flags .init) = text i := by
  rw [printsAs_iff, shownAll_eq_iff, written_eq_map_iff]
  simp only [PrintCall.shownLine, line_inj]

theorem isPlain_of_mem (history : List (PrintCall host)) {i : Item}
    (hi : i ∈ history.flatMap PrintCall.items) : i.IsPlain := by
  obtain ⟨p, -, hi⟩ := List.mem_flatMap.mp hi
  rcases List.mem_append.mp hi with hi | hi
  · simp only [headerItems, List.mem_cons, List.not_mem_nil, or_false] at hi
    rcases hi with rfl | rfl | rfl | rfl | rfl | rfl | rfl | rfl | rfl | rfl | rfl <;> exact trivial
  · obtain ⟨v, hv, rfl⟩ := List.mem_map.mp hi
    exact p.made.plain v hv

theorem hex_behind (items : List Item) :
    (items.foldl Item.flags .init).hex = items.any Item.isByte := by
  rw [Item.hex_foldl_flags]
  rfl

/-- Of the plain texts the histories are transcripts in which the numbers behind bytes are short. -/
theorem printsAs_plainText_iff :
    PrintsAs host floats (Item.plainText floats) history ↔ OneDigitBehindBytes history := by
  rw [printsAs_iff_shown]
  refine forall_congr' fun before => forall_congr' fun i => forall_congr' fun after =>
    forall_congr' fun hitems => ?_
  have hplain : i.IsPlain := isPlain_of_mem history (by
    rw [hitems]
    exact List.mem_append_right before List.mem_cons_self)
  rw [Item.shown_eq_plainText_iff floats _ hplain, hex_behind]

/-- With any text that is decimal for numbers it is the same. -/
theorem oneDigit_of_printsAs (htext : ∀ i n, i.value = some n → text i = decimal n)
    (h : PrintsAs host floats text history) : OneDigitBehindBytes history := by
  intro before i after hitems hbyte n hn
  have hplain : i.IsPlain := isPlain_of_mem history (by
    rw [hitems]
    exact List.mem_append_right before List.mem_cons_self)
  have hshown := printsAs_iff_shown.mp h before i after hitems
  rw [htext i n hn, ← Item.plainText_of_value floats hn,
    Item.shown_eq_plainText_iff floats _ hplain, hex_behind] at hshown
  exact hshown hbyte n hn

/-- **Two histories print the same items the same exactly if in both of them the numbers behind a
byte have one digit.** -/
theorem sameText_iff (host : ByteOrder) (floats : FloatText) (h h' : List (PrintCall host)) :
    SameText host floats h h' ↔ OneDigitBehindBytes h ∧ OneDigitBehindBytes h' := by
  constructor
  · rintro ⟨text, htext, hprints, hprints'⟩
    exact ⟨oneDigit_of_printsAs htext hprints, oneDigit_of_printsAs htext hprints'⟩
  · rintro ⟨hdigit, hdigit'⟩
    exact ⟨Item.plainText floats, fun i n hn => Item.plainText_of_value floats hn,
      printsAs_plainText_iff.mpr hdigit, printsAs_plainText_iff.mpr hdigit'⟩

end Histories

/-- A byte and the number ten. -/
def byteThenInt : PrintCall .little where
  msg := ((Message.new default).place .little (.scalar (.byte 1))).place .little (.scalar (.int 10))
  unread := [.byte 1, .int 10]
  heaps := fun _ => zeroHeap
  made := by
    have hfirst : MadeByPuts .little _ ([] ++ [.byte 1]) :=
      .put (.new default) (by decide)
        (Value.run_put_fresh .little default (v := .scalar (.byte 1)) (by decide))
    have hwritable : ((Message.new default).place .little (.scalar (.byte 1))).Writable :=
      (PutRun.writable_fresh default).place (by decide) .little
    exact .put hfirst (by decide)
      (Value.run_put_of_fits .little (v := .scalar (.int 10)) hwritable (by decide))

/-- The number ten alone. -/
def intAlone : PrintCall .little where
  msg := (Message.new default).place .little (.scalar (.int 10))
  unread := [.int 10]
  heaps := fun _ => zeroHeap
  made := by
    have hput : MadeByPuts .little _ ([] ++ [.int 10]) :=
      .put (.new default) (by decide)
        (Value.run_put_fresh .little default (v := .scalar (.int 10)) (by decide))
    exact hput

/-- Behind the byte, ten is written in hexadecimal. -/
theorem not_sameText_byteThenInt :
    (∃ c, PrintsAll .little Console.noFloats (Console.consoleOf (Message.new default))
      [byteThenInt] c ∧ .cout "        <int>a</int>" ∈ c.out) ∧
    (∃ c, PrintsAll .little Console.noFloats (Console.consoleOf (Message.new default))
      [intAlone] c ∧ .cout "        <int>10</int>" ∈ c.out) ∧
    ¬ SameText .little Console.noFloats [byteThenInt] [intAlone] := by
  refine ⟨?_, ?_, ?_⟩
  · obtain ⟨c, hc, hout⟩ := exists_printsAll Console.noFloats
      (Console.consoleOf (Message.new default)) [byteThenInt]
    exact ⟨c, hc, by rw [hout]; decide +kernel⟩
  · obtain ⟨c, hc, hout⟩ := exists_printsAll Console.noFloats
      (Console.consoleOf (Message.new default)) [intAlone]
    exact ⟨c, hc, by rw [hout]; decide +kernel⟩
  · rintro ⟨text, htext, hprints, -⟩
    have hdigit := oneDigit_of_printsAs htext hprints
      (headerItems byteThenInt.msg ++ [.element (.byte 1)]) (.element (.int 10)) [] rfl rfl 10 rfl
    omega

end Kcmsg
