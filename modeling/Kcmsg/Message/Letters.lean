import Kcmsg.Message.HeaderImage
import Kcmsg.Message.Queue

/-!
# The messages of a program

A program has any number of messages and one `std::cout`. It sets and reads headers, puts and gets
values and prints messages, in any order, and what it prints on one message may change how the next
one is printed, because the flags of the stream stay as they are set.

To its user a message is a `Letter`: a header that shows what was set, each flag of it apart from
the others, and a queue of values. To print a letter is to take all its values from the queue and
to write their lines, with the flags as they come. The messages do what the letters do
(`refines_letters`), for every program that reads no value its getter does not understand.
-/

namespace Kcmsg

/-! ## What a program does -/

/-- A call about message `i`; the messages are numbered in the order of their construction. -/
inductive UserCall where
  | construct (hdr : MessageHeader)
  | set (i : Nat) (call : HeaderCall)
  | view (i : Nat)
  | length (i : Nat)
  | call (i : Nat) (call : MessageCall)
  | print (i : Nat) (heaps : Nat → Heap)

/-- What the program sees of a call, the printout apart. -/
inductive UserReply where
  | done
  | header (view : HeaderView)
  | length (n : Nat)
  | reply (r : Reply)
  deriving DecidableEq

/-- The messages, and `std::cout`. -/
structure Desk where
  msgs : List Message
  ios : Ios
  out : List Output

namespace Desk

def start (ios : Ios) : Desk := ⟨[], ios, []⟩

variable (host : ByteOrder) (floats : FloatText) (fuel : Nat)

/-- A call; none where it does not return. A printout has `fuel` rounds. -/
def step (s : Desk) : UserCall → Option (UserReply × Desk)
  | .construct hdr => some (.done, { s with msgs := s.msgs ++ [Message.new hdr] })
  | .set i call => s.msgs[i]?.map fun m => (.done, { s with msgs := s.msgs.set i (call.apply m) })
  | .view i => s.msgs[i]?.map fun m => (.header m.headerView, s)
  | .length i => s.msgs[i]?.map fun m => (.length m.getMessageLength, s)
  | .call i call => s.msgs[i]?.bind fun m => (call.step host m).map fun r =>
      (.reply r.1, { s with msgs := s.msgs.set i r.2 })
  | .print i heaps => s.msgs[i]?.bind fun m =>
      match Console.debugMessagePrint host floats heaps fuel ⟨m, s.ios, s.out⟩ with
      | some (.returns () c) => some (.done, ⟨s.msgs.set i c.msg, c.ios, c.out⟩)
      | some (.throws what c) => some (.reply (.exception what), ⟨s.msgs.set i c.msg, c.ios, c.out⟩)
      | _ => none

def runAll (s : Desk) : List UserCall → Option (List UserReply × Desk)
  | [] => some ([], s)
  | c :: cs => (step host floats fuel s c).bind fun r =>
      (runAll r.2 cs).map fun rs => (r.1 :: rs.1, rs.2)

end Desk

/-! ## Letters -/

namespace HeaderView

/-- A header in which one value has been set. -/
def set (h : HeaderView) : HeaderCall → HeaderView
  | .setSourceIdentifier id => { h with sourceIdent := id }
  | .setSourceOrganization id => { h with sourceOrganization := id }
  | .setTargetIdentifier id => { h with targetIdent := id }
  | .setTargetOrganization id => { h with targetOrganization := id }
  | .setTransactionIdentifier id => { h with transactionIdent := id }
  | .setTransactionApplication id => { h with transactionApplication := id }
  | .setTransactionOrganization id => { h with transactionOrganization := id }
  | .setTTL val => { h with ttl := val }
  | .setOnceAndOnlyOnce val => { h with onceAndOnlyOnce := val }
  | .setQuickDeath val => { h with quickDeath := val }
  | .setMessageFragment val => { h with messageFragment := val }

/-- The lines up to the first value. -/
def lines (ios : Ios) (h : HeaderView) : List String :=
  let boolean (val : Bool) : String := if val then "true" else "false"
  ["Debug message printout", "======================", "<message>", "    <header>",
    tagged 8 "source_identifier" (ios.showUnsigned h.sourceIdent.toBitVec),
    tagged 8 "source_organization" (ios.showUnsigned h.sourceOrganization.toBitVec),
    tagged 8 "target_identifier" (ios.showUnsigned h.targetIdent.toBitVec),
    tagged 8 "target_organization" (ios.showUnsigned h.targetOrganization.toBitVec),
    tagged 8 "transaction_identifier" (ios.showUnsigned h.transactionIdent.toBitVec),
    tagged 8 "transaction_application" (ios.showUnsigned h.transactionApplication.toBitVec),
    tagged 8 "transaction_organization" (ios.showUnsigned h.transactionOrganization.toBitVec),
    tagged 8 "ttl" (ios.showUnsigned h.ttl.toBitVec),
    tagged 8 "is_once" (boolean h.onceAndOnlyOnce),
    tagged 8 "is_quick_death" (boolean h.quickDeath),
    tagged 8 "is_fragment" (boolean h.messageFragment),
    "    </header>", "    <data>"]

end HeaderView

/-- The lines of values that are printed one after the other, and the flags they leave; none if
there is a time among them that is not in the calendar. -/
def linesOf (floats : FloatText) (ios : Ios) : List Value → Option (List Output × Ios)
  | [] => some ([], ios)
  | v :: vs =>
      (Console.valueLines floats (v.getter.manipulator ios) v.decoded).bind fun lines =>
        (linesOf floats (v.getter.manipulator ios) vs).map fun r => (lines ++ r.1, r.2)

/-- What a message is to its user. -/
structure Letter where
  header : HeaderView
  queue : ValueQueue

structure Letters where
  letters : List Letter
  ios : Ios
  out : List Output

namespace Letters

def start (ios : Ios) : Letters := ⟨[], ios, []⟩

variable (floats : FloatText)

/-- A call; the header of a new letter shows what is in its memory. -/
def step (s : Letters) : UserCall → Option (UserReply × Letters)
  | .construct hdr =>
      some (.done, { s with letters := s.letters ++ [⟨(Message.new hdr).headerView, .start⟩] })
  | .set i call => s.letters[i]?.map fun l =>
      (.done, { s with letters := s.letters.set i { l with header := l.header.set call } })
  | .view i => s.letters[i]?.map fun l => (.header l.header, s)
  | .length i => s.letters[i]?.map fun l => (.length l.queue.length, s)
  | .call i call => s.letters[i]?.bind fun l => (l.queue.step call).map fun r =>
      (.reply r.1, { s with letters := s.letters.set i { l with queue := r.2 } })
  | .print i _ => s.letters[i]?.bind fun l => (linesOf floats s.ios l.queue.unread).map fun r =>
      (.done, ⟨s.letters.set i { l with queue := ⟨l.queue.length, []⟩ }, r.2,
        s.out ++ (l.header.lines s.ios).map .cout ++ r.1 ++
          ["    </data>", "</message>"].map .cout⟩)

def runAll (s : Letters) : List UserCall → Option (List UserReply × Letters)
  | [] => some ([], s)
  | c :: cs => (step floats s c).bind fun r =>
      (runAll r.2 cs).map fun rs => (r.1 :: rs.1, rs.2)

/-- A get finds a value that it understands if it is of its kind, a printout finds such values
only, and there is the memory to return them in. -/
def Readable (host : ByteOrder) (s : Letters) : UserCall → Prop
  | .call i call => ∀ l, s.letters[i]? = some l → l.queue.Readable host call
  | .print i heaps => (∀ n, (heaps n).Serves) ∧
      ∀ l, s.letters[i]? = some l → ∀ v ∈ l.queue.unread, v.Readable host
  | _ => True

def AllReadable (host : ByteOrder) (s : Letters) : List UserCall → Prop
  | [] => True
  | c :: cs => s.Readable host c ∧ ∀ r ∈ step floats s c, AllReadable host r.2 cs

end Letters

/-! ## Headers -/

namespace Message

/-- A flag of one bit is asked for by its bit. -/
theorem isFlag_eq {flag : UInt16} {k : Nat} (hflag : flag.toBitVec = BitVec.twoPow 16 k)
    (hk : k < 16) (m : Message) : isFlag flag m = m.hdr.flags.toBitVec.getLsbD k := by
  have hand : (m.hdr.flags &&& flag).toBitVec =
      if m.hdr.flags.toBitVec.getLsbD k then BitVec.twoPow 16 k else 0#16 := by
    rw [UInt16.toBitVec_and, hflag, BitVec.and_twoPow]
  have hpos : (m.hdr.flags &&& flag > 0) ↔ m.hdr.flags.toBitVec.getLsbD k = true := by
    rw [gt_iff_lt, UInt16.lt_iff_toBitVec_lt, hand, BitVec.lt_def]
    cases m.hdr.flags.toBitVec.getLsbD k with
    | false => simp
    | true =>
        rw [if_pos rfl, BitVec.toNat_twoPow,
          Nat.mod_eq_of_lt (Nat.pow_lt_pow_right (by decide) hk)]
        exact iff_of_true (Nat.two_pow_pos k) rfl
  rw [isFlag]
  cases hbit : m.hdr.flags.toBitVec.getLsbD k with
  | false => exact if_neg fun h => absurd (hpos.mp h) (by rw [hbit]; exact Bool.false_ne_true)
  | true => exact if_pos (hpos.mpr hbit)

/-- **The flags are independent**: one is set or cleared, and the others are as they were. -/
theorem isFlag_setFlag {flag flag' : UInt16} {k k' : Nat}
    (hflag : flag.toBitVec = BitVec.twoPow 16 k) (hflag' : flag'.toBitVec = BitVec.twoPow 16 k')
    (hk : k < 16) (val : Bool) (m : Message) :
    isFlag flag (setFlag flag' val m) = if k = k' then val else isFlag flag m := by
  rw [isFlag_eq hflag hk, isFlag_eq hflag hk]
  cases val with
  | true =>
      show (m.hdr.flags ||| flag').toBitVec.getLsbD k = _
      rw [UInt16.toBitVec_or, hflag', BitVec.getLsbD_or, BitVec.getLsbD_twoPow]
      by_cases hkk : k = k'
      · subst hkk
        simp [hk]
      · simp [hkk, Ne.symm hkk]
  | false =>
      show (m.hdr.flags &&& ~~~flag').toBitVec.getLsbD k = _
      rw [UInt16.toBitVec_and, UInt16.toBitVec_not, hflag', BitVec.getLsbD_and, BitVec.getLsbD_not,
        BitVec.getLsbD_twoPow]
      by_cases hkk : k = k'
      · subst hkk
        simp [hk]
      · simp [hkk, Ne.symm hkk, hk]

/-- The header with the flag of bit `k` set or cleared. -/
theorem headerView_setFlag {flag : UInt16} {k : Nat}
    (hflag : flag.toBitVec = BitVec.twoPow 16 k) (val : Bool) (m : Message) :
    (setFlag flag val m).headerView =
      { m.headerView with
        onceAndOnlyOnce := if 0 = k then val else m.isOnceAndOnlyOnce
        quickDeath := if 1 = k then val else m.isQuickDeath
        messageFragment := if 2 = k then val else m.isMessageFragment } := by
  have honce : isOnceAndOnlyOnce (setFlag flag val m) = if 0 = k then val else _ :=
    isFlag_setFlag (by decide) hflag (by decide) val m
  have hquick : isQuickDeath (setFlag flag val m) = if 1 = k then val else _ :=
    isFlag_setFlag (by decide) hflag (by decide) val m
  have hfragment : isMessageFragment (setFlag flag val m) = if 2 = k then val else _ :=
    isFlag_setFlag (by decide) hflag (by decide) val m
  rw [headerView, honce, hquick, hfragment]
  cases val <;> rfl

end Message

namespace HeaderCall

/-- A setter touches the header only. -/
theorem apply_eq (c : HeaderCall) (m : Message) :
    c.apply m = { m with hdr := (c.apply m).hdr } := by
  cases c with
  | setOnceAndOnlyOnce val => cases val <;> rfl
  | setQuickDeath val => cases val <;> rfl
  | setMessageFragment val => cases val <;> rfl
  | _ => rfl

/-- **A setter sets what it says**, and the getters of the rest answer as before. -/
theorem headerView_apply (c : HeaderCall) (m : Message) :
    (c.apply m).headerView = m.headerView.set c := by
  cases c with
  | setOnceAndOnlyOnce val =>
      have hbit : msgFlagOnceAndOnlyOnce.toBitVec = BitVec.twoPow 16 0 := by decide
      exact Message.headerView_setFlag hbit val m
  | setQuickDeath val =>
      have hbit : msgFlagQuickDeath.toBitVec = BitVec.twoPow 16 1 := by decide
      exact Message.headerView_setFlag hbit val m
  | setMessageFragment val =>
      have hbit : msgFlagFragment.toBitVec = BitVec.twoPow 16 2 := by decide
      exact Message.headerView_setFlag hbit val m
  | _ => rfl

end HeaderCall

/-- Neither puts nor gets touch the header. -/
theorem MessageCall.hdr_of_step {host : ByteOrder} {m m' : Message} (hm : m.Writable)
    {c : MessageCall} {reply : Reply} (h : c.step host m = some (reply, m')) :
    m'.hdr = m.hdr := by
  cases c with
  | put v =>
      by_cases hfit : m.dataLength + v.size ≤ maxMsgData
      · rw [step_put_of_fits hm hfit] at h
        cases h
        rfl
      · rw [step_put_of_not_fits hm hfit] at h
        cases h
        rfl
  | get getter heap => exact (getter.preserves host heap m m' (state_of_ofOutcome h)).hdr
  | getDataType => exact (sameContents_getDataType m m' (state_of_ofOutcome h)).hdr

/-! ## Printing -/

namespace Console

variable {host : ByteOrder} (floats : FloatText) {heap : Heap} {heaps : Nat → Heap} {c s : Console}
  {v : Value}

/-- A round at a value that its getter understands. -/
theorem run_printElement_of_readable (hv : v.Readable host) (hheap : heap.Serves)
    (hload : c.msg.data.load c.msg.offset v.size = v.encode host)
    (hroom : c.msg.offset + v.size ≤ maxMsgData) :
    (printElement host floats heap).run c =
      match valueLines floats (v.getter.manipulator c.ios) v.decoded with
      | some lines => .returns () ⟨{ c.msg with offset := c.msg.offset + v.size },
          v.getter.manipulator c.ios, c.out ++ lines⟩
      | none => .faults := by
  have hget := Value.run_get hv hload hroom hheap
  rw [printElement_of_put hload hroom]
  cases hlines : valueLines floats (v.getter.manipulator c.ios) v.decoded with
  | some lines => exact run_printWith_returns hget hlines
  | none => exact run_printWith_outside hget hlines

/-- The loop over values that are laid out from the cursor on: it prints them all, or comes upon a
time that is not in the calendar. -/
theorem whileLoop_of_laid {vs : List Value} (hread : ∀ v ∈ vs, v.Readable host)
    (hheaps : ∀ n, (heaps n).Serves)
    (hlaid : Laid host s.msg.data s.msg.offset vs s.msg.dataLength) (fuel i : Nat) :
    whileLoop unread (fun i => printElement host floats (heaps i)) (vs.length + 1 + fuel) i s =
      some (match linesOf floats s.ios vs with
        | some r => .returns () ⟨{ s.msg with offset := s.msg.dataLength }, r.2, s.out ++ r.1⟩
        | none => .faults) := by
  induction vs generalizing s i with
  | nil =>
      have hend : s.msg.offset = s.msg.dataLength := hlaid
      have hstop : unread s = false := by
        rw [Bool.eq_false_iff]
        intro ht
        have hlt := unread_iff.mp ht
        omega
      rw [List.length_nil, Nat.add_right_comm, whileLoop_stop hstop, ← hend]
      show some (Outcome.returns () s) = some (.returns () ⟨s.msg, s.ios, s.out ++ []⟩)
      rw [List.append_nil]
  | cons v vs ih =>
      obtain ⟨hload, hroom, hrest⟩ := hlaid
      have ht : unread s = true := unread_iff.mpr (Laid.lt_of_cons ⟨hload, hroom, hrest⟩)
      have hv := hread v List.mem_cons_self
      have hrun := run_printElement_of_readable floats hv (hheaps i) hload hroom
      have hfuel : (v :: vs).length + 1 + fuel = (vs.length + 1 + fuel) + 1 := by
        rw [List.length_cons]
        omega
      rw [hfuel, linesOf]
      cases hlines : valueLines floats (v.getter.manipulator s.ios) v.decoded with
      | none =>
          rw [hlines] at hrun
          refine whileLoop_end ht hrun (fun s' hreturns => ?_) _
          cases hreturns
      | some lines =>
          rw [hlines] at hrun
          rw [Value.gap_of_readable hv, Nat.add_zero] at hrest
          rw [whileLoop_next ht hrun, ih (fun w hw => hread w (List.mem_cons_of_mem v hw)) hrest,
            Option.bind_some]
          cases linesOf floats (v.getter.manipulator s.ios) vs with
          | none => rfl
          | some r =>
              have hout : s.out ++ lines ++ r.1 = s.out ++ (lines ++ r.1) :=
                List.append_assoc ..
              exact congrArg (fun out => some (Outcome.returns ()
                (⟨{ s.msg with offset := s.msg.dataLength }, r.2, out⟩ : Console))) hout

/-- The whole printout, with a round more than there are values. -/
theorem debugMessagePrint_of_laid {vs : List Value} (hread : ∀ v ∈ vs, v.Readable host)
    (hheaps : ∀ n, (heaps n).Serves)
    (hlaid : Laid host c.msg.data c.msg.offset vs c.msg.dataLength) {fuel : Nat}
    (hfuel : vs.length < fuel) :
    debugMessagePrint host floats heaps fuel c =
      some (match linesOf floats c.ios vs with
        | some r => .returns () ⟨{ c.msg with offset := c.msg.dataLength }, r.2,
            c.out ++ (c.msg.headerView.lines c.ios).map .cout ++ r.1 ++
              ["    </data>", "</message>"].map .cout⟩
        | none => .faults) := by
  obtain ⟨k, rfl⟩ := Nat.exists_eq_add_of_le hfuel
  have hloop := whileLoop_of_laid (s := printHeader c) floats hread hheaps hlaid k 0
  have hios : (printHeader c).ios = c.ios := rfl
  unfold debugMessagePrint loop
  rw [hloop, hios]
  cases linesOf floats c.ios vs <;> rfl

end Console

/-- A value takes a byte at least. -/
theorem Laid.length_le {host : ByteOrder} {data : Mem} {p q : Nat} {vs : List Value}
    (h : Laid host data p vs q) : p + vs.length ≤ q := by
  induction vs generalizing p with
  | nil => exact Nat.le_of_eq h
  | cons v vs ih =>
      have hrest := ih h.2.2
      have hpos := v.size_pos
      rw [List.length_cons]
      omega

/-! ## Related lists -/

section Related

variable {α β : Type} {R : α → β → Prop} {l : List α} {m : List β}

theorem forall₂_getElem? (h : List.Forall₂ R l m) (i : Nat) :
    l[i]? = none ∧ m[i]? = none ∨ ∃ a b, l[i]? = some a ∧ m[i]? = some b ∧ R a b := by
  induction h generalizing i with
  | nil => exact .inl ⟨rfl, rfl⟩
  | @cons a b l m hab _ ih =>
      cases i with
      | zero => exact .inr ⟨a, b, rfl, rfl, hab⟩
      | succ i => exact ih i

theorem forall₂_set (h : List.Forall₂ R l m) {a : α} {b : β} (hab : R a b) (i : Nat) :
    List.Forall₂ R (l.set i a) (m.set i b) := by
  induction h generalizing i with
  | nil => exact .nil
  | cons hfirst hrest ih =>
      cases i with
      | zero => exact .cons hab hrest
      | succ i => exact .cons hfirst (ih i)

end Related

/-! ## Messages show letters -/

/-- The message has the header and the values of the letter. -/
structure Letter.ShownBy (host : ByteOrder) (l : Letter) (m : Message) : Prop where
  header : m.headerView = l.header
  queue : l.queue.Shows host m

namespace Letters

/-- The messages are those of the letters, one by one, and there is the same on `std::cout`. -/
structure ShownBy (host : ByteOrder) (s : Letters) (t : Desk) : Prop where
  letters : List.Forall₂ (Letter.ShownBy host) s.letters t.msgs
  ios : t.ios = s.ios
  out : t.out = s.out

namespace ShownBy

variable {host : ByteOrder} {floats : FloatText} {fuel : Nat} {s : Letters} {t : Desk} {i : Nat}

theorem start (host : ByteOrder) (ios : Ios) :
    (Letters.start ios).ShownBy host (Desk.start ios) := ⟨.nil, rfl, rfl⟩

/-- One letter and its message change, and nothing on `std::cout`. -/
theorem set (h : s.ShownBy host t) {l : Letter} {m : Message} (hlm : l.ShownBy host m) (i : Nat) :
    ShownBy host { s with letters := s.letters.set i l } { t with msgs := t.msgs.set i m } :=
  ⟨forall₂_set h.letters hlm i, h.ios, h.out⟩

/-- A printout takes the values of one letter from its queue. -/
theorem print (h : s.ShownBy host t) {l : Letter} {m : Message} (hlm : l.ShownBy host m)
    (hl : s.letters[i]? = some l) (hm : t.msgs[i]? = some m) {heaps : Nat → Heap}
    (hheaps : ∀ n, (heaps n).Serves) (hread : ∀ v ∈ l.queue.unread, v.Readable host)
    (hfuel : 2 * maxMsgData ≤ fuel) :
    (t.step host floats fuel (.print i heaps) = none ∧ s.step floats (.print i heaps) = none) ∨
      ∃ reply t' s', t.step host floats fuel (.print i heaps) = some (reply, t') ∧
        s.step floats (.print i heaps) = some (reply, s') ∧ s'.ShownBy host t' := by
  have hlength : l.queue.unread.length < fuel := by
    have hlaid := hlm.queue.laid.length_le
    have hlower := hlm.queue.lower
    have hbounded := hlm.queue.writable.bounded
    omega
  have hprint := Console.debugMessagePrint_of_laid (c := ⟨m, t.ios, t.out⟩) floats hread hheaps
    hlm.queue.laid hlength
  rw [Desk.step, Letters.step, hl, hm, Option.bind_some, Option.bind_some, hprint, h.ios, h.out,
    hlm.header]
  cases linesOf floats s.ios l.queue.unread with
  | none => exact .inl ⟨rfl, rfl⟩
  | some r =>
      have hempty : Letter.ShownBy host { l with queue := ⟨l.queue.length, []⟩ }
          { m with offset := m.dataLength } := by
        refine ⟨hlm.header, ?_⟩
        exact ⟨⟨hlm.queue.writable.past_length, hlm.queue.writable.bounded⟩, hlm.queue.length,
          hlm.queue.writable.past_length, rfl, hlm.queue.zero⟩
      exact .inr ⟨.done, _, _, rfl, rfl, forall₂_set h.letters hempty i, rfl, rfl⟩

/-- **The step lemma**: the messages reply as the letters do, and show them afterwards. -/
theorem step (h : s.ShownBy host t) {c : UserCall} (hc : s.Readable host c)
    (hfuel : 2 * maxMsgData ≤ fuel) :
    (t.step host floats fuel c = none ∧ s.step floats c = none) ∨
      ∃ reply t' s', t.step host floats fuel c = some (reply, t') ∧
        s.step floats c = some (reply, s') ∧ s'.ShownBy host t' := by
  cases c with
  | construct hdr =>
      have hnew : Letter.ShownBy host ⟨(Message.new hdr).headerView, .start⟩ (Message.new hdr) :=
        ⟨rfl, ValueQueue.shows_start host hdr⟩
      exact .inr ⟨.done, _, _, rfl, rfl, List.rel_append h.letters (.cons hnew .nil), h.ios, h.out⟩
  | set i call =>
      rcases forall₂_getElem? h.letters i with ⟨hl, hm⟩ | ⟨l, m, hl, hm, hlm⟩
      · exact .inl ⟨by rw [Desk.step, hm]; rfl, by rw [Letters.step, hl]; rfl⟩
      · have hset : Letter.ShownBy host { l with header := l.header.set call } (call.apply m) := by
          refine ⟨by rw [call.headerView_apply, hlm.header], ?_⟩
          rw [call.apply_eq]
          exact ⟨⟨hlm.queue.writable.past_length, hlm.queue.writable.bounded⟩, hlm.queue.length,
            hlm.queue.lower, hlm.queue.laid, hlm.queue.zero⟩
        refine .inr ⟨.done, _, _, ?_, ?_, h.set hset i⟩
        · rw [Desk.step, hm]
          rfl
        · rw [Letters.step, hl]
          rfl
  | view i =>
      rcases forall₂_getElem? h.letters i with ⟨hl, hm⟩ | ⟨l, m, hl, hm, hlm⟩
      · exact .inl ⟨by rw [Desk.step, hm]; rfl, by rw [Letters.step, hl]; rfl⟩
      · refine .inr ⟨.header l.header, t, s, ?_, by rw [Letters.step, hl]; rfl, h⟩
        rw [Desk.step, hm, Option.map_some, hlm.header]
  | length i =>
      rcases forall₂_getElem? h.letters i with ⟨hl, hm⟩ | ⟨l, m, hl, hm, hlm⟩
      · exact .inl ⟨by rw [Desk.step, hm]; rfl, by rw [Letters.step, hl]; rfl⟩
      · refine .inr ⟨.length l.queue.length, t, s, ?_, by rw [Letters.step, hl]; rfl, h⟩
        rw [Desk.step, hm, Option.map_some, Message.getMessageLength, hlm.queue.length]
  | call i call =>
      rcases forall₂_getElem? h.letters i with ⟨hl, hm⟩ | ⟨l, m, hl, hm, hlm⟩
      · exact .inl ⟨by rw [Desk.step, hm]; rfl, by rw [Letters.step, hl]; rfl⟩
      · rw [Desk.step, Letters.step, hl, hm, Option.bind_some, Option.bind_some]
        rcases hlm.queue.step (hc l hl) with ⟨hm', hq'⟩ | ⟨reply, m', q', hm', hq', hshows⟩
        · exact .inl ⟨by rw [hm']; rfl, by rw [hq']; rfl⟩
        · have hhdr := MessageCall.hdr_of_step hlm.queue.writable hm'
          have hlm' : Letter.ShownBy host { l with queue := q' } m' :=
            ⟨(Message.headerView_congr hhdr).trans hlm.header, hshows⟩
          exact .inr ⟨.reply reply, _, _, by rw [hm']; rfl, by rw [hq']; rfl, h.set hlm' i⟩
  | print i heaps =>
      rcases forall₂_getElem? h.letters i with ⟨hl, hm⟩ | ⟨l, m, hl, hm, hlm⟩
      · exact .inl ⟨by rw [Desk.step, hm]; rfl, by rw [Letters.step, hl]; rfl⟩
      · exact h.print hlm hl hm hc.1 (hc.2 l hl) hfuel

/-- The run lemma. -/
theorem runAll (h : s.ShownBy host t) {calls : List UserCall}
    (hcalls : s.AllReadable floats host calls) (hfuel : 2 * maxMsgData ≤ fuel) :
    (t.runAll host floats fuel calls = none ∧ s.runAll floats calls = none) ∨
      ∃ replies t' s', t.runAll host floats fuel calls = some (replies, t') ∧
        s.runAll floats calls = some (replies, s') ∧ s'.ShownBy host t' := by
  induction calls generalizing s t with
  | nil => exact .inr ⟨[], t, s, rfl, rfl, h⟩
  | cons c cs ih =>
      obtain ⟨hc, hrest⟩ := hcalls
      rw [Desk.runAll, Letters.runAll]
      rcases h.step hc hfuel with ⟨ht, hs⟩ | ⟨reply, t₁, s₁, ht, hs, h₁⟩
      · exact .inl ⟨by rw [ht]; rfl, by rw [hs]; rfl⟩
      · rw [ht, hs, Option.bind_some, Option.bind_some]
        rcases ih h₁ (hrest (reply, s₁) hs) with ⟨ht', hs'⟩ | ⟨replies, t', s', ht', hs', h'⟩
        · exact .inl ⟨by rw [ht']; rfl, by rw [hs']; rfl⟩
        · exact .inr ⟨reply :: replies, t', s', by rw [ht']; rfl, by rw [hs']; rfl, h'⟩

end ShownBy

/-- **Messages are letters.** A program that reads no value its getter does not understand gets the
replies from its messages that it would get from the letters, ends at the same call if it does not
come to its end, and has the same on `std::cout` and the same flags there. -/
theorem refines_letters (host : ByteOrder) (floats : FloatText) (ios : Ios) {calls : List UserCall}
    (hcalls : (start ios).AllReadable floats host calls) {fuel : Nat}
    (hfuel : 2 * maxMsgData ≤ fuel) :
    ((Desk.start ios).runAll host floats fuel calls).map (fun r => (r.1, r.2.ios, r.2.out)) =
      ((start ios).runAll floats calls).map fun r => (r.1, r.2.ios, r.2.out) := by
  rcases (ShownBy.start host ios).runAll hcalls hfuel with
    ⟨ht, hs⟩ | ⟨replies, t', s', ht, hs, h⟩
  · rw [ht, hs]
    rfl
  · rw [ht, hs, Option.map_some, Option.map_some, h.ios, h.out]

/-- Two messages, one with a byte and one with an int, printed one after the other. -/
def sampleUserCalls : List UserCall :=
  [.construct default, .construct default, .set 0 (.setQuickDeath true),
    .call 0 (.put (.scalar (.byte 65))), .call 1 (.put (.scalar (.int 255))),
    .print 0 fun _ => zeroHeap, .print 1 fun _ => zeroHeap, .view 0, .length 1]

theorem refines_letters_sample :
    ((Desk.start .init).runAll .little Console.noFloats (2 * maxMsgData) sampleUserCalls).map
        (fun r => (r.1, r.2.ios, r.2.out)) =
      some ([.done, .done, .done, .reply .done, .reply .done, .done, .done,
          .header { HeaderView.cleared with quickDeath := true }, .length 31],
        { Ios.init with hex := true },
        (HeaderView.lines .init { HeaderView.cleared with quickDeath := true }).map .cout ++
          [.cout "        <byte>A</byte>", .cout "    </data>", .cout "</message>"] ++
          (HeaderView.lines { Ios.init with hex := true } HeaderView.cleared).map .cout ++
          [.cout "        <int>ff</int>", .cout "    </data>", .cout "</message>"]) := by
  have hcalls : (start .init).AllReadable Console.noFloats .little sampleUserCalls := by
    refine ⟨trivial, ?_⟩
    rintro _ ⟨⟩
    refine ⟨trivial, ?_⟩
    rintro _ ⟨⟩
    refine ⟨trivial, ?_⟩
    rintro _ ⟨⟩
    refine ⟨fun _ _ => trivial, ?_⟩
    rintro _ ⟨⟩
    refine ⟨fun _ _ => trivial, ?_⟩
    rintro _ ⟨⟩
    refine ⟨⟨fun _ => zeroHeap_serves, ?_⟩, ?_⟩
    · rintro _ ⟨⟩ v hv
      rw [List.mem_singleton.mp hv]
      exact (show ScalarKind.byte ≠ .long by decide)
    rintro _ ⟨⟩
    refine ⟨⟨fun _ => zeroHeap_serves, ?_⟩, ?_⟩
    · rintro _ ⟨⟩ v hv
      rw [List.mem_singleton.mp hv]
      exact (show ScalarKind.int ≠ .long by decide)
    rintro _ ⟨⟩
    refine ⟨trivial, ?_⟩
    rintro _ ⟨⟩
    exact ⟨trivial, fun _ _ => trivial⟩
  exact refines_letters .little Console.noFloats .init hcalls (Nat.le_refl _)

end Letters

end Kcmsg
