import Kcmsg.Message.PrintRound
import Kcmsg.Message.ReadBack
import Kcmsg.Message.Untrusted

/-!
# Whether the printout ends

The loop of `debugMessagePrint` has no step of its own: `offset` is moved by the getters alone, so
a round in which none is called leaves the message as it was, and the loop never comes to an end.
The `switch` has twelve such cases, those of the arrays.

`EndsOrderly` says of one call that it comes to an end, in one of the three ways that are meant,
and that every round on the way moves the cursor. `RoundEnds` is the condition on the element at the
cursor: it is not an array, and the getter of its tag finds what it needs. `endsOrderly_iff` is the
condition for a call as a whole, the one on each of the elements that its loop comes to.
-/

namespace Kcmsg

/-- Behind the tag of the getter there is what its case needs: a payload in the block, for a time
one in the calendar, for a wide string also a zero character. A string for which there is no memory
is rejected. -/
def Getter.Prints (host : ByteOrder) (heap : Heap) (m : Message) : Getter → Prop
  | scalar k =>
      m.offset + 1 + k.readWidth ≤ maxMsgData ∧
        (k = .time →
          (gmtime (.ofBitVec (littleValue 64 (m.data.load (m.offset + 1) 8)))).isSome)
  | string =>
      (m.payloadStart .string ≤ maxMsgData ∧ heap (m.request .string) = none) ∨
        ∃ n, m.FieldFits .string n
  | wstring =>
      ∃ n bytes, m.FieldFits .wstring n ∧ heap ((n + 1) * 4) = some bytes ∧
        0 ∈ wideChars host (m.payload .wstring) ++
          wideChars host (Message.behindWide bytes.val n)

/-- The element at the cursor lets the loop go on, or ends it in a way that is meant. -/
structure RoundEnds (host : ByteOrder) (heap : Heap) (m : Message) : Prop where
  consumes : m.data m.offset ∉ arrayTypes
  prints : ∀ g : Getter, g.HasTag (m.data m.offset) → g.Prints host heap m

namespace Console

/-! ## The message during a round -/

/-- A round changes the cursor of the message and nothing else of it. -/
def SameMessage (c c' : Console) : Prop := c.msg.SameContents c'.msg

section Preserves

open Program

theorem sameMessage_refl (c : Console) : SameMessage c c := .refl c.msg

theorem sameMessage_trans {a b c : Console} (hab : SameMessage a b) (hbc : SameMessage b c) :
    SameMessage a c := Message.SameContents.trans hab hbc

theorem preserves_onMessage {α : Type} {x : Program Message α}
    (hx : Preserves Message.SameContents x) : Preserves SameMessage (onMessage x) := by
  unfold onMessage
  refine preserves_zoom (R := Message.SameContents) (Q := SameMessage) ?_ hx
  intro c m h
  exact h

variable (host : ByteOrder) (floats : FloatText) (heap : Heap)

theorem preserves_printWith (g : Getter) :
    Preserves SameMessage (printWith host floats heap g) := by
  unfold printWith manipulate
  refine preserves_bind (R := SameMessage) sameMessage_trans
    (preserves_modify fun c => sameMessage_refl c) fun _ => ?_
  refine preserves_bind (R := SameMessage) sameMessage_trans
    (preserves_onMessage (g.preserves host heap)) fun _ => ?_
  refine preserves_bind (R := SameMessage) sameMessage_trans
    (preserves_get sameMessage_refl) fun c => ?_
  refine preserves_bind (R := SameMessage) sameMessage_trans
    (preserves_orFault sameMessage_refl _) fun _ => ?_
  exact preserves_modify fun c => sameMessage_refl c

theorem preserves_switchCase (dt : UInt8) :
    Preserves SameMessage (switchCase host floats heap dt) := by
  by_cases hget : ∃ g : Getter, g.HasTag dt
  · obtain ⟨g, hg⟩ := hget
    rw [switchCase_of_tag host floats heap hg]
    exact preserves_printWith host floats heap g
  · by_cases harray : dt ∈ arrayTypes
    · rw [switchCase_of_array host floats heap harray]
      exact preserves_pure sameMessage_refl ()
    · rw [switchCase_of_unknown host floats heap (not_exists.mp hget) harray]
      intro c c' hc'
      cases hc'
      exact sameMessage_refl c

theorem preserves_printElement : Preserves SameMessage (printElement host floats heap) := by
  unfold printElement
  exact preserves_bind (R := SameMessage) sameMessage_trans
    (preserves_onMessage MessageCall.sameContents_getDataType)
    fun dt => preserves_switchCase host floats heap dt

end Preserves

/-! ## The cases with a getter -/

section Cases

variable {host : ByteOrder} {floats : FloatText} {heap : Heap} {c : Console}

/-- There are lines for every scalar but a time. -/
theorem exists_valueLines (floats : FloatText) (ios : Ios) {v : ScalarValue}
    (hv : v.kind ≠ .time) : ∃ lines, valueLines floats ios (.scalar v) = some lines := by
  cases v with
  | time t => exact absurd rfl hv
  | _ => exact ⟨_, rfl⟩

/-- A case in which the getter fails, or returns with the cursor further on. -/
def Advances (x : Outcome Console Unit) (c : Console) : Prop :=
  x = .aborts ∨ ∃ c', x = .returns () c' ∧ c.msg.offset < c'.msg.offset

theorem advances_scalar {k : ScalarKind} (htag : c.msg.data c.msg.offset = k.tag)
    (h : (Getter.scalar k).Prints host heap c.msg) :
    Advances ((printWith host floats heap (.scalar k)).run c) c := by
  obtain ⟨hinside, hcalendar⟩ := h
  have hless : c.msg.offset < c.msg.offset + 1 + k.readWidth := by omega
  by_cases hk : k = .time
  · subst hk
    have hget : ((Getter.scalar .time).get host heap).run c.msg = _ :=
      Program.run_bind_returns _ (ScalarKind.run_get host (by decide) hinside htag)
    obtain ⟨tm, htm⟩ := Option.isSome_iff_exists.mp (hcalendar rfl)
    have hlines : valueLines floats c.ios (.scalar (.time (.ofBitVec (littleValue 64
        (c.msg.data.load (c.msg.offset + 1) 8))))) = some ((timeLines c.ios tm).map .cout) := by
      rw [valueLines, htm, Option.map_some]
    exact .inr ⟨_, run_printWith_returns hget hlines, hless⟩
  · obtain ⟨f, hkind, hf⟩ := k.exists_run host
    have helement := hf c.msg
    rw [Message.run_getElement k.tag_lt hinside htag, Outcome.map] at helement
    have hget : ((Getter.scalar k).get host heap).run c.msg = _ :=
      Program.run_bind_returns _ helement
    have hval : (f (c.msg.data.load (c.msg.offset + 1) k.readWidth)).kind ≠ .time := by
      rwa [hkind]
    obtain ⟨lines, hlines⟩ :=
      exists_valueLines floats ((Getter.scalar k).manipulator c.ios) hval
    exact .inr ⟨_, run_printWith_returns hget hlines, hless⟩

theorem faults_scalar {k : ScalarKind} (htag : c.msg.data c.msg.offset = k.tag)
    (h : ¬ (Getter.scalar k).Prints host heap c.msg) :
    (printWith host floats heap (.scalar k)).run c = .faults := by
  by_cases hinside : c.msg.offset + 1 + k.readWidth ≤ maxMsgData
  · -- only a time can be in the block and not be printed
    have hk : k = .time := by
      by_contra hk
      exact h ⟨hinside, fun htime => absurd htime hk⟩
    subst hk
    have hget : ((Getter.scalar .time).get host heap).run c.msg = _ :=
      Program.run_bind_returns _ (ScalarKind.run_get host (by decide) hinside htag)
    have hnone : gmtime (.ofBitVec (littleValue 64 (c.msg.data.load (c.msg.offset + 1) 8))) =
        none := by
      rw [← Option.not_isSome_iff_eq_none]
      exact fun hsome => h ⟨hinside, fun _ => hsome⟩
    have hlines : valueLines floats c.ios (.scalar (.time (.ofBitVec (littleValue 64
        (c.msg.data.load (c.msg.offset + 1) 8))))) = none := by
      rw [valueLines, hnone, Option.map_none]
    exact run_printWith_outside hget hlines
  · exact run_printWith_faults
      (run_scalar_of_faults (Message.run_getElement_of_gt k.tag_lt (by omega) htag))

theorem advances_string (h : Getter.string.Prints host heap c.msg)
    (ha : c.msg.Announces .string) :
    Advances ((printWith host floats heap .string).run c) c := by
  have hget := run_get_string host heap c.msg
  rcases Message.getString_cases heap c.msg with ⟨-, -, hrun⟩ | ⟨-, -, -, hrun⟩ |
    ⟨n, hfits, -, hrun⟩ | hrun
  · rw [hrun, Outcome.map] at hget
    exact .inl (run_printWith_aborts hget)
  · rw [hrun, Outcome.map] at hget
    exact .inl (run_printWith_aborts hget)
  · rw [hrun, Outcome.map] at hget
    refine .inr ⟨_, run_printWith_returns hget rfl, ?_⟩
    show c.msg.offset < c.msg.offset + 1 + c.msg.prefixWidth .string + n
    omega
  · exfalso
    rcases h with ⟨hstart, hheap⟩ | ⟨n, hfits⟩
    · rw [Message.run_getString_refused ha hstart hheap] at hrun
      cases hrun
    · have hend := hfits.inside
      have hrequest : c.msg.request .string = n + 1 := hfits.request_eq.trans (Nat.mul_one _)
      cases hheap : heap (n + 1) with
      | none =>
          rw [Message.run_getString_refused ha (by omega) (by rw [hrequest, hheap])] at hrun
          cases hrun
      | some bytes =>
          rw [Message.run_getString hfits (by rw [hheap]; rfl)] at hrun
          cases hrun

theorem faults_string (h : ¬ Getter.string.Prints host heap c.msg)
    (ha : c.msg.Announces .string) :
    (printWith host floats heap .string).run c = .faults := by
  have hget := run_get_string host heap c.msg
  rcases Message.getString_cases heap c.msg with ⟨-, hnot, -⟩ | ⟨-, hstart, hheap, -⟩ |
    ⟨n, hfits, -, -⟩ | hrun
  · exact absurd ha hnot
  · exact absurd (.inl ⟨hstart, hheap⟩) h
  · exact absurd (.inr ⟨n, hfits⟩) h
  · rw [hrun, Outcome.map] at hget
    exact run_printWith_faults hget

theorem advances_wstring (h : Getter.wstring.Prints host heap c.msg) :
    Advances ((printWith host floats heap .wstring).run c) c := by
  obtain ⟨n, bytes, hfits, hheap, hzero⟩ := h
  have hget := run_get_wstring host heap c.msg
  have hstop := untilStop_of_mem hzero []
  rw [List.append_nil] at hstop
  rw [Message.run_getWString hfits hheap, hstop] at hget
  refine .inr ⟨_, run_printWith_returns hget rfl, ?_⟩
  show c.msg.offset < c.msg.offset + 1 + c.msg.prefixWidth .wstring + n * 4
  omega

theorem faults_wstring (h : ¬ Getter.wstring.Prints host heap c.msg)
    (ha : c.msg.Announces .wstring) :
    (printWith host floats heap .wstring).run c = .faults := by
  have hget := run_get_wstring host heap c.msg
  rcases Message.getWString_cases heap host c.msg with ⟨-, hnot, -⟩ |
    ⟨n, bytes, hfits, hheap, s, hstop, -⟩ | hrun
  · exact absurd ha hnot
  · refine absurd ⟨n, bytes, hfits, hheap, ?_⟩ h
    by_contra hzero
    rw [untilStop_eq_none_iff.mpr hzero] at hstop
    cases hstop
  · rw [hrun, Outcome.map] at hget
    exact run_printWith_faults hget

/-- A case that has what it needs comes to an end, further on. -/
theorem advances_printWith {g : Getter} (htag : g.HasTag (c.msg.data c.msg.offset))
    (h : g.Prints host heap c.msg) : Advances ((printWith host floats heap g).run c) c := by
  cases g with
  | scalar k => exact advances_scalar htag h
  | string => exact advances_string h htag
  | wstring => exact advances_wstring h

/-- One that has not leaves the block, or the calendar. -/
theorem faults_printWith {g : Getter} (htag : g.HasTag (c.msg.data c.msg.offset))
    (h : ¬ g.Prints host heap c.msg) : (printWith host floats heap g).run c = .faults := by
  cases g with
  | scalar k => exact faults_scalar htag h
  | string => exact faults_string h htag
  | wstring => exact faults_wstring h htag

end Cases

/-! ## A round -/

section Round

variable {host : ByteOrder} {heap : Heap} {c : Console}

theorem round_of_roundEnds (floats : FloatText) (h : RoundEnds host heap c.msg)
    (hroom : c.msg.offset + 1 ≤ maxMsgData) :
    Advances ((printElement host floats heap).run c) c ∨
      (printElement host floats heap).run c = .throws "Unknown Data Type;" c := by
  by_cases hget : ∃ g : Getter, g.HasTag (c.msg.data c.msg.offset)
  · obtain ⟨g, hg⟩ := hget
    rw [printElement_of_tag hroom hg]
    exact .inl (advances_printWith hg (h.prints g hg))
  · exact .inr (printElement_of_unknown hroom (not_exists.mp hget) h.consumes)

theorem round_of_not_roundEnds (floats : FloatText) (h : ¬ RoundEnds host heap c.msg)
    (hroom : c.msg.offset + 1 ≤ maxMsgData) :
    (printElement host floats heap).run c = .faults ∨
      (printElement host floats heap).run c = .returns () c := by
  by_cases harray : c.msg.data c.msg.offset ∈ arrayTypes
  · exact .inr (printElement_of_array hroom harray)
  · left
    by_contra hrun
    refine h ⟨harray, fun g hg => ?_⟩
    by_contra hprints
    apply hrun
    rw [printElement_of_tag hroom hg]
    exact faults_printWith hg hprints

end Round

/-! ## A call -/

section Call

variable (host : ByteOrder) (floats : FloatText) (heaps : Nat → Heap) (c : Console)

/-- In a call on `c` the test of the loop is made in state `s` for round `n`. -/
def Reaches (n : Nat) (s : Console) : Prop :=
  Rounds unread (fun i => printElement host floats (heaps i)) (printHeader c) n s

/-- The call ends with all of the message read, with the exception or with a failed assertion, and
each of its rounds that neither throws nor aborts moves the cursor. -/
structure EndsOrderly : Prop where
  ends : ∃ fuel x, debugMessagePrint host floats heaps fuel c = some x ∧
    ((∃ c', x = .returns () c' ∧ c'.msg.dataLength ≤ c'.msg.offset) ∨
      (∃ c', x = .throws "Unknown Data Type;" c') ∨ x = .aborts)
  advances : ∀ n s s', Reaches host floats heaps c n s → unread s = true →
    (printElement host floats (heaps n)).run s = .returns () s' → s.msg.offset < s'.msg.offset

end Call

section Loop

variable {host : ByteOrder} {floats : FloatText} {heaps : Nat → Heap} {c s : Console} {n : Nat}

theorem unread_iff : unread s = true ↔ s.msg.offset < s.msg.dataLength := decide_eq_true_iff

/-- The run lemma: the message is the same in every round. -/
theorem Reaches.sameContents (h : Reaches host floats heaps c n s) :
    c.msg.SameContents s.msg := by
  refine Rounds.keeps (I := fun s => c.msg.SameContents s.msg) h (.refl c.msg) ?_
  intro n s s' hs hrun
  have hround := preserves_printElement host floats (heaps n) s s' (by rw [hrun]; rfl)
  exact hs.trans hround

/-- So there is a byte at the cursor whenever the loop goes on. -/
theorem Reaches.room (h : Reaches host floats heaps c n s) (hlen : c.msg.dataLength ≤ 0xFFFF)
    (ht : unread s = true) : s.msg.offset + 1 ≤ maxMsgData := by
  have hlt := unread_iff.mp ht
  rw [h.sameContents.dataLength] at hlt
  exact Nat.le_trans hlt hlen

/-- A fault in a round is one of the call. -/
theorem Reaches.debugMessagePrint_faults (h : Reaches host floats heaps c n s)
    (ht : unread s = true) (hrun : (printElement host floats (heaps n)).run s = .faults) :
    debugMessagePrint host floats heaps (1 + n) c = some .faults := by
  have hloop : loop host floats heaps (1 + n) (printHeader c) = some .faults := by
    unfold loop
    rw [Rounds.whileLoop_eq h 1]
    refine whileLoop_end ht hrun ?_ 0
    intro s' hreturns
    cases hreturns
  unfold debugMessagePrint
  rw [hloop, Option.map_some]

theorem debugMessagePrint_unique {fuel fuel' : Nat} {x y : Outcome Console Unit}
    (hx : debugMessagePrint host floats heaps fuel c = some x)
    (hy : debugMessagePrint host floats heaps fuel' c = some y) : x = y := by
  obtain ⟨x', hx', rfl⟩ := Option.map_eq_some_iff.mp hx
  obtain ⟨y', hy', rfl⟩ := Option.map_eq_some_iff.mp hy
  rw [whileLoop_unique hx' hy']

theorem roundEnds_of_endsOrderly (horderly : EndsOrderly host floats heaps c)
    (hlen : c.msg.dataLength ≤ 0xFFFF) (h : Reaches host floats heaps c n s)
    (ht : unread s = true) : RoundEnds host (heaps n) s.msg := by
  by_contra hnot
  rcases round_of_not_roundEnds floats hnot (h.room hlen ht) with hrun | hrun
  · obtain ⟨fuel, x, hx, hend⟩ := horderly.ends
    have hfaults : x = .faults :=
      debugMessagePrint_unique hx (h.debugMessagePrint_faults ht hrun)
    rcases hend with ⟨c', rfl, -⟩ | ⟨c', rfl⟩ | rfl <;> cases hfaults
  · -- a round that leaves everything as it was
    exact absurd (horderly.advances n s s h ht hrun) (Nat.lt_irrefl _)

/-- A round that ends in order moves the cursor, if it returns. -/
theorem Reaches.advances (h : Reaches host floats heaps c n s)
    (hlen : c.msg.dataLength ≤ 0xFFFF) (ht : unread s = true)
    (hends : RoundEnds host (heaps n) s.msg) {s' : Console}
    (hrun : (printElement host floats (heaps n)).run s = .returns () s') :
    s.msg.offset < s'.msg.offset := by
  rcases round_of_roundEnds floats hends (h.room hlen ht) with
    (haborts | ⟨c', hreturns, hless⟩) | hthrows
  · exact absurd (haborts.symm.trans hrun) nofun
  · cases hreturns.symm.trans hrun
    exact hless
  · exact absurd (hthrows.symm.trans hrun) nofun

/-- A loop whose rounds move the cursor ends: what is left to read gets less in every round. -/
theorem exists_loop_of_advances
    (hadvances : ∀ n s s', Reaches host floats heaps c n s → unread s = true →
      (printElement host floats (heaps n)).run s = .returns () s' →
      s.msg.offset < s'.msg.offset) :
    ∃ fuel x, loop host floats heaps fuel (printHeader c) = some x := by
  refine exists_fuel (fun s => c.msg.dataLength - s.msg.offset) ?_
  intro n s s' h ht hrun
  have hlt := unread_iff.mp ht
  have hlength := Reaches.sameContents h
  have hless := hadvances n s s' h ht hrun
  rw [hlength.dataLength] at hlt
  omega

theorem endsOrderly_of_roundEnds (hlen : c.msg.dataLength ≤ 0xFFFF)
    (hends : ∀ n s, Reaches host floats heaps c n s → unread s = true →
      RoundEnds host (heaps n) s.msg) : EndsOrderly host floats heaps c := by
  have hadvances : ∀ n s s', Reaches host floats heaps c n s → unread s = true →
      (printElement host floats (heaps n)).run s = .returns () s' →
      s.msg.offset < s'.msg.offset :=
    fun n s s' h ht => h.advances hlen ht (hends n s h ht)
  refine ⟨?_, hadvances⟩
  obtain ⟨fuel, x, hx⟩ := exists_loop_of_advances hadvances
  obtain ⟨k, t, hk, hend⟩ := Rounds.exists_end .start hx
  refine ⟨fuel, _, by unfold debugMessagePrint; rw [hx, Option.map_some], ?_⟩
  rcases hend with ⟨ht, rfl⟩ | ⟨ht, hrun, hnot⟩
  · refine .inl ⟨printFooter t, rfl, ?_⟩
    have hstop : ¬ t.msg.offset < t.msg.dataLength := by
      rw [← unread_iff, ht]
      exact Bool.false_ne_true
    exact Nat.le_of_not_lt hstop
  · have hround := round_of_roundEnds floats (hends k t hk ht) (Reaches.room hk hlen ht)
    rcases hround with (haborts | ⟨c', hreturns, -⟩) | hthrows
    · rw [haborts] at hrun
      subst hrun
      exact .inr (.inr rfl)
    · exact absurd (hrun.symm.trans hreturns) (hnot c')
    · rw [hthrows] at hrun
      subst hrun
      exact .inr (.inl ⟨t, rfl⟩)

/-- **The printout ends as it should exactly if every element its loop comes to lets it**: it is no
array, and there is what the getter of its tag needs. -/
theorem endsOrderly_iff (hlen : c.msg.dataLength ≤ 0xFFFF) :
    EndsOrderly host floats heaps c ↔
      ∀ n s, Reaches host floats heaps c n s → unread s = true →
        RoundEnds host (heaps n) s.msg :=
  ⟨fun horderly _ _ h ht => roundEnds_of_endsOrderly horderly hlen h ht,
    endsOrderly_of_roundEnds hlen⟩

end Loop

/-- A block full of one byte, `n` of them behind the header of the message. -/
def filled (b : UInt8) (n : Nat) : Console where
  msg := { data := fun _ => b, offset := 26, dataLength := 26 + n, hdr := default }
  ios := .init
  out := []

/-- The text of floating point numbers, where there are none. -/
def noFloats : FloatText := ⟨fun _ _ => "", fun _ _ => ""⟩

/-- Two bytes, a bool. -/
theorem endsOrderly_bool :
    (filled dataTypeBool 2).msg.dataLength ≤ 0xFFFF ∧
      EndsOrderly .little noFloats (fun _ => zeroHeap) (filled dataTypeBool 2) := by
  have hlen : (filled dataTypeBool 2).msg.dataLength ≤ 0xFFFF := by decide
  refine ⟨hlen, (endsOrderly_iff hlen).mpr ?_⟩
  intro n s h ht
  have hsame := h.sameContents
  have hdata (i : Nat) : s.msg.data i = dataTypeBool := by rw [hsame.data]; rfl
  have hroom : s.msg.offset < 28 := Nat.lt_of_lt_of_eq (unread_iff.mp ht) hsame.dataLength
  refine ⟨by rw [hdata]; decide, fun g hg => ?_⟩
  rw [hdata] at hg
  cases g with
  | scalar k =>
      obtain rfl : k = .bool := ScalarKind.tag_inj hg.symm
      exact ⟨show s.msg.offset + 1 + 1 ≤ 0xFFFF by omega, nofun⟩
  | string => rcases hg with hg | hg <;> exact absurd hg (by decide)
  | wstring => rcases hg with hg | hg <;> exact absurd hg (by decide)

/-- One byte, the tag of an array: the call does not end. -/
theorem not_endsOrderly_boolArray :
    (filled dataTypeBoolArray 1).msg.dataLength ≤ 0xFFFF ∧
      (∀ fuel, debugMessagePrint .little noFloats (fun _ => zeroHeap) fuel
        (filled dataTypeBoolArray 1) = none) ∧
      ¬ EndsOrderly .little noFloats (fun _ => zeroHeap) (filled dataTypeBoolArray 1) := by
  have hstuck (fuel : Nat) : debugMessagePrint .little noFloats (fun _ => zeroHeap) fuel
      (filled dataTypeBoolArray 1) = none := by
    unfold debugMessagePrint loop
    rw [whileLoop_stuck (by decide), Option.map_none]
    intro i
    exact printElement_of_array (by decide) (show dataTypeBoolArray ∈ arrayTypes by decide)
  refine ⟨by decide, hstuck, fun h => ?_⟩
  obtain ⟨fuel, x, hx, -⟩ := h.ends
  rw [hstuck fuel] at hx
  cases hx

end Console

end Kcmsg
