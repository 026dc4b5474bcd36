import Kcmsg.Message.PrintOrder

/-!
# What a message is for

A message is a queue of values with a bound on its size: `ValueQueue` holds the values that wait to
be read and the size of all that were put. A put is refused when its value would not fit, a get of
another kind than that of the first value ends the program, and so does a get when nothing waits.

The message does what the queue does, call by call (`refines_queue`), for every caller that reads
no value its getter does not understand (`AllReadable`). What carries the run is `Shows`: the
values that wait are laid out between the two cursors, and the block is zero behind them, so that
the tag of a getter is never there by accident.
-/

namespace Kcmsg

/-- Values that wait to be read, first come first, and the length of the message. -/
structure ValueQueue where
  length : Nat
  unread : List Value

namespace ValueQueue

def start : ValueQueue := ⟨26, []⟩

/-- A call on the queue; none where it does not return. -/
def step (q : ValueQueue) : MessageCall → Option (Reply × ValueQueue)
  | .put v =>
      if q.length + v.size ≤ maxMsgData then
        some (.done, ⟨q.length + v.size + v.gap, q.unread ++ [v]⟩)
      else some (.exception Message.exceededMaximum, q)
  | .get getter _ =>
      match q.unread with
      | [] => none
      | v :: rest => if getter = v.getter then some (.value v.decoded, ⟨q.length, rest⟩) else none
  | .getDataType =>
      match q.unread with
      | [] => if q.length < maxMsgData then some (.dataType 0, q) else none
      | v :: _ => some (.dataType v.tag, q)

def runAll (q : ValueQueue) : List MessageCall → Option (List Reply × ValueQueue)
  | [] => some ([], q)
  | c :: cs => (q.step c).bind fun r =>
      (runAll r.2 cs).map fun rs => (r.1 :: rs.1, rs.2)

/-- A get of the kind of the first value finds a value that it understands, and the memory to
return it in. -/
def Readable (host : ByteOrder) (q : ValueQueue) : MessageCall → Prop
  | .get getter heap =>
      ∀ v rest, q.unread = v :: rest → getter = v.getter → v.Readable host ∧ heap.Serves
  | _ => True

def AllReadable (host : ByteOrder) (q : ValueQueue) : List MessageCall → Prop
  | [] => True
  | c :: cs => q.Readable host c ∧ ∀ r ∈ q.step c, AllReadable host r.2 cs

end ValueQueue

/-! ## Getters of another kind -/

instance (tag : UInt8) : DecidablePred (Getter.HasTag tag)
  | .scalar k => inferInstanceAs (Decidable (tag = k.tag))
  | .string => inferInstanceAs (Decidable (_ ∨ _))
  | .wstring => inferInstanceAs (Decidable (_ ∨ _))

/-- The tag of a scalar is none of the four tags of strings. -/
theorem ScalarKind.not_hasTag_string {g : Getter} {k : ScalarKind}
    (hg : g = .string ∨ g = .wstring) : ¬ g.HasTag k.tag := by
  have hother := k.tag_lt_string_or_gt
  intro h
  rcases hg with rfl | rfl <;> rcases h with h | h <;>
    (rw [h] at hother; exact absurd hother (by decide))

/-- A byte is a tag of one getter at most. -/
theorem Getter.hasTag_unique {g g' : Getter} {tag : UInt8} (h : g.HasTag tag)
    (h' : g'.HasTag tag) : g = g' := by
  cases g with
  | scalar k =>
      obtain rfl : tag = k.tag := h
      cases g' with
      | scalar l => exact congrArg Getter.scalar (ScalarKind.tag_inj h')
      | string => exact absurd h' (ScalarKind.not_hasTag_string (.inl rfl))
      | wstring => exact absurd h' (ScalarKind.not_hasTag_string (.inr rfl))
  | string =>
      cases g' with
      | scalar l =>
          obtain rfl : tag = l.tag := h'
          exact absurd h (ScalarKind.not_hasTag_string (.inl rfl))
      | string => rfl
      | wstring =>
          rcases h with rfl | rfl <;> exact absurd h' (by decide)
  | wstring =>
      cases g' with
      | scalar l =>
          obtain rfl : tag = l.tag := h'
          exact absurd h (ScalarKind.not_hasTag_string (.inr rfl))
      | string =>
          rcases h with rfl | rfl <;> exact absurd h' (by decide)
      | wstring => rfl

/-- No getter takes a zero byte. -/
theorem Getter.not_hasTag_zero (g : Getter) : ¬ g.HasTag 0 := by
  cases g with
  | scalar k => cases k <;> decide
  | string => decide
  | wstring => decide

section Rejected

variable {host : ByteOrder} {heap : Heap} {g : Getter} {m : Message}

/-- A getter that does not take the tag at the cursor fails its assertion. -/
theorem Getter.run_of_not_hasTag (hroom : m.offset + 1 ≤ maxMsgData)
    (h : ¬ g.HasTag (m.data m.offset)) : (g.get host heap).run m = .aborts := by
  cases g with
  | scalar k => exact run_scalar_of_ne hroom h
  | string => exact Program.run_bind_aborts _ (Message.run_getString_of_not h hroom)
  | wstring => exact Program.run_bind_aborts _ (Message.run_getWString_of_not h hroom)

/-- Outside the block every getter faults. -/
theorem Getter.run_outside (hroom : maxMsgData < m.offset + 1) :
    (g.get host heap).run m = .faults := by
  have hlength (k : StringKind) : (Message.getStringLength k).run m = .faults :=
    Program.run_bind_faults _ (Message.run_readChunk_of_gt hroom)
  cases g with
  | scalar k => exact run_scalar_of_faults (Message.run_getElement_outside hroom)
  | string =>
      exact Program.run_bind_faults _ (Message.run_getString_of_faults (hlength .string))
  | wstring =>
      refine Program.run_bind_faults _ ?_
      exact Program.run_bind_faults _ (Program.run_bind_faults _ (hlength .wstring))

end Rejected

/-! ## The message shows the queue -/

namespace ValueQueue

/-- The values that wait stand between the cursors, and behind them the block is zero. -/
structure Shows (host : ByteOrder) (q : ValueQueue) (m : Message) : Prop where
  writable : m.Writable
  length : m.dataLength = q.length
  lower : 26 ≤ m.offset
  laid : Laid host m.data m.offset q.unread m.dataLength
  zero : ∀ i, m.dataLength ≤ i → m.data i = 0

theorem shows_start (host : ByteOrder) (hdr : MessageHeader) :
    start.Shows host (Message.new hdr) where
  writable := PutRun.writable_fresh hdr
  length := rfl
  lower := Nat.le_refl 26
  laid := rfl
  zero i hi := by
    have hbehind : messageLengthOffset + 2 ≤ i := hi
    show Mem.store (fun _ => 0) messageLengthOffset _ i = 0
    rw [Mem.store_of_ge (by rw [length_leBytes]; exact hbehind)]

namespace Shows

variable {host : ByteOrder} {q : ValueQueue} {m : Message}

/-- A value that is put is laid out behind the others. -/
theorem put (h : q.Shows host m) {v : Value} (hfit : m.dataLength + v.size ≤ maxMsgData) :
    Shows host ⟨q.length + v.size + v.gap, q.unread ++ [v]⟩ (m.place host v) := by
  have hpast : 26 ≤ m.dataLength := h.writable.past_length
  refine ⟨h.writable.place hfit host, ?_, h.lower, ?_, ?_⟩
  · rw [Message.place_dataLength, h.length]
  · refine Laid.concat (h.laid.frame fun i hp hq => ?_) (Message.place_load hpast) hfit
    exact Message.place_data_of_outside (.inr (Nat.le_trans h.lower hp)) (.inl hq)
  · intro i hi
    rw [Message.place_dataLength] at hi
    have houtside : messageLengthOffset + 2 ≤ i := by
      show 26 ≤ i
      omega
    rw [Message.place_data_of_outside (.inr houtside) (.inr (by omega))]
    exact h.zero i (by omega)

/-- The first value that waits starts at the cursor. -/
theorem first (h : q.Shows host m) {v : Value} {rest : List Value} (hq : q.unread = v :: rest) :
    m.data.load m.offset v.size = v.encode host ∧ m.offset + v.size ≤ maxMsgData ∧
      Laid host m.data (m.offset + v.size + v.gap) rest m.dataLength := by
  have hlaid := h.laid
  rw [hq] at hlaid
  exact hlaid

theorem tag_first (h : q.Shows host m) {v : Value} {rest : List Value}
    (hq : q.unread = v :: rest) : m.data m.offset = v.tag ∧ m.offset + 1 ≤ maxMsgData := by
  obtain ⟨hload, hroom, -⟩ := h.first hq
  have hpos := v.size_pos
  exact ⟨(Value.parts hload).1, by omega⟩

/-- When nothing waits the cursors have met, on a zero. -/
theorem tag_empty (h : q.Shows host m) (hq : q.unread = []) :
    m.offset = m.dataLength ∧ m.data m.offset = 0 := by
  have hlaid := h.laid
  rw [hq] at hlaid
  have hmeet : m.offset = m.dataLength := hlaid
  exact ⟨hmeet, h.zero _ (Nat.le_of_eq hmeet.symm)⟩

/-- **The step lemma**: the message replies as the queue does, and shows it afterwards. -/
theorem step (h : q.Shows host m) {c : MessageCall} (hc : q.Readable host c) :
    (c.step host m = none ∧ q.step c = none) ∨
      ∃ reply m' q', c.step host m = some (reply, m') ∧ q.step c = some (reply, q') ∧
        q'.Shows host m' := by
  cases c with
  | put v =>
      by_cases hfit : m.dataLength + v.size ≤ maxMsgData
      · have hfit' : q.length + v.size ≤ maxMsgData := h.length ▸ hfit
        exact .inr ⟨_, _, _, MessageCall.step_put_of_fits h.writable hfit, if_pos hfit', h.put hfit⟩
      · have hfit' : ¬ q.length + v.size ≤ maxMsgData := h.length ▸ hfit
        exact .inr ⟨_, _, _, MessageCall.step_put_of_not_fits h.writable hfit, if_neg hfit', h⟩
  | get getter heap =>
      cases hq : q.unread with
      | nil =>
          obtain ⟨-, hzero⟩ := h.tag_empty hq
          refine .inl ⟨?_, by rw [ValueQueue.step, hq]⟩
          by_cases hroom : m.offset + 1 ≤ maxMsgData
          · rw [MessageCall.step, Getter.run_of_not_hasTag hroom (hzero ▸ getter.not_hasTag_zero)]
            rfl
          · rw [MessageCall.step, Getter.run_outside (by omega)]
            rfl
      | cons v rest =>
          obtain ⟨htag, hroom⟩ := h.tag_first hq
          by_cases hkind : getter = v.getter
          · obtain ⟨hreadable, hheap⟩ := hc v rest hq hkind
            obtain ⟨hload, hinside, hlaid⟩ := h.first hq
            have hget := Value.run_get hreadable hload hinside hheap
            rw [Value.gap_of_readable hreadable, Nat.add_zero] at hlaid
            refine .inr ⟨.value v.decoded, { m with offset := m.offset + v.size }, ⟨q.length, rest⟩,
              ?_, ?_, ?_⟩
            · rw [MessageCall.step, hkind, hget]
              rfl
            · rw [ValueQueue.step, hq]
              exact if_pos hkind
            · exact ⟨⟨h.writable.past_length, h.writable.bounded⟩, h.length,
                Nat.le_trans h.lower (Nat.le_add_right _ _), hlaid, h.zero⟩
          · have hother : ¬ getter.HasTag (m.data m.offset) := fun htags =>
              hkind (Getter.hasTag_unique (htag ▸ htags) v.getter_hasTag)
            refine .inl ⟨?_, ?_⟩
            · rw [MessageCall.step, Getter.run_of_not_hasTag hroom hother]
              rfl
            · rw [ValueQueue.step, hq]
              exact if_neg hkind
  | getDataType =>
      cases hq : q.unread with
      | nil =>
          obtain ⟨hmeet, hzero⟩ := h.tag_empty hq
          by_cases hroom : q.length < maxMsgData
          · have hle : m.offset + 1 ≤ maxMsgData := by
              rw [hmeet, h.length]
              exact hroom
            have hrun := Message.run_getDataType hle hzero
            refine .inr ⟨.dataType 0, m, q, ?_, ?_, h⟩
            · rw [MessageCall.step, hrun]
              rfl
            · rw [ValueQueue.step, hq]
              exact if_pos hroom
          · have hfaults : Message.getDataType.run m = .faults := by
              have hcopy : (Message.memcpyFrom m.offset 1).run m = .faults :=
                if_neg (by rw [hmeet, h.length]; omega)
              rw [Message.getDataType, Program.run_get_bind]
              exact Program.run_bind_faults _ hcopy
            refine .inl ⟨?_, ?_⟩
            · rw [MessageCall.step, hfaults]
              rfl
            · rw [ValueQueue.step, hq]
              exact if_neg hroom
      | cons v rest =>
          obtain ⟨htag, hroom⟩ := h.tag_first hq
          refine .inr ⟨.dataType v.tag, m, q, ?_, by rw [ValueQueue.step, hq], h⟩
          rw [MessageCall.step, Message.run_getDataType hroom htag]
          rfl

/-- The run lemma. -/
theorem runAll (h : q.Shows host m) {calls : List MessageCall}
    (hcalls : q.AllReadable host calls) :
    (MessageCall.runAll host m calls = none ∧ q.runAll calls = none) ∨
      ∃ replies m' q', MessageCall.runAll host m calls = some (replies, m') ∧
        q.runAll calls = some (replies, q') ∧ q'.Shows host m' := by
  induction calls generalizing q m with
  | nil => exact .inr ⟨[], m, q, rfl, rfl, h⟩
  | cons c cs ih =>
      obtain ⟨hc, hrest⟩ := hcalls
      rcases h.step hc with ⟨hm, hq⟩ | ⟨reply, m₁, q₁, hm, hq, h₁⟩
      · exact .inl ⟨by rw [MessageCall.runAll, hm]; rfl, by rw [ValueQueue.runAll, hq]; rfl⟩
      · rw [MessageCall.runAll, ValueQueue.runAll, hm, hq, Option.bind_some, Option.bind_some]
        rcases ih h₁ (hrest (reply, q₁) hq) with ⟨hm', hq'⟩ | ⟨replies, m', q', hm', hq', h'⟩
        · exact .inl ⟨by rw [hm']; rfl, by rw [hq']; rfl⟩
        · exact .inr ⟨reply :: replies, m', q', by rw [hm']; rfl, by rw [hq']; rfl, h'⟩

end Shows

/-- **A message is a queue of values.** Every caller that reads no value its getter does not
understand gets from a fresh message what it would get from the queue: the same replies to the same
calls, an end of the program at the same call, and the same length. -/
theorem refines_queue (host : ByteOrder) (hdr : MessageHeader) {calls : List MessageCall}
    (hcalls : start.AllReadable host calls) :
    (MessageCall.runAll host (Message.new hdr) calls).map (fun r => (r.1, r.2.dataLength)) =
      (start.runAll calls).map fun r => (r.1, r.2.length) := by
  rcases (shows_start host hdr).runAll hcalls with ⟨hm, hq⟩ | ⟨replies, m', q', hm, hq, h⟩
  · rw [hm, hq]
    rfl
  · rw [hm, hq, Option.map_some, Option.map_some, h.length]

/-- A string, its tag, a get of another kind than the first, and one of its own. -/
def sampleQueueCalls : List MessageCall :=
  [.put (.string ⟨[0x61, 0x62], by decide⟩), .put (.scalar (.bool true)), .getDataType,
    .get .string zeroHeap, .get (.scalar .bool) zeroHeap, .getDataType]

theorem refines_queue_sample :
    (MessageCall.runAll .little (Message.new default) sampleQueueCalls).map
        (fun r => (r.1, r.2.dataLength)) =
      some ([.done, .done, .dataType dataTypeString1, .value (.string [0x61, 0x62]),
        .value (.scalar (.bool true)), .dataType 0], 32) := by
  have hcalls : start.AllReadable .little sampleQueueCalls := by
    refine ⟨trivial, ?_⟩
    rintro _ ⟨⟩
    refine ⟨trivial, ?_⟩
    rintro _ ⟨⟩
    refine ⟨trivial, ?_⟩
    rintro _ ⟨⟩
    refine ⟨?_, ?_⟩
    · rintro _ _ ⟨⟩ -
      exact ⟨⟨by decide, by decide⟩, zeroHeap_serves⟩
    rintro _ ⟨⟩
    refine ⟨?_, ?_⟩
    · rintro _ _ ⟨⟩ -
      exact ⟨show ScalarKind.bool ≠ .long by decide, zeroHeap_serves⟩
    rintro _ ⟨⟩
    exact ⟨trivial, fun _ _ => trivial⟩
  exact refines_queue .little default hcalls

end ValueQueue

end Kcmsg
