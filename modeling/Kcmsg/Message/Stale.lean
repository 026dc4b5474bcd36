import Kcmsg.Message.ReadBack

/-!
# Stale memory in a decoded string

`getString` clears all of its block before it fills it, so a terminator of its own stands behind
the characters. `getWString` clears one byte for each character and one more: what it takes for a
terminator is a character of which at most one byte has been set, and where that is not zero the
assignment goes on into whatever lies behind the block.

`DependsOnMessage` asks that no byte is looked at that the getter has not set and that two heaps
make no difference. A wide string has that property only if it holds a zero character itself
(`DependsOnMessage.iff_zero`), so no wide string without one survives a round trip on every heap
(`WideRoundTrip.never_wideRoundTrip`). The heap that shows both is `dirtyHeap`.
-/

namespace Kcmsg

/-! ## A dirty heap -/

/-- Every block is full of `0xFF`, and nothing can be read behind it. -/
def dirtyHeap : Heap := fun n =>
  some ⟨List.replicate n 0xFF, Nat.le_of_eq List.length_replicate.symm⟩

theorem dirtyHeap_serves : dirtyHeap.Serves := fun _ _ => rfl

namespace Message

/-- One character is left behind the payload; without a payload its first byte has been cleared. -/
theorem behindWide_dirty (n : Nat) : behindWide (List.replicate ((n + 1) * 4) 0xFF) n =
    [if n = 0 then 0 else 0xFF, 0xFF, 0xFF, 0xFF] := by
  cases n with
  | zero => rfl
  | succ n =>
      have hbehind : (n + 1 + 1) * 4 - (n + 1 + 1) - ((n + 1) * 4 - (n + 1 + 1)) = 4 := by omega
      rw [behindWide, List.drop_append, List.drop_replicate, List.drop_replicate,
        List.drop_replicate, List.length_replicate, hbehind,
        Nat.sub_eq_zero_of_le (show n + 1 + 1 ≤ (n + 1) * 4 by omega)]
      rfl

theorem wideChars_dirty (host : ByteOrder) (n : Nat) :
    ∃ c, c ≠ 0 ∧ wideChars host (behindWide (List.replicate ((n + 1) * 4) 0xFF) n) = [c] := by
  refine ⟨nativeValue host 32 [if n = 0 then 0 else 0xFF, 0xFF, 0xFF, 0xFF], ?_, ?_⟩
  · by_cases hn : n = 0
    · rw [if_pos hn]
      cases host <;> decide
    · rw [if_neg hn]
      cases host <;> decide
  · rw [behindWide_dirty]
    rfl

/-- Without a zero character of its own the string runs off the end of a dirty block. -/
theorem run_getWString_dirty {host : ByteOrder} {m : Message} {n : Nat}
    (h : m.FieldFits .wstring n) (hnul : 0 ∉ wideChars host (m.payload .wstring)) :
    (getWString dirtyHeap host).run m = .faults := by
  obtain ⟨c, hc, hbehind⟩ := wideChars_dirty host n
  have hnone : untilStop 0 (wideChars host (m.payload .wstring) ++
      wideChars host (behindWide (List.replicate ((n + 1) * 4) 0xFF) n)) = none := by
    rw [hbehind, untilStop_eq_none_iff, List.mem_append, List.mem_singleton]
    rintro (hmem | hzero)
    · exact hnul hmem
    · exact hc hzero.symm
  rw [run_getWString h rfl, hnone, Program.run_orFault_none]

/-! ## What a decoded string depends on -/

/-- The getter up to the assignment. -/
def temporary (heap : Heap) : StringKind → Program Message Block
  | .string => stringTemporary heap
  | .wstring => wstringTemporary heap

/-- How many bytes of its block the assignment looks at. -/
def bytesLookedAt (host : ByteOrder) : StringKind → Block → Nat
  | .string, block => reach 0 block.bytes
  | .wstring, block => reach 0 (wideChars host block.bytes) * 4

end Message

/-- On every heap that serves the request, only bytes of the block that have been set are looked
at, and the outcome is the same on any two of them. -/
structure DependsOnMessage (host : ByteOrder) (k : StringKind) (m : Message) : Prop where
  looksAtSet : ∀ heap : Heap, (heap (m.request k)).isSome → ∀ block m',
    (Message.temporary heap k).run m = .returns block m' →
    Message.bytesLookedAt host k block ≤ block.written
  same : ∀ heap heap' : Heap, (heap (m.request k)).isSome → (heap' (m.request k)).isSome →
    (k.getter.get host heap).run m = (k.getter.get host heap').run m

namespace DependsOnMessage

variable {host : ByteOrder} {m : Message} {n : Nat}

/-- `getString` sets all of its block up to the terminator. -/
theorem of_string (h : m.FieldFits .string n) : DependsOnMessage host .string m := by
  have hrequest : m.request .string = n + 1 := h.request_eq.trans (Nat.mul_one _)
  constructor
  · intro heap hheap block m' hrun
    rw [hrequest] at hheap
    obtain ⟨bytes, hbytes⟩ := Option.isSome_iff_exists.mp hheap
    obtain ⟨set, hset, hblock, hwritten⟩ := Message.stringTemporary_of_fits h hbytes
    obtain ⟨rfl, -⟩ := Outcome.returns.inj (hset.symm.trans hrun)
    have hlength : (m.payload .string).length = n := h.length_payload.trans (Nat.mul_one n)
    have hterminator : 0 ∈ m.payload .string ++ [0] :=
      List.mem_append_right _ List.mem_cons_self
    have hreach := reach_append_le hterminator (bytes.val.drop (n + 1))
    show reach 0 set.bytes ≤ set.written
    rw [hblock, hwritten, List.append_cons]
    simpa [hlength] using hreach
  · intro heap heap' hheap hheap'
    rw [hrequest] at hheap hheap'
    show (Message.getString heap >>= _).run m = (Message.getString heap' >>= _).run m
    rw [Program.run_bind_returns _ (Message.run_getString h hheap),
      Program.run_bind_returns _ (Message.run_getString h hheap')]

theorem length_wideChars_payload (host : ByteOrder) (h : m.FieldFits .wstring n) :
    (wideChars host (m.payload .wstring)).length = n :=
  length_wideChars host n h.length_payload

/-- A zero character of the message's own stops the assignment inside the payload. -/
theorem of_zero (h : m.FieldFits .wstring n)
    (hzero : 0 ∈ wideChars host (m.payload .wstring)) : DependsOnMessage host .wstring m := by
  have hlength := length_wideChars_payload host h
  constructor
  · intro heap hheap block m' hrun
    rw [h.request_eq] at hheap
    obtain ⟨bytes, hsome⟩ := Option.isSome_iff_exists.mp hheap
    obtain ⟨set, hset, hblock, hwritten⟩ := Message.wstringTemporary_of_fits h hsome
    obtain ⟨rfl, -⟩ := Outcome.returns.inj (hset.symm.trans hrun)
    have hreach := reach_append_le hzero
      (wideChars host (Message.behindWide bytes.val n))
    show reach 0 (wideChars host set.bytes) * 4 ≤ set.written
    rw [hblock, hwritten, wideChars_append host n h.length_payload]
    omega
  · intro heap heap' hheap hheap'
    rw [h.request_eq] at hheap hheap'
    obtain ⟨bytes, hsome⟩ := Option.isSome_iff_exists.mp hheap
    obtain ⟨bytes', hsome'⟩ := Option.isSome_iff_exists.mp hheap'
    have hrun : (Message.getWString heap host).run m = _ := Message.run_getWString h hsome
    have hrun' : (Message.getWString heap' host).run m = _ := Message.run_getWString h hsome'
    rw [untilStop_of_mem hzero] at hrun hrun'
    show (Message.getWString heap host >>= _).run m = (Message.getWString heap' host >>= _).run m
    rw [Program.run_bind_returns _ hrun, Program.run_bind_returns _ hrun']

/-- On the dirty heap a wide string without a zero is followed by a character that was not set. -/
theorem zero_of_dependsOnMessage (h : m.FieldFits .wstring n)
    (hdepends : DependsOnMessage host .wstring m) :
    0 ∈ wideChars host (m.payload .wstring) := by
  by_contra hnul
  have hheap : dirtyHeap ((n + 1) * 4) = some ⟨List.replicate ((n + 1) * 4) 0xFF, _⟩ := rfl
  obtain ⟨set, hset, hblock, hwritten⟩ := Message.wstringTemporary_of_fits h hheap
  obtain ⟨c, hc, hbehind⟩ := Message.wideChars_dirty host n
  have hlooked : reach 0 (wideChars host set.bytes) * 4 ≤ set.written :=
    hdepends.looksAtSet dirtyHeap rfl set _ hset
  rw [hblock, hwritten, wideChars_append host n h.length_payload, reach_append_of_notMem hnul,
    hbehind, length_wideChars_payload host h] at hlooked
  have hpos : 0 < reach 0 [c] := reach_cons_pos c []
  omega

/-- **Decoded strings depend on the message alone** if they are strings, or wide strings with a
zero character in them: for every field that lies in the block and every heap that serves it. -/
theorem iff_zero {k : StringKind} (h : m.FieldFits k n) :
    DependsOnMessage host k m ↔ (k = .wstring → 0 ∈ wideChars host (m.payload k)) := by
  cases k with
  | string => exact iff_of_true (of_string h) nofun
  | wstring =>
      constructor
      · intro hdepends _
        exact zero_of_dependsOnMessage h hdepends
      · intro hzero
        exact of_zero h (hzero rfl)

end DependsOnMessage

/-! ## Wide strings that were put -/

namespace Message

section WideField

variable {host : ByteOrder} {m : Message} {w : StdWString} {n : Nat}

theorem wstring_field
    (hload : m.data.load m.offset (Value.wstring w).size = (Value.wstring w).encode host) :
    m.Announces .wstring ∧
      m.payloadStart .wstring = m.offset + 1 + (Value.wstring w).prefixWidth :=
  field_of_tag (k := .wstring) (l := w.chars.length) (Value.parts hload).1

theorem wstring_end
    (hload : m.data.load m.offset (Value.wstring w).size = (Value.wstring w).encode host) :
    m.payloadStart .wstring + w.chars.length * 4 = m.offset + (Value.wstring w).size := by
  rw [(wstring_field hload).2, Value.size, Value.payloadWidth]
  omega

/-- The length comes back from one signed byte up to 127, and from two bytes always. -/
theorem signedLength_wstring_iff
    (hload : m.data.load m.offset (Value.wstring w).size = (Value.wstring w).encode host)
    (hroom : m.offset + (Value.wstring w).size ≤ maxMsgData) :
    m.signedLength .wstring = n ↔
      n = w.chars.length ∧ (w.chars.length ≤ 127 ∨ 256 ≤ w.chars.length) := by
  have hlt : w.chars.length < 32768 := by
    simp only [Value.size, Value.payloadWidth, maxMsgData] at hroom
    omega
  obtain ⟨htag, hprefix, -⟩ := Value.parts hload
  rw [signedLength_of_tag htag hprefix (by omega)]
  by_cases hlong : 255 < w.chars.length
  · rw [if_pos hlong, toInt_ofNat_eq_iff (show _ < 2 ^ 16 by omega)]
    omega
  · have hvalue : (UInt8.ofNat w.chars.length).toNat = w.chars.length := by
      rw [UInt8.toNat_ofNat']
      omega
    rw [if_neg hlong, hvalue, toInt_ofNat_eq_iff (show _ < 2 ^ 8 by omega)]
    omega

theorem fieldFits_wstring_iff
    (hload : m.data.load m.offset (Value.wstring w).size = (Value.wstring w).encode host)
    (hroom : m.offset + (Value.wstring w).size ≤ maxMsgData) :
    m.FieldFits .wstring n ↔
      n = w.chars.length ∧ (w.chars.length ≤ 127 ∨ 256 ≤ w.chars.length) := by
  rw [← signedLength_wstring_iff hload hroom]
  constructor
  · exact FieldFits.length
  · intro hlength
    obtain ⟨rfl, -⟩ := (signedLength_wstring_iff hload hroom).mp hlength
    refine ⟨(wstring_field hload).1, hlength, ?_⟩
    rwa [StringKind.charSize, wstring_end hload]

theorem wideChars_payload
    (hload : m.data.load m.offset (Value.wstring w).size = (Value.wstring w).encode host)
    (hfits : m.FieldFits .wstring w.chars.length) :
    wideChars host (m.payload .wstring) = w.chars := by
  have hpayload : m.payload .wstring = wideBytes host w.chars := by
    rw [hfits.payload_eq, (wstring_field hload).2]
    exact (Value.parts hload).2.2
  rw [hpayload, wideChars_wideBytes]

/-- **No wide string without a zero character comes back from a dirty heap.** -/
theorem not_returns_dirty (hnul : 0 ∉ w.chars)
    (hload : m.data.load m.offset (Value.wstring w).size = (Value.wstring w).encode host)
    (hroom : m.offset + (Value.wstring w).size ≤ maxMsgData) {s : List (BitVec 32)}
    {m' : Message} : (getWString dirtyHeap host).run m ≠ .returns s m' := by
  intro hreturns
  obtain ⟨n, -, hfits, -⟩ := getWString_returned hreturns
  obtain ⟨rfl, -⟩ := (fieldFits_wstring_iff hload hroom).mp hfits
  have hrun := run_getWString_dirty hfits (by rwa [wideChars_payload hload hfits])
  exact absurd (hrun.symm.trans hreturns) nofun

end WideField

end Message

namespace DependsOnMessage

/-- A wide string put on a fresh message stands at its cursor. -/
theorem of_putWString {w : StdWString} {m : Message}
    (hput : (Message.putWString .little w).run (Message.new default) = .returns () m)
    (hshort : w.chars.length ≤ 127) :
    m.FieldFits .wstring w.chars.length ∧ wideChars .little (m.payload .wstring) = w.chars := by
  have hpast : messageLengthOffset + 2 ≤ (Message.new default).dataLength := Nat.le_refl 26
  obtain ⟨hm, hfit, rfl⟩ := Value.put_returned (v := .wstring w) hpast hput
  have hload := @Message.place_load .little (.wstring w) _ hm.past_length
  have hfits := (Message.fieldFits_wstring_iff hload hfit).mpr ⟨rfl, .inl hshort⟩
  exact ⟨hfits, Message.wideChars_payload hload hfits⟩

/-- A letter and a zero. -/
theorem iff_zero_sample :
    ∃ m, (Message.putWString .little ⟨[0x61, 0], by decide⟩).run (Message.new default) =
        .returns () m ∧
      m.FieldFits .wstring 2 ∧ DependsOnMessage .little .wstring m := by
  have hput := Message.run_putWString_fresh (w := ⟨[0x61, 0], by decide⟩) (by decide)
  obtain ⟨hfits, hchars⟩ := of_putWString hput (by decide)
  refine ⟨_, hput, hfits, (iff_zero hfits).mpr fun _ => ?_⟩
  rw [hchars]
  decide

/-- A letter. -/
theorem not_oneCharacter :
    ∃ m, (Message.putWString .little ⟨[0x61], by decide⟩).run (Message.new default) =
        .returns () m ∧
      m.FieldFits .wstring 1 ∧ ¬ DependsOnMessage .little .wstring m := by
  have hput := Message.run_putWString_fresh (w := ⟨[0x61], by decide⟩) (by decide)
  obtain ⟨hfits, hchars⟩ := of_putWString hput (by decide)
  refine ⟨_, hput, hfits, fun hdepends => ?_⟩
  have hzero := zero_of_dependsOnMessage hfits hdepends
  rw [hchars] at hzero
  exact absurd hzero (by decide)

end DependsOnMessage

/-! ## The round trip of a wide string -/

/-- `w` has been put on a fresh message, which made it `m₁`, and `v` behind it, which made it `m₂`:
the getters return both, and between the two the cursor is where `v` begins. -/
structure WideRoundTrip (host : ByteOrder) (heap : Heap) (w : StdWString) (v : Value)
    (m₁ m₂ : Message) : Prop where
  returned : (Message.getWString heap host).run m₂ =
    .returns w.chars { m₂ with offset := m₁.dataLength }
  next : ∃ m', (v.getter.get host heap).run { m₂ with offset := m₁.dataLength } =
    .returns v.decoded m'

namespace WideRoundTrip

variable {host : ByteOrder} {hdr : MessageHeader} {w : StdWString} {v : Value} {m₁ m₂ : Message}

/-- On the dirty heap `getWString` does not return. -/
theorem not_dirtyHeap (hnul : 0 ∉ w.chars)
    (hput : (Message.putWString host w).run (Message.new hdr) = .returns () m₁)
    (hnext : (v.put host).run m₁ = .returns () m₂) :
    ¬ WideRoundTrip host dirtyHeap w v m₁ m₂ := by
  intro h
  have hpast : messageLengthOffset + 2 ≤ (Message.new hdr).dataLength := Nat.le_refl 26
  obtain ⟨hm, hfit, rfl⟩ := Value.put_returned (v := .wstring w) hpast hput
  have hplaced := hm.place hfit host
  obtain ⟨-, hfit', rfl⟩ := Value.put_returned hplaced.past_length hnext
  have hlater : (PutRun.mk ((Message.new hdr).place host (.wstring w)) []).putAll host [v] =
      some ⟨((Message.new hdr).place host (.wstring w)).place host v, [v]⟩ := by
    rw [PutRun.putAll_eq hplaced]
    exact congrArg some (PutRun.after_of_fits hfit')
  obtain ⟨hload, -⟩ := Value.load_of_putAll hm hfit hlater
  exact Message.not_returns_dirty hnul hload hfit h.returned

/-- **Wide strings do not round-trip**: of no wide string that `putWString` accepts does the
terminator depend on the message, so there is a heap on which it is not read back. -/
theorem never_wideRoundTrip (hnul : 0 ∉ w.chars)
    (hput : (Message.putWString host w).run (Message.new hdr) = .returns () m₁)
    (hnext : (v.put host).run m₁ = .returns () m₂) :
    ¬ ∀ heap : Heap, heap.Serves → WideRoundTrip host heap w v m₁ m₂ := by
  intro h
  exact not_dirtyHeap hnul hput hnext (h dirtyHeap dirtyHeap_serves)

/-- The empty wide string and a number. -/
theorem never_wideRoundTrip_sample :
    ∃ m₁ m₂, (Message.putWString .little ⟨[], by decide⟩).run (Message.new default) =
        .returns () m₁ ∧
      ((Value.scalar (.int 7)).put .little).run m₁ = .returns () m₂ ∧
      ¬ ∀ heap : Heap, heap.Serves →
        WideRoundTrip .little heap ⟨[], by decide⟩ (.scalar (.int 7)) m₁ m₂ := by
  have hm : (Message.new default).Writable := PutRun.writable_fresh default
  have hfit : (Message.new default).dataLength + (Value.wstring ⟨[], by decide⟩).size ≤
      maxMsgData := by decide
  have hput := Message.run_putWString_fresh hfit
  have hnext := Value.run_put_of_fits .little (v := .scalar (.int 7)) (hm.place hfit .little)
    (by decide)
  exact ⟨_, _, hput, hnext, never_wideRoundTrip List.not_mem_nil hput hnext⟩

/-- One letter and a flag. -/
theorem not_oneLetter :
    ∃ m₁ m₂, (Message.putWString .little ⟨[0x61], by decide⟩).run (Message.new default) =
        .returns () m₁ ∧
      ((Value.scalar (.bool true)).put .little).run m₁ = .returns () m₂ ∧
      ¬ WideRoundTrip .little dirtyHeap ⟨[0x61], by decide⟩ (.scalar (.bool true)) m₁ m₂ := by
  have hm : (Message.new default).Writable := PutRun.writable_fresh default
  have hfit : (Message.new default).dataLength + (Value.wstring ⟨[0x61], by decide⟩).size ≤
      maxMsgData := by decide
  have hput := Message.run_putWString_fresh hfit
  have hnext := Value.run_put_of_fits .little (v := .scalar (.bool true)) (hm.place hfit .little)
    (by decide)
  exact ⟨_, _, hput, hnext, not_dirtyHeap (by decide) hput hnext⟩

end WideRoundTrip

end Kcmsg
