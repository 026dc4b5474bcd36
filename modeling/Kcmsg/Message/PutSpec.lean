import Kcmsg.Message.Wire

/-!
# What a put does

`Value.run_put` is the one lemma about the puts: on a writable message, a put whose encoding fits
leaves `place host v m`, the message with the encoding appended and its length stored, and a put
whose encoding does not fit throws and leaves the message alone. `Writable` is what the puts
themselves maintain: `dataLength` is past the length field and, even after the extra advance of a
long wide string, at most twice the size of the block.
-/

namespace Kcmsg

namespace Message

/-! ## Appending bytes -/

/-- Append `bytes` at `dataLength` and store the new length into the length field. -/
def append (m : Message) (bytes : List UInt8) : Message :=
  { m with
    data := (m.data.store m.dataLength bytes).store messageLengthOffset
      (leBytes 2 (m.dataLength + bytes.length))
    dataLength := m.dataLength + bytes.length }

@[simp] theorem append_dataLength (m : Message) (bytes : List UInt8) :
    (m.append bytes).dataLength = m.dataLength + bytes.length := rfl

/-- Two appends are one: the second covers the length the first stored. -/
theorem append_append {m : Message} (hm : messageLengthOffset + 2 ≤ m.dataLength)
    (as bs : List UInt8) : (m.append as).append bs = m.append (as ++ bs) := by
  have hdata : ((m.append as).append bs).data = (m.append (as ++ bs)).data := by
    show Mem.store (Mem.store (Mem.store (m.data.store m.dataLength as) messageLengthOffset _)
      (m.dataLength + as.length) bs) messageLengthOffset _ = _
    have hbeside : messageLengthOffset + (leBytes 2 (m.dataLength + as.length)).length ≤
        m.dataLength + as.length := by
      rw [length_leBytes]
      omega
    -- the length stored in between is moved out of the way and covered; the two pieces are adjacent
    rw [Mem.store_comm (.inl hbeside), Mem.store_store (by simp), Mem.store_append]
    show Mem.store _ _ (leBytes 2 (m.dataLength + as.length + bs.length)) =
      Mem.store _ _ (leBytes 2 (m.dataLength + (as ++ bs).length))
    rw [List.length_append, Nat.add_assoc]
  have hlength : ((m.append as).append bs).dataLength = (m.append (as ++ bs)).dataLength := by
    simp only [append_dataLength, List.length_append, Nat.add_assoc]
  show Message.mk _ _ _ _ = Message.mk _ _ _ _
  rw [Message.mk.injEq]
  exact ⟨hdata, rfl, hlength, rfl⟩

theorem run_updateDataLength {m : Message} {delta : Nat}
    (h : m.dataLength + delta < 2 ^ 64) :
    (updateDataLength delta).run m = .returns () { m with
      data := m.data.store messageLengthOffset (leBytes 2 (m.dataLength + delta))
      dataLength := m.dataLength + delta } := by
  rw [updateDataLength, Program.run_bind_returns _ (Program.run_modify _ m), Program.run_get_bind,
    run_memcpyTo _ (by rw [length_leBytes]; decide)]
  simp only [sizeT_of_lt h]

theorem run_appendChunk {m : Message} {c : List UInt8}
    (h : m.dataLength + c.length ≤ maxMsgData) :
    (appendChunk c).run m = .returns () (m.append c) := by
  have hlt : m.dataLength + c.length < 2 ^ 64 := Nat.lt_of_le_of_lt h (by decide)
  rw [appendChunk, Program.run_get_bind, Program.run_bind_returns _ (run_memcpyTo m h)]
  exact run_updateDataLength (m := { m with data := m.data.store m.dataLength c }) hlt

/-- Chunk after chunk is one append. By induction on the chunks; the first is singled out
because a put stores the length even when it has nothing else to copy. -/
theorem run_putChunks {m : Message} {c : List UInt8} {cs : List (List UInt8)}
    (hm : messageLengthOffset + 2 ≤ m.dataLength)
    (h : m.dataLength + (c ++ cs.flatten).length ≤ maxMsgData) :
    (putChunks (c :: cs)).run m = .returns () (m.append (c ++ cs.flatten)) := by
  induction cs generalizing m c with
  | nil =>
      rw [List.flatten_nil, List.append_nil] at h ⊢
      rw [putChunks, Program.run_bind_returns _ (run_appendChunk h), putChunks, Program.run_pure]
  | cons d ds ih =>
      simp only [List.flatten_cons, List.length_append] at h
      rw [putChunks, Program.run_bind_returns _ (run_appendChunk (by omega)),
        ih (by rw [append_dataLength]; omega)
          (by simp only [append_dataLength, List.length_append]; omega),
        append_append hm, List.flatten_cons]

/-- The body all puts share, when it tests exactly what it copies. -/
theorem run_putElement {m : Message} {need : Nat} {c : List UInt8} {cs : List (List UInt8)}
    (hm : messageLengthOffset + 2 ≤ m.dataLength) (hlt : m.dataLength + need < 2 ^ 64)
    (hneed : (c ++ cs.flatten).length = need) :
    (putElement need (c :: cs)).run m =
      if m.dataLength + need ≤ maxMsgData then .returns () (m.append (c ++ cs.flatten))
      else .throws exceededMaximum m := by
  rw [putElement, Program.run_get_bind, sizeT_of_lt hlt]
  by_cases hfit : m.dataLength + need ≤ maxMsgData
  · rw [if_pos hfit, if_pos hfit, run_putChunks hm (by rw [hneed]; exact hfit)]
  · rw [if_neg hfit, if_neg hfit, Program.run_throw]

/-! ## The specification of a put -/

/-- What the puts maintain about `dataLength`. -/
structure Writable (m : Message) : Prop where
  past_length : messageLengthOffset + 2 ≤ m.dataLength
  bounded : m.dataLength ≤ 2 * maxMsgData

/-- The message after a successful put of `v`. -/
def place (host : ByteOrder) (v : Value) (m : Message) : Message :=
  { m.append (v.encode host) with dataLength := m.dataLength + v.size + v.gap }

@[simp] theorem place_dataLength (host : ByteOrder) (v : Value) (m : Message) :
    (m.place host v).dataLength = m.dataLength + v.size + v.gap := rfl

theorem place_of_gap_eq_zero {host : ByteOrder} {v : Value} {m : Message} (h : v.gap = 0) :
    m.place host v = m.append (v.encode host) := by
  rw [place, h, Nat.add_zero, append, Value.length_encode]

theorem Writable.place {m : Message} (hm : m.Writable) {v : Value}
    (hfit : m.dataLength + v.size ≤ maxMsgData) (host : ByteOrder) :
    (m.place host v).Writable := by
  have hgap := v.gap_le_size
  have hpast := hm.past_length
  constructor <;> rw [place_dataLength] <;> omega

end Message

namespace Value

open Message

theorem run_put_scalar (host : ByteOrder) (v : ScalarValue) {m : Message} (hm : m.Writable) :
    (v.put host).run m =
      if m.dataLength + (scalar v).size ≤ maxMsgData then .returns () (m.place host (scalar v))
      else .throws exceededMaximum m := by
  have hbound : m.dataLength ≤ 2 * 0xFFFF := hm.bounded
  have hsize_lt := (scalar v).size_lt
  -- every body is `putElement` on the width, the tag and the payload of its kind
  have hput : v.put host = putElement (scalar v).size [[v.kind.tag], v.payload host] := by
    cases v <;> rfl
  have hbytes : [v.kind.tag] ++ [v.payload host].flatten = (scalar v).encode host := by
    simp [encode, tag, lengthPrefix, payload]
  rw [hput, place_of_gap_eq_zero rfl, ← hbytes]
  exact run_putElement hm.past_length (by omega) (hbytes ▸ (scalar v).length_encode host)

theorem run_put_string (host : ByteOrder) (s : StdString) {m : Message} (hm : m.Writable) :
    (putString host s).run m =
      if m.dataLength + (string s).size ≤ maxMsgData then .returns () (m.place host (string s))
      else .throws exceededMaximum m := by
  have hbound : m.dataLength ≤ 2 * 0xFFFF := hm.bounded
  have hmax := s.length_lt
  have hsize_lt := (string s).size_lt
  have hone : sizeT (s.chars.length * 1) = s.chars.length := by
    rw [Nat.mul_one, sizeT_of_lt (by omega)]
  rw [place_of_gap_eq_zero rfl, putString, hone]
  by_cases hlong : s.chars.length > 255
  · have hsize : 1 + 2 + s.chars.length = (string s).size := by
      rw [size, prefixWidth, payloadWidth, if_pos hlong]
      omega
    have hbytes : [dataTypeString2] ++ [leBytes 2 s.chars.length, s.chars].flatten =
        (string s).encode host := by
      simp [encode, tag, lengthPrefix, payload, hlong]
    simp only [if_pos hlong]
    rw [if_neg (by decide), if_pos trivial, hsize, ← hbytes]
    exact run_putElement hm.past_length (by omega) (hbytes ▸ (string s).length_encode host)
  · have hsize : 1 + 1 + s.chars.length = (string s).size := by
      rw [size, prefixWidth, payloadWidth, if_neg hlong]
      omega
    have hbytes : [dataTypeString1] ++ [(host.encode 8 s.chars.length).take 1, s.chars].flatten =
        (string s).encode host := by
      simp [encode, tag, lengthPrefix, payload, hlong]
    simp only [if_neg hlong]
    rw [if_pos trivial, hsize, ← hbytes]
    exact run_putElement hm.past_length (by omega) (hbytes ▸ (string s).length_encode host)

theorem run_put_wstring (host : ByteOrder) (s : StdWString) {m : Message} (hm : m.Writable) :
    (putWString host s).run m =
      if m.dataLength + (wstring s).size ≤ maxMsgData then .returns () (m.place host (wstring s))
      else .throws exceededMaximum m := by
  have hbound : m.dataLength ≤ 2 * 0xFFFF := hm.bounded
  have hmax := s.size_lt
  have hsize_lt := (wstring s).size_lt
  have hfour : sizeT (s.chars.length * 4) = s.chars.length * 4 := sizeT_of_lt (by omega)
  rw [putWString, hfour, ← wideBytes]
  by_cases hlong : s.chars.length > 255
  · have hsize : 1 + 2 + s.chars.length * 4 = (wstring s).size := by
      rw [size, prefixWidth, payloadWidth, if_pos hlong]
      omega
    have hbytes : [dataTypeWString2] ++ [leBytes 2 s.chars.length, wideBytes host s.chars].flatten =
        (wstring s).encode host := by
      simp [encode, tag, lengthPrefix, payload, hlong]
    simp only [if_pos hlong]
    rw [if_neg (by decide), if_pos trivial, hsize]
    -- up to the extra advance this is the put of any other string
    have helement := run_putElement hm.past_length (show m.dataLength + (wstring s).size < 2 ^ 64
      by omega) (hbytes ▸ (wstring s).length_encode host)
    by_cases hfit : m.dataLength + (wstring s).size ≤ maxMsgData
    · have hwrap : sizeT (m.dataLength + (wstring s).size + s.chars.length * 4) =
          m.dataLength + (wstring s).size + (wstring s).gap := by
        rw [gap_of_isLongWide (v := wstring s) hlong]
        exact sizeT_of_lt (by simp only [maxMsgData] at hfit; omega)
      rw [if_pos hfit] at helement ⊢
      rw [Program.run_bind_returns _ helement, Program.run_modify, hbytes]
      simp only [append_dataLength, length_encode, hwrap]
      rfl
    · rw [if_neg hfit] at helement ⊢
      rw [Program.run_bind_throws _ helement]
  · have hsize : 1 + 1 + s.chars.length * 4 = (wstring s).size := by
      rw [size, prefixWidth, payloadWidth, if_neg hlong]
      omega
    have hbytes : [dataTypeWString1] ++ [[UInt8.ofNat s.chars.length],
        wideBytes host s.chars].flatten = (wstring s).encode host := by
      simp [encode, tag, lengthPrefix, payload, hlong]
    rw [place_of_gap_eq_zero (gap_of_not_isLongWide (v := wstring s) hlong)]
    simp only [if_neg hlong]
    rw [if_pos trivial, hsize, ← hbytes]
    exact run_putElement hm.past_length (by omega) (hbytes ▸ (wstring s).length_encode host)

/-- **The puts do what the wire format says.** A put whose encoding fits appends it, any other
throws and leaves the whole state as it was; no put aborts or leaves the block. -/
theorem run_put (host : ByteOrder) (v : Value) {m : Message} (hm : m.Writable) :
    (v.put host).run m =
      if m.dataLength + v.size ≤ maxMsgData then .returns () (m.place host v)
      else .throws exceededMaximum m := by
  cases v with
  | scalar v => exact run_put_scalar host v hm
  | string s => exact run_put_string host s hm
  | wstring s => exact run_put_wstring host s hm

theorem run_put_of_fits (host : ByteOrder) {v : Value} {m : Message} (hm : m.Writable)
    (hfit : m.dataLength + v.size ≤ maxMsgData) :
    (v.put host).run m = .returns () (m.place host v) := by
  rw [run_put host v hm, if_pos hfit]

theorem run_put_of_not_fits (host : ByteOrder) {v : Value} {m : Message} (hm : m.Writable)
    (hfit : ¬ m.dataLength + v.size ≤ maxMsgData) :
    (v.put host).run m = .throws exceededMaximum m := by
  rw [run_put host v hm, if_neg hfit]

/-! ## A put that has returned -/

/-- Wherever `dataLength` is, a put that copied its tag had room for it. -/
theorem dataLength_lt_of_putElement {need : Nat} {b : UInt8} {cs : List (List UInt8)}
    {m m' : Message} (h : (putElement need ([b] :: cs)).run m = .returns () m') :
    m.dataLength < maxMsgData := by
  by_contra hle
  have hcopy : (memcpyTo m.dataLength [b]).run m = .faults := if_neg (by
    rw [List.length_singleton]
    omega)
  have hchunk : (appendChunk [b]).run m = .faults := by
    rw [appendChunk, Program.run_get_bind, Program.run_bind_faults _ hcopy]
  rw [putElement, Program.run_get_bind] at h
  split at h
  · rw [putChunks, Program.run_bind_faults _ hchunk] at h
    cases h
  · cases h

theorem dataLength_lt_of_put {host : ByteOrder} {v : Value} {m m' : Message}
    (h : (v.put host).run m = .returns () m') : m.dataLength < maxMsgData := by
  cases v with
  | scalar v => cases v <;> exact dataLength_lt_of_putElement h
  | string s =>
      by_cases hlong : s.chars.length > 255
      · simp only [put, putString, if_pos hlong] at h
        rw [if_neg (by decide), if_pos trivial] at h
        exact dataLength_lt_of_putElement h
      · simp only [put, putString, if_neg hlong] at h
        exact dataLength_lt_of_putElement h
  | wstring s =>
      by_cases hlong : s.chars.length > 255
      · simp only [put, putWString, if_pos hlong] at h
        rw [if_neg (by decide), if_pos trivial] at h
        obtain ⟨_, _, helement, -⟩ := Program.exists_of_bind_returns h
        exact dataLength_lt_of_putElement helement
      · simp only [put, putWString, if_neg hlong] at h
        exact dataLength_lt_of_putElement h

/-- **A put that has returned** had room for its value and has placed it, on any message whose
`dataLength` is past the length field. -/
theorem put_returned {host : ByteOrder} {v : Value} {m m' : Message}
    (hpast : messageLengthOffset + 2 ≤ m.dataLength) (h : (v.put host).run m = .returns () m') :
    m.Writable ∧ m.dataLength + v.size ≤ maxMsgData ∧ m' = m.place host v := by
  have hlt := dataLength_lt_of_put h
  have hm : m.Writable := ⟨hpast, by omega⟩
  by_cases hfit : m.dataLength + v.size ≤ maxMsgData
  · rw [run_put_of_fits host hm hfit] at h
    cases h
    exact ⟨hm, hfit, rfl⟩
  · rw [run_put_of_not_fits host hm hfit] at h
    cases h

end Value

end Kcmsg
