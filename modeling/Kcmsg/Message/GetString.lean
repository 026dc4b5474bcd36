import Kcmsg.Message.Get
import Kcmsg.Message.Temporary

/-!
# The string getters

`getString` and `getWString` read the same kind of field: a tag that says how wide the length
prefix is, the prefix, and the characters. Both take the prefix for a signed number, of one byte
or of two, and convert it to `size_t`; a length with its top bit set becomes one close to `2 ^ 64`.

They differ in how they clear the block the characters are copied into: `getString` clears all of
it, `getWString` one byte for each character, and before it knows that there is a block.

What each does is said by four lemmas: where the field fits it returns (`run_getString`,
`wstringTemporary_of_fits`), where it does not it leaves the message (`_of_not_fits`), and without
a tag of its own, or outside the block, both end as `getStringLength` does.
-/

namespace Kcmsg

/-- The two kinds of string field. -/
inductive StringKind where
  | string
  | wstring
  deriving DecidableEq, Repr

namespace StringKind

def shortTag : StringKind → UInt8
  | string => dataTypeString1
  | wstring => dataTypeWString1

def longTag : StringKind → UInt8
  | string => dataTypeString2
  | wstring => dataTypeWString2

theorem longTag_ne_shortTag (k : StringKind) : k.longTag ≠ k.shortTag := by cases k <;> decide

/-- `sizeof(char)` or `sizeof(wchar_t)` -/
def charSize : StringKind → Nat
  | string => 1
  | wstring => 4

end StringKind

/-- `(size_t)` of a signed number. -/
def castSizeT (i : Int) : Nat := (i % 2 ^ 64).toNat

namespace Message

/-- The tag, the assertion on it and the `switch` on it: `string_len`, or `wstring_len`. -/
def getStringLength (k : StringKind) : Program Message Nat := do
  let dataType ← readChunk 1
  let sv := (dataType.headD 0).toInt8.toInt
  Program.assert (sv == k.shortTag.toNat || sv == k.longTag.toNat)
  if sv = k.shortTag.toNat then
    let s1len ← readChunk 1
    return castSizeT (littleValue 8 s1len).toInt
  else if sv = k.longTag.toNat then
    let s2len ← readChunk 2
    return castSizeT (littleValue 16 s2len).toInt
  else return 0

/-- `getString` up to the assignment: the block that is assigned. -/
def stringTemporary (heap : Heap) : Program Message Block := do
  let stringLen ← getStringLength .string
  let ptr := heap.malloc (sizeT (sizeT (stringLen + 1) * 1))
  Program.assert ptr.isSome
  let block ← memset ptr (sizeT (sizeT (stringLen + 1) * 1))
  let elemSize := sizeT (stringLen * 1)
  let payload ← readChunk elemSize
  memcpy block payload

/-- `val.assign(ptr)` takes the bytes up to the first zero. -/
def getString (heap : Heap) : Program Message (List UInt8) := do
  let block ← stringTemporary heap
  Program.orFault (untilStop 0 block.bytes)

/-- `getWString` up to the assignment. -/
def wstringTemporary (heap : Heap) : Program Message Block := do
  let wstringLen ← getStringLength .wstring
  let ptr := heap.malloc (sizeT (sizeT (wstringLen + 1) * 4))
  -- one byte for each character and one more, on a pointer that has not been tested
  let block ← memset ptr (sizeT (sizeT (wstringLen + 1) * 1))
  Program.assert ptr.isSome
  let payload ← readChunk (sizeT (wstringLen * 4))
  memcpy block payload

/-- `val.assign(ptr)` takes the characters up to the first zero. -/
def getWString (heap : Heap) (host : ByteOrder) : Program Message (List (BitVec 32)) := do
  let block ← wstringTemporary heap
  Program.orFault (untilStop 0 (wideChars host block.bytes))

/-! ## The field at the cursor -/

/-- There is a tag of the kind at the cursor. -/
def Announces (k : StringKind) (m : Message) : Prop :=
  m.data m.offset = k.shortTag ∨ m.data m.offset = k.longTag

instance (k : StringKind) (m : Message) : Decidable (m.Announces k) :=
  inferInstanceAs (Decidable (_ ∨ _))

/-- The width of the length prefix behind the tag. -/
def prefixWidth (k : StringKind) (m : Message) : Nat :=
  if m.data m.offset = k.shortTag then 1 else 2

/-- The length prefix as the getters take it. -/
def signedLength (k : StringKind) (m : Message) : Int :=
  if m.data m.offset = k.shortTag then (littleValue 8 (m.data.load (m.offset + 1) 1)).toInt
  else (littleValue 16 (m.data.load (m.offset + 1) 2)).toInt

/-- Where the characters start. -/
def payloadStart (k : StringKind) (m : Message) : Nat := m.offset + 1 + m.prefixWidth k

/-- The bytes of the characters. -/
def payload (k : StringKind) (m : Message) : List UInt8 :=
  m.data.load (m.payloadStart k) ((m.signedLength k).toNat * k.charSize)

/-- The size of the block that is asked for. -/
def request (k : StringKind) (m : Message) : Nat :=
  sizeT (sizeT (castSizeT (m.signedLength k) + 1) * k.charSize)

/-- The field of the kind at the cursor, tag to last character, lies in the block. -/
structure FieldFits (k : StringKind) (m : Message) (n : Nat) : Prop where
  announced : m.Announces k
  length : m.signedLength k = n
  inside : m.payloadStart k + n * k.charSize ≤ maxMsgData

theorem prefixWidth_pos (k : StringKind) (m : Message) : 1 ≤ m.prefixWidth k := by
  rw [prefixWidth]
  split <;> omega

/-- A prefix of two bytes at most is a number of sixteen bits at most. -/
theorem signedLength_bounds (k : StringKind) (m : Message) :
    -0x8000 ≤ m.signedLength k ∧ m.signedLength k < 0x8000 := by
  rw [signedLength]
  split
  · have hlow := BitVec.le_toInt (littleValue 8 (m.data.load (m.offset + 1) 1))
    have hhigh := BitVec.toInt_lt (x := littleValue 8 (m.data.load (m.offset + 1) 1))
    omega
  · have hlow := BitVec.le_toInt (littleValue 16 (m.data.load (m.offset + 1) 2))
    have hhigh := BitVec.toInt_lt (x := littleValue 16 (m.data.load (m.offset + 1) 2))
    omega

theorem castSizeT_natCast {n : Nat} (h : n < 2 ^ 64) : castSizeT n = n := by
  rw [castSizeT]
  omega

/-- A negative length becomes a huge one. -/
theorem castSizeT_of_neg {i : Int} (hneg : i < 0) (hlow : -0x8000 ≤ i) :
    castSizeT i = 2 ^ 64 - i.natAbs := by
  rw [castSizeT]
  omega

/-! ## The length -/

section Length

variable {k : StringKind} {m : Message}

theorem shortTag_lt (k : StringKind) : k.shortTag < 0x80 := by cases k <;> decide

theorem longTag_lt (k : StringKind) : k.longTag < 0x80 := by cases k <;> decide

/-- Behind a tag of the kind the `switch` reads the prefix the tag calls for. -/
theorem run_getStringLength_announced (ha : m.Announces k) (hroom : m.offset + 1 ≤ maxMsgData) :
    (getStringLength k).run m = (if m.data m.offset = k.shortTag then do
        let s1len ← readChunk 1
        return castSizeT (littleValue 8 s1len).toInt
      else do
        let s2len ← readChunk 2
        return castSizeT (littleValue 16 s2len).toInt : Program Message Nat).run
          { m with offset := m.offset + 1 } := by
  have hshort : ((m.data.load m.offset 1).headD 0).toInt8.toInt = (k.shortTag.toNat : Int) ↔
      m.data m.offset = k.shortTag := promoted_eq_iff (shortTag_lt k)
  have hlong : ((m.data.load m.offset 1).headD 0).toInt8.toInt = (k.longTag.toNat : Int) ↔
      m.data m.offset = k.longTag := promoted_eq_iff (longTag_lt k)
  have hassert : (((m.data.load m.offset 1).headD 0).toInt8.toInt == k.shortTag.toNat ||
      ((m.data.load m.offset 1).headD 0).toInt8.toInt == k.longTag.toNat) = true := by
    rw [Bool.or_eq_true, beq_iff_eq, beq_iff_eq]
    exact ha.imp hshort.mpr hlong.mpr
  rw [getStringLength, Program.run_bind_returns _ (run_readChunk hroom),
    Program.run_bind_returns _ (Program.run_assert_true hassert _)]
  by_cases htag : m.data m.offset = k.shortTag
  · rw [if_pos (hshort.mpr htag), if_pos htag]
  · rw [if_neg fun h => htag (hshort.mp h), if_pos (hlong.mpr (ha.resolve_left htag)),
      if_neg htag]

theorem run_getStringLength (ha : m.Announces k) (hroom : m.payloadStart k ≤ maxMsgData) :
    (getStringLength k).run m = .returns (castSizeT (m.signedLength k))
      { m with offset := m.payloadStart k } := by
  have hpos := m.prefixWidth_pos k
  rw [payloadStart] at hroom
  rw [run_getStringLength_announced ha (by omega), payloadStart, signedLength]
  by_cases htag : m.data m.offset = k.shortTag
  · have hwidth : m.prefixWidth k = 1 := if_pos htag
    rw [if_pos htag, if_pos htag, hwidth,
      Program.run_bind_returns _ (run_readChunk (show m.offset + 1 + 1 ≤ maxMsgData by omega)),
      Program.run_pure]
  · have hwidth : m.prefixWidth k = 2 := if_neg htag
    rw [if_neg htag, if_neg htag, hwidth,
      Program.run_bind_returns _ (run_readChunk (show m.offset + 1 + 2 ≤ maxMsgData by omega)),
      Program.run_pure]

/-- Another tag at the cursor fails the assertion. -/
theorem run_getStringLength_of_not (ha : ¬ m.Announces k) (hroom : m.offset + 1 ≤ maxMsgData) :
    (getStringLength k).run m = .aborts := by
  have hassert : (((m.data.load m.offset 1).headD 0).toInt8.toInt == k.shortTag.toNat ||
      ((m.data.load m.offset 1).headD 0).toInt8.toInt == k.longTag.toNat) = false := by
    rw [Bool.or_eq_false_iff, beq_eq_false_iff_ne, beq_eq_false_iff_ne]
    exact ⟨fun heq => ha (.inl ((promoted_eq_iff (shortTag_lt k)).mp heq)),
      fun heq => ha (.inr ((promoted_eq_iff (longTag_lt k)).mp heq))⟩
  rw [getStringLength, Program.run_bind_returns _ (run_readChunk hroom),
    Program.run_bind_aborts _ (Program.run_assert_false hassert _)]

/-- The tag leaves the block. -/
theorem run_getStringLength_outside (h : maxMsgData < m.offset + 1) :
    (getStringLength k).run m = .faults := by
  rw [getStringLength, Program.run_bind_faults _ (run_readChunk_of_gt h)]

/-- The prefix leaves the block. -/
theorem run_getStringLength_of_gt (ha : m.Announces k) (h : maxMsgData < m.payloadStart k) :
    (getStringLength k).run m = .faults := by
  by_cases hroom : m.offset + 1 ≤ maxMsgData
  · rw [payloadStart] at h
    rw [run_getStringLength_announced ha hroom]
    by_cases htag : m.data m.offset = k.shortTag
    · have hwidth : m.prefixWidth k = 1 := if_pos htag
      rw [if_pos htag, Program.run_bind_faults _
        (run_readChunk_of_gt (show maxMsgData < m.offset + 1 + 1 by omega))]
    · have hwidth : m.prefixWidth k = 2 := if_neg htag
      rw [if_neg htag, Program.run_bind_faults _
        (run_readChunk_of_gt (show maxMsgData < m.offset + 1 + 2 by omega))]
  · exact run_getStringLength_outside (by omega)

end Length

/-! ## The blocks -/

/-- What stands behind the characters of `getWString`'s block: what the block held there, but for
the bytes that were cleared. -/
def behindWide (bytes : List UInt8) (n : Nat) : List UInt8 :=
  (List.replicate (n + 1) 0 ++ bytes.drop (n + 1)).drop (n * 4)

section Temporary

variable {heap : Heap} {m : Message} {n : Nat}

theorem FieldFits.lt {k : StringKind} (h : m.FieldFits k n) : n < 0x8000 := by
  have hbounds := m.signedLength_bounds k
  have hlength := h.length
  omega

theorem FieldFits.run_length {k : StringKind} (h : m.FieldFits k n) :
    (getStringLength k).run m = .returns n { m with offset := m.payloadStart k } := by
  have hlt := h.lt
  have hinside := h.inside
  rw [run_getStringLength h.announced (by omega), h.length, castSizeT_natCast (by omega)]

theorem FieldFits.payload_eq {k : StringKind} (h : m.FieldFits k n) :
    m.payload k = m.data.load (m.payloadStart k) (n * k.charSize) := by
  rw [payload, h.length, Int.toNat_natCast]

theorem FieldFits.length_payload {k : StringKind} (h : m.FieldFits k n) :
    (m.payload k).length = n * k.charSize := by
  rw [h.payload_eq, Mem.length_load]

/-- All of the block has been set: the characters and the zero behind them. -/
theorem stringTemporary_of_fits (h : m.FieldFits .string n)
    {bytes : { bytes : List UInt8 // n + 1 ≤ bytes.length }} (hheap : heap (n + 1) = some bytes) :
    ∃ block, (stringTemporary heap).run m =
        .returns block { m with offset := m.payloadStart .string + n } ∧
      block.bytes = m.payload .string ++ 0 :: bytes.val.drop (n + 1) ∧ block.written = n + 1 := by
  have hlt := h.lt
  have hinside : m.payloadStart .string + n * 1 ≤ maxMsgData := h.inside
  have hroom : m.payloadStart .string + n ≤ maxMsgData := by omega
  have hone : sizeT (n + 1) = n + 1 := sizeT_of_lt (by omega)
  have hsize : sizeT (sizeT (n + 1) * 1) = n + 1 := by rw [Nat.mul_one, hone, hone]
  have helem : sizeT (n * 1) = n := by rw [Nat.mul_one, sizeT_of_lt (by omega)]
  have hpayload : m.payload .string = m.data.load (m.payloadStart .string) n := by
    rw [h.payload_eq]
    exact congrArg _ (Nat.mul_one n)
  have hlength : (m.payload .string).length = n := h.length_payload.trans (Nat.mul_one n)
  obtain ⟨cleared, block, hcleared, hblock, hbytes, hwritten⟩ :=
    Block.clear_copy bytes (m.payload .string) (Nat.le_refl (n + 1)) (by omega)
  refine ⟨block, ?_, ?_, ?_⟩
  · rw [stringTemporary, Program.run_bind_returns _ h.run_length, hsize, helem,
      Heap.malloc_of_some hheap]
    show (Program.assert true >>= fun _ => memset (some (Block.fresh bytes)) (n + 1) >>=
      fun block => readChunk n >>= memcpy block).run _ = _
    rw [Program.run_bind_returns _ (Program.run_assert_true rfl _), memset, Option.bind_some,
      hcleared, Program.run_bind_returns _ (Program.run_orFault_some _ _),
      Program.run_bind_returns _ (run_readChunk hroom), memcpy, ← hpayload, hblock]
    rfl
  · rw [hbytes, hlength, List.replicate_succ', List.append_assoc,
      List.drop_left' List.length_replicate]
    rfl
  · rw [hwritten, hlength]
    omega

/-- The characters have been set, and as many bytes from the beginning as there are characters and
one more: the terminator has not, or not all of it. -/
theorem wstringTemporary_of_fits (h : m.FieldFits .wstring n)
    {bytes : { bytes : List UInt8 // (n + 1) * 4 ≤ bytes.length }}
    (hheap : heap ((n + 1) * 4) = some bytes) :
    ∃ block, (wstringTemporary heap).run m =
        .returns block { m with offset := m.payloadStart .wstring + n * 4 } ∧
      block.bytes = m.payload .wstring ++ behindWide bytes.val n ∧
      block.written = max (n + 1) (n * 4) := by
  have hlt := h.lt
  have hroom : m.payloadStart .wstring + n * 4 ≤ maxMsgData := h.inside
  have hone : sizeT (n + 1) = n + 1 := sizeT_of_lt (by omega)
  have hsize : sizeT (sizeT (n + 1) * 4) = (n + 1) * 4 := by rw [hone, sizeT_of_lt (by omega)]
  have hset : sizeT (sizeT (n + 1) * 1) = n + 1 := by rw [Nat.mul_one, hone, hone]
  have helem : sizeT (n * 4) = n * 4 := sizeT_of_lt (by omega)
  have hpayload : m.payload .wstring = m.data.load (m.payloadStart .wstring) (n * 4) :=
    h.payload_eq
  have hlength : (m.payload .wstring).length = n * 4 := h.length_payload
  obtain ⟨cleared, block, hcleared, hblock, hbytes, hwritten⟩ :=
    Block.clear_copy bytes (m.payload .wstring) (show n + 1 ≤ (n + 1) * 4 by omega)
      (by omega)
  refine ⟨block, ?_, ?_, ?_⟩
  · rw [wstringTemporary, Program.run_bind_returns _ h.run_length, hsize, hset, helem,
      Heap.malloc_of_some hheap]
    show (memset (some (Block.fresh bytes)) (n + 1) >>= fun block => Program.assert true >>=
      fun _ => readChunk (n * 4) >>= memcpy block).run _ = _
    rw [memset, Option.bind_some, hcleared,
      Program.run_bind_returns _ (Program.run_orFault_some _ _),
      Program.run_bind_returns _ (Program.run_assert_true rfl _),
      Program.run_bind_returns _ (run_readChunk hroom), memcpy, ← hpayload, hblock]
    rfl
  · rw [hbytes, hlength]
    rfl
  · rw [hwritten, hlength]

/-- A field that does not fit is a copy that leaves the block, also where its length is negative:
what becomes of it in `size_t` is larger than any block. -/
theorem lt_of_not_fits {k : StringKind} (ha : m.Announces k) (hno : ∀ n, ¬ m.FieldFits k n) :
    maxMsgData < m.payloadStart k + sizeT (castSizeT (m.signedLength k) * k.charSize) := by
  obtain ⟨hlow, hhigh⟩ := m.signedLength_bounds k
  have hchar : k.charSize = 1 ∨ k.charSize = 4 := by cases k <;> decide
  by_cases hneg : m.signedLength k < 0
  · rw [castSizeT_of_neg hneg hlow, sizeT]
    have hmax : maxMsgData = 0xFFFF := rfl
    rcases hchar with hchar | hchar <;> rw [hchar] <;> omega
  · obtain ⟨n, hn⟩ := Int.eq_ofNat_of_zero_le (Int.not_lt.mp hneg)
    have hcast : castSizeT (m.signedLength k) = n := by
      rw [hn]
      exact castSizeT_natCast (by omega)
    rw [hcast, sizeT_of_lt (by rcases hchar with hchar | hchar <;> rw [hchar] <;> omega)]
    by_contra hle
    exact hno n ⟨ha, hn, Nat.le_of_not_lt hle⟩

theorem FieldFits.request_eq {k : StringKind} (h : m.FieldFits k n) :
    m.request k = (n + 1) * k.charSize := by
  have hlt := h.lt
  have hchar : k.charSize = 1 ∨ k.charSize = 4 := by cases k <;> decide
  rw [request, h.length, castSizeT_natCast (by omega), sizeT_of_lt (show n + 1 < 2 ^ 64 by omega),
    sizeT_of_lt (by rcases hchar with hchar | hchar <;> rw [hchar] <;> omega)]

/-- `getString` tests the pointer before it uses it. -/
theorem stringTemporary_refused (ha : m.Announces .string)
    (hstart : m.payloadStart .string ≤ maxMsgData) (hheap : heap (m.request .string) = none) :
    (stringTemporary heap).run m = .aborts := by
  have hmalloc : heap.malloc (sizeT (sizeT (castSizeT (m.signedLength .string) + 1) * 1)) = none :=
    Heap.malloc_of_none hheap
  rw [stringTemporary, Program.run_bind_returns _ (run_getStringLength ha hstart), hmalloc]
  exact Program.run_bind_aborts _ (Program.run_assert_false rfl _)

/-- `getWString` does not. -/
theorem wstringTemporary_refused (ha : m.Announces .wstring)
    (hstart : m.payloadStart .wstring ≤ maxMsgData) (hheap : heap (m.request .wstring) = none) :
    (wstringTemporary heap).run m = .faults := by
  have hmalloc : heap.malloc (sizeT (sizeT (castSizeT (m.signedLength .wstring) + 1) * 4)) = none :=
    Heap.malloc_of_none hheap
  rw [wstringTemporary, Program.run_bind_returns _ (run_getStringLength ha hstart), hmalloc]
  exact Program.run_bind_faults _ (Program.run_orFault_none _)

theorem stringTemporary_of_not_fits (ha : m.Announces .string)
    (hstart : m.payloadStart .string ≤ maxMsgData) (hno : ∀ n, ¬ m.FieldFits .string n)
    {bytes : { bytes : List UInt8 // m.request .string ≤ bytes.length }}
    (hheap : heap (m.request .string) = some bytes) :
    (stringTemporary heap).run m = .faults := by
  have hmalloc : heap.malloc (sizeT (sizeT (castSizeT (m.signedLength .string) + 1) * 1)) =
      some (Block.fresh bytes) := Heap.malloc_of_some hheap
  have hgt := lt_of_not_fits ha hno
  rw [stringTemporary, Program.run_bind_returns _ (run_getStringLength ha hstart), hmalloc]
  refine (Program.run_bind_returns _ (Program.run_assert_true rfl _)).trans ?_
  rw [memset, Option.bind_some]
  cases (Block.fresh bytes).copy _ with
  | none => exact Program.run_bind_faults _ (Program.run_orFault_none _)
  | some cleared =>
      rw [Program.run_bind_returns _ (Program.run_orFault_some _ _)]
      exact Program.run_bind_faults _
        (run_readChunk_of_gt (m := { m with offset := m.payloadStart .string }) hgt)

theorem wstringTemporary_of_not_fits (ha : m.Announces .wstring)
    (hstart : m.payloadStart .wstring ≤ maxMsgData) (hno : ∀ n, ¬ m.FieldFits .wstring n) :
    (wstringTemporary heap).run m = .faults := by
  have hgt := lt_of_not_fits ha hno
  rw [wstringTemporary, Program.run_bind_returns _ (run_getStringLength ha hstart)]
  show (memset (heap.malloc _) _ >>= _).run _ = _
  rw [memset]
  cases hmemset : (heap.malloc (sizeT (sizeT (castSizeT (m.signedLength .wstring) + 1) * 4))).bind
      fun block => block.copy
        (List.replicate (sizeT (sizeT (castSizeT (m.signedLength .wstring) + 1) * 1)) 0) with
  | none => exact Program.run_bind_faults _ (Program.run_orFault_none _)
  | some cleared =>
      -- there was something to clear, so the assertion behind it passes
      obtain ⟨block, hblock, -⟩ := Option.bind_eq_some_iff.mp hmemset
      rw [Program.run_bind_returns _ (Program.run_orFault_some _ _), hblock]
      refine (Program.run_bind_returns _ (Program.run_assert_true rfl _)).trans ?_
      exact Program.run_bind_faults _
        (run_readChunk_of_gt (m := { m with offset := m.payloadStart .wstring }) hgt)

end Temporary

/-! ## The strings -/

section Strings

variable {heap : Heap} {host : ByteOrder} {m : Message} {n : Nat}

/-- **`getString` returns the characters up to the first zero**, and passes over all of them. -/
theorem run_getString (h : m.FieldFits .string n) (hheap : (heap (n + 1)).isSome) :
    (getString heap).run m = .returns (cutAt 0 (m.payload .string))
      { m with offset := m.payloadStart .string + n } := by
  obtain ⟨bytes, hbytes⟩ := Option.isSome_iff_exists.mp hheap
  obtain ⟨block, hrun, hblock, -⟩ := stringTemporary_of_fits h hbytes
  rw [getString, Program.run_bind_returns _ hrun, hblock, untilStop_append_stop,
    Program.run_orFault_some]

/-- Another tag fails the assertion. -/
theorem run_getString_of_not (ha : ¬ m.Announces .string) (hroom : m.offset + 1 ≤ maxMsgData) :
    (getString heap).run m = .aborts := by
  unfold getString stringTemporary
  apply Program.run_bind_aborts
  apply Program.run_bind_aborts
  exact run_getStringLength_of_not ha hroom

theorem run_getWString_of_not (ha : ¬ m.Announces .wstring) (hroom : m.offset + 1 ≤ maxMsgData) :
    (getWString heap host).run m = .aborts := by
  unfold getWString wstringTemporary
  apply Program.run_bind_aborts
  apply Program.run_bind_aborts
  exact run_getStringLength_of_not ha hroom

/-- So does a request that is refused. -/
theorem run_getString_refused (ha : m.Announces .string)
    (hstart : m.payloadStart .string ≤ maxMsgData) (hheap : heap (m.request .string) = none) :
    (getString heap).run m = .aborts :=
  Program.run_bind_aborts _ (stringTemporary_refused ha hstart hheap)

/-- Where the tag or the length leaves the block, so does the call. -/
theorem run_getString_of_faults (h : (getStringLength .string).run m = .faults) :
    (getString heap).run m = .faults := by
  unfold getString stringTemporary
  apply Program.run_bind_faults
  apply Program.run_bind_faults
  exact h

theorem run_getWString_of_faults (h : (getStringLength .wstring).run m = .faults) :
    (getWString heap host).run m = .faults := by
  unfold getWString wstringTemporary
  apply Program.run_bind_faults
  apply Program.run_bind_faults
  exact h

/-- `getWString` returns what is in front of the first zero character of the block. -/
theorem run_getWString (h : m.FieldFits .wstring n)
    {bytes : { bytes : List UInt8 // (n + 1) * 4 ≤ bytes.length }}
    (hheap : heap ((n + 1) * 4) = some bytes) :
    (getWString heap host).run m = (Program.orFault (untilStop 0
      (wideChars host (m.payload .wstring) ++ wideChars host (behindWide bytes.val n)))).run
        { m with offset := m.payloadStart .wstring + n * 4 } := by
  obtain ⟨block, hrun, hblock, -⟩ := wstringTemporary_of_fits h hheap
  have hlength : (m.payload .wstring).length = n * 4 := h.length_payload
  rw [getWString, Program.run_bind_returns _ hrun, hblock, wideChars_append host n hlength]

/-- How a call of `getString` ends: with another tag or without a block it is rejected, with a
field that fits it returns, and otherwise it leaves the message. -/
theorem getString_cases (heap : Heap) (m : Message) :
    (m.offset < maxMsgData ∧ ¬ m.Announces .string ∧ (getString heap).run m = .aborts) ∨
    (m.Announces .string ∧ m.payloadStart .string ≤ maxMsgData ∧
      heap (m.request .string) = none ∧ (getString heap).run m = .aborts) ∨
    (∃ n, m.FieldFits .string n ∧ (heap (n + 1)).isSome ∧ (getString heap).run m =
      .returns (cutAt 0 (m.payload .string)) { m with offset := m.payloadStart .string + n }) ∨
    (getString heap).run m = .faults := by
  by_cases hroom : m.offset + 1 ≤ maxMsgData
  · by_cases ha : m.Announces .string
    · by_cases hstart : m.payloadStart .string ≤ maxMsgData
      · cases hheap : heap (m.request .string) with
        | none =>
            exact .inr (.inl ⟨ha, hstart, rfl, run_getString_refused ha hstart hheap⟩)
        | some bytes =>
            by_cases hfits : ∃ n, m.FieldFits .string n
            · obtain ⟨n, hn⟩ := hfits
              have hrequest : m.request .string = n + 1 := hn.request_eq.trans (Nat.mul_one _)
              have hsome : (heap (n + 1)).isSome := by
                rw [← hrequest, hheap]
                rfl
              exact .inr (.inr (.inl ⟨n, hn, hsome, run_getString hn hsome⟩))
            · exact .inr (.inr (.inr (Program.run_bind_faults _
                (stringTemporary_of_not_fits ha hstart (not_exists.mp hfits) hheap))))
      · have hlength := run_getStringLength_of_gt ha (Nat.lt_of_not_le hstart)
        exact .inr (.inr (.inr (run_getString_of_faults hlength)))
    · exact .inl ⟨hroom, ha, run_getString_of_not ha hroom⟩
  · have hlength := run_getStringLength_outside (k := .string) (Nat.lt_of_not_le hroom)
    exact .inr (.inr (.inr (run_getString_of_faults hlength)))

/-- How a call of `getWString` ends: it is never rejected for want of a block, and where the field
fits there still has to be a zero in it or behind it. -/
theorem getWString_cases (heap : Heap) (host : ByteOrder) (m : Message) :
    (m.offset < maxMsgData ∧ ¬ m.Announces .wstring ∧
      (getWString heap host).run m = .aborts) ∨
    (∃ n bytes, m.FieldFits .wstring n ∧ heap ((n + 1) * 4) = some bytes ∧
      ∃ s, untilStop 0 (wideChars host (m.payload .wstring) ++
          wideChars host (behindWide bytes.val n)) = some s ∧
        (getWString heap host).run m =
          .returns s { m with offset := m.payloadStart .wstring + n * 4 }) ∨
    (getWString heap host).run m = .faults := by
  by_cases hroom : m.offset + 1 ≤ maxMsgData
  · by_cases ha : m.Announces .wstring
    · by_cases hstart : m.payloadStart .wstring ≤ maxMsgData
      · by_cases hfits : ∃ n, m.FieldFits .wstring n
        · obtain ⟨n, hn⟩ := hfits
          cases hheap : heap ((n + 1) * 4) with
          | none =>
              have hnone : heap (m.request .wstring) = none := by
                rw [hn.request_eq]
                exact hheap
              exact .inr (.inr (Program.run_bind_faults _
                (wstringTemporary_refused ha hstart hnone)))
          | some bytes =>
              have hrun : (getWString heap host).run m = _ := run_getWString hn hheap
              cases hstop : untilStop 0 (wideChars host (m.payload .wstring) ++
                  wideChars host (behindWide bytes.val n)) with
              | none =>
                  rw [hstop] at hrun
                  exact .inr (.inr hrun)
              | some s =>
                  rw [hstop] at hrun
                  exact .inr (.inl ⟨n, bytes, hn, hheap, s, hstop, hrun⟩)
        · exact .inr (.inr (Program.run_bind_faults _
            (wstringTemporary_of_not_fits ha hstart (not_exists.mp hfits))))
      · have hlength := run_getStringLength_of_gt ha (Nat.lt_of_not_le hstart)
        exact .inr (.inr (run_getWString_of_faults hlength))
    · exact .inl ⟨hroom, ha, run_getWString_of_not ha hroom⟩
  · have hlength := run_getStringLength_outside (k := .wstring) (Nat.lt_of_not_le hroom)
    exact .inr (.inr (run_getWString_of_faults hlength))

/-- What a call of `getString` that returned has found and returned. -/
theorem getString_returned {s : List UInt8} {m' : Message}
    (h : (getString heap).run m = .returns s m') :
    ∃ n, m.FieldFits .string n ∧ (heap (n + 1)).isSome ∧ s = cutAt 0 (m.payload .string) ∧
      m' = { m with offset := m.payloadStart .string + n } := by
  rcases getString_cases heap m with
    ⟨-, -, hrun⟩ | ⟨-, -, -, hrun⟩ | ⟨n, hfits, hheap, hrun⟩ | hrun
  · exact absurd (hrun.symm.trans h) nofun
  · exact absurd (hrun.symm.trans h) nofun
  · obtain ⟨hs, hm'⟩ := Outcome.returns.inj (hrun.symm.trans h)
    exact ⟨n, hfits, hheap, hs.symm, hm'.symm⟩
  · exact absurd (hrun.symm.trans h) nofun

theorem getWString_returned {s : List (BitVec 32)} {m' : Message}
    (h : (getWString heap host).run m = .returns s m') :
    ∃ n bytes, m.FieldFits .wstring n ∧ heap ((n + 1) * 4) = some bytes ∧
      untilStop 0 (wideChars host (m.payload .wstring) ++
        wideChars host (behindWide bytes.val n)) = some s ∧
      m' = { m with offset := m.payloadStart .wstring + n * 4 } := by
  rcases getWString_cases heap host m with
    ⟨-, -, hrun⟩ | ⟨n, bytes, hfits, hheap, s', hstop, hrun⟩ | hrun
  · exact absurd (hrun.symm.trans h) nofun
  · obtain ⟨rfl, hm'⟩ := Outcome.returns.inj (hrun.symm.trans h)
    exact ⟨n, bytes, hfits, hheap, hstop, hm'.symm⟩
  · exact absurd (hrun.symm.trans h) nofun

end Strings

end Message

end Kcmsg
