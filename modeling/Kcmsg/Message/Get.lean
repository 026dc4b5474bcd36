import Kcmsg.Message.Wire

/-!
# The get operations

Every `get` of a fixed-width kind copies one byte at `offset` and asserts that it is the tag of
the kind, then copies the payload behind it, and advances `offset` over both. That shape is
`getElement`; what becomes of the payload bytes is each operation's own. The byte is held in an
`int8_t` and compared with a `uint8_t` constant, both promoted to `int`.

`ScalarKind.run_get` says what every get but one does to a block that holds a tag and a payload.
The exception is `getLong`, which reads two bytes of the four that `putLong` writes.
-/

namespace Kcmsg

namespace Message

/-- `memcpy(&dst, &data[offset], n); offset += n;` -/
def readChunk (n : Nat) : Program Message (List UInt8) := do
  let m ← Program.get
  let bytes ← memcpyFrom m.offset n
  Program.modify fun m => { m with offset := sizeT (m.offset + n) }
  return bytes

/-- The tag test and the payload the getters share. -/
def getElement (tag : UInt8) (n : Nat) : Program Message (List UInt8) := do
  let dataType ← readChunk 1
  Program.assert ((dataType.headD 0).toInt8.toInt == tag.toNat)
  readChunk n

def getDataType : Program Message UInt8 := do
  let m ← Program.get
  let val ← memcpyFrom m.offset 1
  return val.headD 0

def getBool : Program Message Bool := do
  let val ← getElement dataTypeBool 1
  return (val.headD 0).toInt8 != 0

def getByte : Program Message Int8 := do
  let val ← getElement dataTypeByte 1
  return (val.headD 0).toInt8

def getShort : Program Message Int16 := do
  let nval ← getElement dataTypeShort 2
  return .ofBitVec (littleValue 16 nval)

def getInt : Program Message Int32 := do
  let nval ← getElement dataTypeInt 4
  return .ofBitVec (littleValue 32 nval)

/-- The buffer is a `little_int16_buf_t`. -/
def getLong : Program Message Int32 := do
  let nval ← getElement dataTypeLong 2
  return (Int16.ofBitVec (littleValue 16 nval)).toInt32

def getLongLong : Program Message Int64 := do
  let nval ← getElement dataTypeLongLong 8
  return .ofBitVec (littleValue 64 nval)

def getFloat (host : ByteOrder) : Program Message (BitVec 32) := do
  let val ← getElement dataTypeFloat 4
  return nativeValue host 32 val

def getDouble (host : ByteOrder) : Program Message (BitVec 64) := do
  let val ← getElement dataTypeDouble 8
  return nativeValue host 64 val

def getChar : Program Message UInt8 := do
  let val ← getElement dataTypeChar 1
  return val.headD 0

def getWChar (host : ByteOrder) : Program Message (BitVec 32) := do
  let val ← getElement dataTypeWChar 4
  return nativeValue host 32 val

def getTime : Program Message Int64 := do
  let nval ← getElement dataTypeTime 8
  return .ofBitVec (littleValue 64 nval)

/-- The buffer is a signed one; the return converts to `uint32_t`. -/
def getDuration : Program Message UInt32 := do
  let nval ← getElement dataTypeDuration 4
  return (Int32.ofBitVec (littleValue 32 nval)).toUInt32

end Message

/-- The getter of a kind. -/
def ScalarKind.get (host : ByteOrder) : ScalarKind → Program Message ScalarValue
  | bool => return .bool (← Message.getBool)
  | byte => return .byte (← Message.getByte)
  | short => return .short (← Message.getShort)
  | int => return .int (← Message.getInt)
  | long => return .long (← Message.getLong)
  | longLong => return .longLong (← Message.getLongLong)
  | float => return .float (← Message.getFloat host)
  | double => return .double (← Message.getDouble host)
  | char => return .char (← Message.getChar)
  | wchar => return .wchar (← Message.getWChar host)
  | time => return .time (← Message.getTime)
  | duration => return .duration (← Message.getDuration)

/-! ## What a get does -/

namespace Message

theorem run_readChunk {m : Message} {n : Nat} (h : m.offset + n ≤ maxMsgData) :
    (readChunk n).run m =
      .returns (m.data.load m.offset n) { m with offset := m.offset + n } := by
  have hlt : m.offset + n < 2 ^ 64 := Nat.lt_of_le_of_lt h (by decide)
  rw [readChunk, Program.run_get_bind, Program.run_bind_returns _ (run_memcpyFrom m h),
    Program.run_bind_returns _ (Program.run_modify _ m), Program.run_pure, sizeT_of_lt hlt]

theorem run_getDataType {m : Message} {tag : UInt8} (h : m.offset + 1 ≤ maxMsgData)
    (htag : m.data m.offset = tag) : getDataType.run m = .returns tag m := by
  rw [getDataType, Program.run_get_bind, Program.run_bind_returns _ (run_memcpyFrom m h),
    Program.run_pure, ← htag]
  rfl

/-- A copy that leaves the block is an error of the memory. -/
theorem run_readChunk_of_gt {m : Message} {n : Nat} (h : maxMsgData < m.offset + n) :
    (readChunk n).run m = .faults := by
  have hfaults : (memcpyFrom m.offset n).run m = .faults := if_neg (by omega)
  rw [readChunk, Program.run_get_bind, Program.run_bind_faults _ hfaults]

/-- For a tag below `0x80` the comparison of the promoted bytes is the comparison of the bytes. -/
theorem promoted_eq_iff {b tag : UInt8} (hsmall : tag < 0x80) :
    b.toInt8.toInt = (tag.toNat : Int) ↔ b = tag := by
  have hlt : tag.toNat < 0x80 := hsmall
  have hbyte : b.toInt8.toInt = b.toBitVec.toInt := rfl
  have hvalue := BitVec.toInt_eq_toNat_cond b.toBitVec
  have hnat : b.toBitVec.toNat = b.toNat := rfl
  have hbound : b.toNat < 256 := b.toNat_lt
  rw [hbyte, hvalue, hnat, ← UInt8.toNat_inj]
  split <;> omega

section Element

variable {m : Message} {tag : UInt8} {n : Nat}

theorem run_getElement (hsmall : tag < 0x80) (h : m.offset + 1 + n ≤ maxMsgData)
    (htag : m.data m.offset = tag) :
    (getElement tag n).run m = .returns (m.data.load (m.offset + 1) n)
      { m with offset := m.offset + 1 + n } := by
  have hassert : (((m.data.load m.offset 1).headD 0).toInt8.toInt == tag.toNat) = true :=
    beq_iff_eq.mpr ((promoted_eq_iff hsmall).mpr htag)
  rw [getElement, Program.run_bind_returns _ (run_readChunk (by omega)),
    Program.run_bind_returns _ (Program.run_assert_true hassert _)]
  exact run_readChunk (m := { m with offset := m.offset + 1 }) h

theorem run_getElement_of_ne (hsmall : tag < 0x80) (h : m.offset + 1 ≤ maxMsgData)
    (htag : m.data m.offset ≠ tag) : (getElement tag n).run m = .aborts := by
  have hassert : (((m.data.load m.offset 1).headD 0).toInt8.toInt == tag.toNat) = false :=
    beq_eq_false_iff_ne.mpr fun heq => htag ((promoted_eq_iff hsmall).mp heq)
  rw [getElement, Program.run_bind_returns _ (run_readChunk h),
    Program.run_bind_aborts _ (Program.run_assert_false hassert _)]

/-- A payload that leaves the block, behind the right tag. -/
theorem run_getElement_of_gt (hsmall : tag < 0x80) (h : maxMsgData < m.offset + 1 + n)
    (htag : m.data m.offset = tag) : (getElement tag n).run m = .faults := by
  by_cases hroom : m.offset + 1 ≤ maxMsgData
  · have hassert : (((m.data.load m.offset 1).headD 0).toInt8.toInt == tag.toNat) = true :=
      beq_iff_eq.mpr ((promoted_eq_iff hsmall).mpr htag)
    rw [getElement, Program.run_bind_returns _ (run_readChunk hroom),
      Program.run_bind_returns _ (Program.run_assert_true hassert _)]
    exact run_readChunk_of_gt (m := { m with offset := m.offset + 1 }) h
  · rw [getElement, Program.run_bind_faults _ (run_readChunk_of_gt (by omega))]

theorem run_getElement_outside (h : maxMsgData < m.offset + 1) :
    (getElement tag n).run m = .faults := by
  rw [getElement, Program.run_bind_faults _ (run_readChunk_of_gt h)]

end Element

end Message

namespace ScalarKind

/-- **Every getter but `getLong` reads what the wire format says**: on a block that holds the tag
of the kind at `offset` it returns the value of the payload behind it. -/
theorem run_get (host : ByteOrder) {k : ScalarKind} (hk : k ≠ .long) {m : Message}
    (h : m.offset + 1 + k.width ≤ maxMsgData) (htag : m.data m.offset = k.tag) :
    (k.get host).run m = .returns (k.value host (m.data.load (m.offset + 1) k.width))
      { m with offset := m.offset + 1 + k.width } := by
  have helement := Message.run_getElement k.tag_lt h htag
  cases k with
  | long => exact absurd rfl hk
  | bool =>
      -- `getBool` tests the byte as an `int8_t`
      have hzero (b : UInt8) : (b.toInt8 != 0) = (b != 0) := by
        rw [Bool.eq_iff_iff, bne_iff_ne, bne_iff_ne]
        exact not_congr ⟨fun h => congrArg Int8.toUInt8 h, fun h => congrArg UInt8.toInt8 h⟩
      show (bool.get host).run m = .returns (.bool ((m.data (m.offset + 1)) != 0)) _
      rw [← hzero]
      exact Program.run_bind_returns _ (Program.run_bind_returns _ helement)
  | _ => exact Program.run_bind_returns _ (Program.run_bind_returns _ helement)

end ScalarKind

namespace ScalarValue

variable {host : ByteOrder} {v : ScalarValue}

theorem size_eq (v : ScalarValue) : (Value.scalar v).size = 1 + v.kind.width := by
  rw [Value.size, Value.prefixWidth, Value.payloadWidth, Nat.zero_add]

/-- An encoded scalar is its tag and, right behind it, its payload. -/
theorem tag_and_payload {mem : Mem} {p : Nat}
    (h : mem.load p (Value.scalar v).size = (Value.scalar v).encode host) :
    mem p = v.kind.tag ∧ mem.load (p + 1) v.kind.width = v.payload host := by
  have hparts : mem.load p 1 ++ mem.load (p + 1) v.kind.width =
      [v.kind.tag] ++ v.payload host := by
    rw [← Mem.load_add, ← size_eq, h]
    rfl
  obtain ⟨htag, hpayload⟩ := List.append_inj hparts (by simp)
  exact ⟨(List.cons.inj htag).1, hpayload⟩

/-- **A get reads back what was put**, and `getDataType` announces it. -/
theorem run_get (hv : v.kind ≠ .long) {m : Message}
    (hload : m.data.load m.offset (Value.scalar v).size = (Value.scalar v).encode host)
    (hroom : m.offset + (Value.scalar v).size ≤ maxMsgData) :
    Message.getDataType.run m = .returns v.kind.tag m ∧
      (v.kind.get host).run m =
        .returns v { m with offset := m.offset + (Value.scalar v).size } := by
  obtain ⟨htag, hpayload⟩ := tag_and_payload hload
  have hsize := size_eq v
  refine ⟨Message.run_getDataType (by omega) htag, ?_⟩
  rw [ScalarKind.run_get host hv (by omega) htag, hpayload, value_payload, hsize, Nat.add_assoc]

end ScalarValue

end Kcmsg
