import Kcmsg.Message.Basic

/-!
# The put operations

Every `put` tests the room first and then copies the tag and the payload in one to three pieces,
each at `data[data_length]` and each followed by an `updateDataLength`. That shape is
`putElement`; what a `put` tests (`need`) and what it copies (`chunks`) are separate arguments,
as they are separate expressions in every body of the source. `putWString` departs from it: its
two-byte form advances `data_length` a second time, behind the back of `updateDataLength`.

The host's byte order is a parameter of the operations that copy a native object as it is.
-/

namespace Kcmsg

/-! ## Data type identifiers -/

def dataTypeBool : UInt8 := 0x01
def dataTypeByte : UInt8 := 0x02
def dataTypeShort : UInt8 := 0x03
def dataTypeInt : UInt8 := 0x04
def dataTypeLong : UInt8 := 0x05
def dataTypeLongLong : UInt8 := 0x06
def dataTypeFloat : UInt8 := 0x07
def dataTypeDouble : UInt8 := 0x08
def dataTypeChar : UInt8 := 0x09
def dataTypeWChar : UInt8 := 0x0A
def dataTypeString1 : UInt8 := 0x0B
def dataTypeString2 : UInt8 := 0x0C
def dataTypeWString1 : UInt8 := 0x0D
def dataTypeWString2 : UInt8 := 0x0E
def dataTypeTime : UInt8 := 0x0F
def dataTypeDuration : UInt8 := 0x10

/-! ## Strings

A `std::string` and a `std::wstring` are their characters. Both carry `max_size`: their
characters take fewer than `2 ^ 63` bytes. -/

@[ext]
structure StdString where
  chars : List UInt8
  length_lt : chars.length < 2 ^ 63
  deriving DecidableEq

@[ext]
structure StdWString where
  chars : List (BitVec 32)
  size_lt : chars.length * 4 < 2 ^ 63
  deriving DecidableEq

/-- The `w` bytes of a native object, as `memcpy` sees them on a host. -/
def native (host : ByteOrder) (w : Nat) {k : Nat} (x : BitVec k) : List UInt8 :=
  host.encode w x.toNat

/-- The native object of `k` bits with the given bytes. -/
def nativeValue (host : ByteOrder) (k : Nat) (bytes : List UInt8) : BitVec k :=
  BitVec.ofNat k (host.decode bytes)

@[simp] theorem length_native (host : ByteOrder) (w : Nat) {k : Nat} (x : BitVec k) :
    (native host w x).length = w := host.length_encode w x.toNat

theorem nativeValue_native (host : ByteOrder) {k w : Nat} (x : BitVec k)
    (hk : 2 ^ k ≤ 256 ^ w) : nativeValue host k (native host w x) = x :=
  host.ofNat_decode_encode x hk

namespace Message

/-- `memcpy(&data[data_length], src, n); updateDataLength(n);` -/
def appendChunk (src : List UInt8) : Program Message Unit := do
  let m ← Program.get
  memcpyTo m.dataLength src
  updateDataLength src.length

def putChunks : List (List UInt8) → Program Message Unit
  | [] => pure ()
  | c :: cs => do
    appendChunk c
    putChunks cs

/-- The text of the `domain_error` every `put` throws. -/
def exceededMaximum : String := "exceeded maximum message size"

/-- The body the puts share: test the room for `need` bytes, then copy the chunks. -/
def putElement (need : Nat) (chunks : List (List UInt8)) : Program Message Unit := do
  let m ← Program.get
  if sizeT (m.dataLength + need) ≤ maxMsgData then putChunks chunks
  else Program.throw exceededMaximum

/-! ## Fixed width -/

def putBool (val : Bool) : Program Message Unit :=
  putElement (1 + 1) [[dataTypeBool], [if val then 1 else 0]]

def putByte (val : Int8) : Program Message Unit :=
  putElement (1 + 1) [[dataTypeByte], [val.toUInt8]]

def putShort (val : Int16) : Program Message Unit :=
  putElement (1 + 2) [[dataTypeShort], littleBuf 2 val.toBitVec]

def putInt (val : Int32) : Program Message Unit :=
  putElement (1 + 4) [[dataTypeInt], littleBuf 4 val.toBitVec]

def putLong (val : Int32) : Program Message Unit :=
  putElement (1 + 4) [[dataTypeLong], littleBuf 4 val.toBitVec]

def putLongLong (val : Int64) : Program Message Unit :=
  putElement (1 + 8) [[dataTypeLongLong], littleBuf 8 val.toBitVec]

def putFloat (host : ByteOrder) (val : BitVec 32) : Program Message Unit :=
  putElement (1 + 4) [[dataTypeFloat], native host 4 val]

def putDouble (host : ByteOrder) (val : BitVec 64) : Program Message Unit :=
  putElement (1 + 8) [[dataTypeDouble], native host 8 val]

def putChar (val : UInt8) : Program Message Unit :=
  putElement (1 + 1) [[dataTypeChar], [val]]

def putWChar (host : ByteOrder) (val : BitVec 32) : Program Message Unit :=
  putElement (1 + 4) [[dataTypeWChar], native host 4 val]

/-- `nval` is an unsigned buffer here: the `time_t` is converted to `uint64_t`. -/
def putTime (val : Int64) : Program Message Unit :=
  putElement (1 + 8) [[dataTypeTime], littleBuf 8 val.toUInt64.toBitVec]

def putDuration (val : UInt32) : Program Message Unit :=
  putElement (1 + 4) [[dataTypeDuration], littleBuf 4 val.toBitVec]

/-! ## Strings -/

def putString (host : ByteOrder) (val : StdString) : Program Message Unit :=
  let l := val.chars.length
  let dt := if l > 255 then dataTypeString2 else dataTypeString1
  let elemSize := sizeT (l * 1)
  if dt = dataTypeString1 then
    -- `memcpy(&data[data_length], &l, sizeof(uint8_t))`: the first byte of a native `size_t`
    putElement (1 + 1 + elemSize) [[dt], (host.encode 8 l).take 1, val.chars]
  else if dt = dataTypeString2 then
    putElement (1 + 2 + sizeT (l * 1)) [[dt], leBytes 2 l, val.chars]
  else
    Program.throw exceededMaximum

def putWString (host : ByteOrder) (val : StdWString) : Program Message Unit :=
  let l := val.chars.length
  let dt := if l > 255 then dataTypeWString2 else dataTypeWString1
  if dt = dataTypeWString1 then
    putElement (1 + 1 + sizeT (l * 4)) [[dt], [UInt8.ofNat l], val.chars.flatMap (native host 4)]
  else if dt = dataTypeWString2 then do
    putElement (1 + 2 + sizeT (l * 4)) [[dt], leBytes 2 l, val.chars.flatMap (native host 4)]
    -- a second advance, which the length field in the block does not see
    Program.modify fun m => { m with dataLength := sizeT (m.dataLength + sizeT (l * 4)) }
  else
    Program.throw exceededMaximum

end Message

/-! ## Calls

One value for each call of a `put`: the fixed-width kinds and the two string kinds. -/

inductive ScalarKind where
  | bool | byte | short | int | long | longLong | float | double | char | wchar | time | duration
  deriving DecidableEq, Repr

inductive ScalarValue where
  | bool (val : Bool)
  | byte (val : Int8)
  | short (val : Int16)
  | int (val : Int32)
  | long (val : Int32)
  | longLong (val : Int64)
  | float (val : BitVec 32)
  | double (val : BitVec 64)
  | char (val : UInt8)
  | wchar (val : BitVec 32)
  | time (val : Int64)
  | duration (val : UInt32)
  deriving DecidableEq

inductive Value where
  | scalar (val : ScalarValue)
  | string (val : StdString)
  | wstring (val : StdWString)
  deriving DecidableEq

def ScalarValue.kind : ScalarValue → ScalarKind
  | .bool _ => .bool
  | .byte _ => .byte
  | .short _ => .short
  | .int _ => .int
  | .long _ => .long
  | .longLong _ => .longLong
  | .float _ => .float
  | .double _ => .double
  | .char _ => .char
  | .wchar _ => .wchar
  | .time _ => .time
  | .duration _ => .duration

def ScalarValue.put (host : ByteOrder) : ScalarValue → Program Message Unit
  | .bool val => Message.putBool val
  | .byte val => Message.putByte val
  | .short val => Message.putShort val
  | .int val => Message.putInt val
  | .long val => Message.putLong val
  | .longLong val => Message.putLongLong val
  | .float val => Message.putFloat host val
  | .double val => Message.putDouble host val
  | .char val => Message.putChar val
  | .wchar val => Message.putWChar host val
  | .time val => Message.putTime val
  | .duration val => Message.putDuration val

def Value.put (host : ByteOrder) : Value → Program Message Unit
  | .scalar val => val.put host
  | .string val => Message.putString host val
  | .wstring val => Message.putWString host val

end Kcmsg
