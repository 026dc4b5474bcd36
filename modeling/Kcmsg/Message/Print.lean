import Kcmsg.Library.Numerals
import Kcmsg.Library.While
import Kcmsg.Message.Calls

/-!
# The debug printout

`debugMessagePrint` writes the header fields and then goes through the elements behind `offset`:
in every round of its loop it looks at the tag at the cursor, and the `switch` on the tag calls the
getter of the kind, which moves the cursor. Where the getter does not return, neither does the
round.

A `Console` is what such a call works on: the message, the formatting state of `std::cout`, which
outlives the call, and the lines written so far, each up to its `std::endl`. The `ios` state has
the flags that the manipulators of `debugMessagePrint` set; nothing takes them back. The characters
of `std::cout` are bytes. How a floating point number is written is a parameter, and so is what
`malloc` makes of the requests of each round.
-/

namespace Kcmsg

/-! ## Data type identifiers of arrays -/

def dataTypeBoolArray : UInt8 := 0x11
def dataTypeByteArray : UInt8 := 0x12
def dataTypeShortArray : UInt8 := 0x13
def dataTypeIntArray : UInt8 := 0x14
def dataTypeLongArray : UInt8 := 0x15
def dataTypeLongLongArray : UInt8 := 0x16
def dataTypeFloatArray : UInt8 := 0x17
def dataTypeDoubleArray : UInt8 := 0x18
def dataTypeStringArray : UInt8 := 0x19
def dataTypeWStringArray : UInt8 := 0x1A
def dataTypeTimeArray : UInt8 := 0x1B
def dataTypeDurrationArray : UInt8 := 0x1C

def arrayTypes : List UInt8 :=
  [dataTypeBoolArray, dataTypeByteArray, dataTypeShortArray, dataTypeIntArray, dataTypeLongArray,
    dataTypeLongLongArray, dataTypeFloatArray, dataTypeDoubleArray, dataTypeStringArray,
    dataTypeWStringArray, dataTypeTimeArray, dataTypeDurrationArray]

/-! ## Streams -/

/-- The part of the formatting state of `std::cout` that is ever changed here. -/
structure Ios where
  boolalpha : Bool
  hex : Bool
  fixed : Bool
  precision : Nat
  deriving DecidableEq

/-- `std::cout` as it is initialised. -/
def Ios.init : Ios := ⟨false, false, false, 6⟩

/-- A line, up to its end. -/
inductive Output where
  | cout (line : String)
  | wcout (line : List (BitVec 32))
  deriving DecidableEq

structure Console where
  msg : Message
  ios : Ios
  out : List Output

/-- How `std::cout` writes a `float` and a `double`. -/
structure FloatText where
  float : Ios → BitVec 32 → String
  double : Ios → BitVec 64 → String

namespace Ios

def showBool (ios : Ios) (val : Bool) : String :=
  if ios.boolalpha then (if val then "true" else "false") else (if val then "1" else "0")

/-- A character, signed or not, is written as it is. -/
def showChar (_ : Ios) (val : UInt8) : String := String.singleton (Char.ofNat val.toNat)

/-- A signed integer; in hexadecimal it is converted to the unsigned type of its width. -/
def showInt (ios : Ios) {w : Nat} (val : BitVec w) : String :=
  if ios.hex then hexadecimal val else decimal val.toInt

def showUnsigned (ios : Ios) {w : Nat} (val : BitVec w) : String :=
  if ios.hex then hexadecimal val else decimal val.toNat

end Ios

/-- One tag, a text and the closing tag, indented by `n`. -/
def tagged (n : Nat) (name text : String) : String :=
  String.ofList (List.replicate n ' ') ++ "<" ++ name ++ ">" ++ text ++ "</" ++ name ++ ">"

def wide (s : String) : List (BitVec 32) := s.toList.map fun c => BitVec.ofNat 32 c.toNat

/-! ## The calendar -/

/-- The members of a `struct tm` that are written; `tm_zone` is always `GMT`, `tm_isdst` zero. -/
structure Tm where
  sec : Int
  min : Int
  hour : Int
  mday : Int
  mon : Int
  year : Int
  wday : Int
  yday : Int
  deriving DecidableEq

/-- The day of the Gregorian calendar `z` days after the first of March of the year 0: its year,
counted from March, the days since then, and the month, counted from March. -/
def marchDate (z : Int) : Int × Int × Int :=
  let era := z / 146097
  let doe := z % 146097
  let yoe := (doe - doe / 1460 + doe / 36524 - doe / 146096) / 365
  let doy := doe - (365 * yoe + yoe / 4 - yoe / 100)
  (yoe + era * 400, doy, (5 * doy + 2) / 153)

def isLeap (y : Int) : Bool := y % 4 = 0 ∧ (y % 100 ≠ 0 ∨ y % 400 = 0)

/-- `gmtime`: a null pointer if the year does not fit its member. -/
def gmtime (t : Int64) : Option Tm :=
  let days := t.toInt / 86400
  let rem := t.toInt % 86400
  let (y, doy, mp) := marchDate (days + 719468)
  let mon := if mp < 10 then mp + 2 else mp - 10
  let year := if mp < 10 then y else y + 1
  -- March is preceded by 59 days or 60
  let yday := if mp < 10 then doy + 59 + (if isLeap year then 1 else 0) else doy - 306
  if -2 ^ 31 ≤ year - 1900 ∧ year - 1900 < 2 ^ 31 then
    some {
      sec := rem % 60
      min := rem / 60 % 60
      hour := rem / 3600
      mday := doy - (153 * mp + 2) / 5 + 1
      mon := mon
      year := year - 1900
      wday := (days + 4) % 7
      yday := yday }
  else none

namespace Console

/-! ## The cases -/

/-- A call of one of the message's own functions. -/
def onMessage {α : Type} (x : Program Message α) : Program Console α :=
  Program.zoom Console.msg (fun m c => { c with msg := m }) x

def manipulate (f : Ios → Ios) : Program Console Unit :=
  Program.modify fun c => { c with ios := f c.ios }

/-- `std::cout << line << std::endl;` -/
def writeLines (lines : List String) : Program Console Unit :=
  Program.modify fun c => { c with out := c.out ++ lines.map .cout }

/-- `std::cout << "<name>" << manipulator << get() << "</name>" << std::endl;` -/
def element {α : Type} (name : String) (manipulator : Ios → Ios) (get : Program Message α)
    (text : Ios → α → String) : Program Console Unit := do
  manipulate manipulator
  let val ← onMessage get
  let c ← Program.get
  writeLines [tagged 8 name (text c.ios val)]

def boolalpha (ios : Ios) : Ios := { ios with boolalpha := true }
def hex (ios : Ios) : Ios := { ios with hex := true }
def fixed3 (ios : Ios) : Ios := { ios with fixed := true, precision := 3 }

/-- The lines of a time; its members are of type `int`. -/
def timeLines (ios : Ios) (tm : Tm) : List String :=
  let int (i : Int) : String := ios.showInt (BitVec.ofInt 32 i)
  ["        <time>",
    tagged 12 "seconds" (int tm.sec),
    tagged 12 "minutes" (int tm.min),
    tagged 12 "hours" (int tm.hour),
    tagged 12 "day_of_month" (int tm.mday),
    tagged 12 "month" (int tm.mon),
    tagged 12 "day_of_week" (int tm.wday),
    tagged 12 "day_of_year" (int tm.yday),
    tagged 12 "year" (int tm.year),
    tagged 12 "time_zone" "GMT",
    tagged 12 "is_dst" "false",
    "        </time>"]

def printTime : Program Console Unit := do
  let t ← onMessage Message.getTime
  let tm ← Program.orFault (gmtime t)
  let c ← Program.get
  writeLines (timeLines c.ios tm)

variable (host : ByteOrder) (floats : FloatText) (heap : Heap)

/-- The case of a scalar kind. `getByte` and `getChar` return characters, `getWChar` a `wchar_t`,
which `std::cout` takes for an integer. -/
def printScalar : ScalarKind → Program Console Unit
  | .bool => element "bool" boolalpha Message.getBool Ios.showBool
  | .byte => element "byte" hex Message.getByte fun ios val => ios.showChar val.toUInt8
  | .short => element "short" id Message.getShort fun ios val => ios.showInt val.toBitVec
  | .int => element "int" id Message.getInt fun ios val => ios.showInt val.toBitVec
  | .long => element "long" id Message.getLong fun ios val => ios.showInt val.toBitVec
  | .longLong => element "long_long" id Message.getLongLong fun ios val => ios.showInt val.toBitVec
  | .float => element "float" fixed3 (Message.getFloat host) floats.float
  | .double => element "double" id (Message.getDouble host) floats.double
  | .char => element "char" id Message.getChar Ios.showChar
  | .wchar => element "wchar" id (Message.getWChar host) fun ios val => ios.showInt val
  | .time => printTime
  | .duration => element "duration" id Message.getDuration fun ios val =>
      ios.showUnsigned val.toBitVec

def printString : Program Console Unit :=
  element "string" id (Message.getString heap) fun _ chars =>
    String.ofList (chars.map fun b => Char.ofNat b.toNat)

/-- This one goes to `std::wcout`. -/
def printWString : Program Console Unit := do
  let chars ← onMessage (Message.getWString heap host)
  Program.modify fun c => { c with
    out := c.out ++ [.wcout (wide "        <wstring>" ++ chars ++ wide "</wstring>")] }

/-- The `switch`: the arrays have a case, and nothing in it. -/
def switchCase (dt : UInt8) : Program Console Unit :=
  if dt = dataTypeBool then printScalar host floats .bool
  else if dt = dataTypeByte then printScalar host floats .byte
  else if dt = dataTypeShort then printScalar host floats .short
  else if dt = dataTypeInt then printScalar host floats .int
  else if dt = dataTypeLong then printScalar host floats .long
  else if dt = dataTypeLongLong then printScalar host floats .longLong
  else if dt = dataTypeFloat then printScalar host floats .float
  else if dt = dataTypeDouble then printScalar host floats .double
  else if dt = dataTypeChar then printScalar host floats .char
  else if dt = dataTypeWChar then printScalar host floats .wchar
  else if dt = dataTypeString1 ∨ dt = dataTypeString2 then printString heap
  else if dt = dataTypeWString1 ∨ dt = dataTypeWString2 then printWString host heap
  else if dt = dataTypeTime then printScalar host floats .time
  else if dt = dataTypeDuration then printScalar host floats .duration
  else if dt ∈ arrayTypes then pure ()
  else Program.throw "Unknown Data Type;"

/-! ## The whole printout -/

def headerLines (ios : Ios) (m : Message) : List String :=
  let boolean (val : Bool) : String := if val then "true" else "false"
  ["Debug message printout",
    "======================",
    "<message>",
    "    <header>",
    tagged 8 "source_identifier" (ios.showUnsigned m.getSourceIdentifier.toBitVec),
    tagged 8 "source_organization" (ios.showUnsigned m.getSourceOrganization.toBitVec),
    tagged 8 "target_identifier" (ios.showUnsigned m.getTargetIdentifier.toBitVec),
    tagged 8 "target_organization" (ios.showUnsigned m.getTargetOrganization.toBitVec),
    tagged 8 "transaction_identifier" (ios.showUnsigned m.getTransactionIdentifier.toBitVec),
    tagged 8 "transaction_application" (ios.showUnsigned m.getTransactionApplication.toBitVec),
    tagged 8 "transaction_organization" (ios.showUnsigned m.getTransactionOrganization.toBitVec),
    tagged 8 "ttl" (ios.showUnsigned m.getTTL.toBitVec),
    tagged 8 "is_once" (boolean m.isOnceAndOnlyOnce),
    tagged 8 "is_quick_death" (boolean m.isQuickDeath),
    tagged 8 "is_fragment" (boolean m.isMessageFragment),
    "    </header>",
    "    <data>"]

/-- `offset < data_length` -/
def unread (c : Console) : Bool := c.msg.offset < c.msg.dataLength

/-- One round of the loop. -/
def printElement : Program Console Unit := do
  let dt ← onMessage Message.getDataType
  switchCase host floats heap dt

def printHeader (c : Console) : Console :=
  { c with out := c.out ++ (headerLines c.ios c.msg).map .cout }

/-- What is written when the loop is left by its test. -/
def printFooter (c : Console) : Console :=
  { c with out := c.out ++ ["    </data>", "</message>"].map .cout }

/-- The loop, in round `i` with the heap `heaps i`. -/
def loop (heaps : Nat → Heap) (fuel : Nat) (c : Console) : Option (Outcome Console Unit) :=
  whileLoop unread (fun i => printElement host floats (heaps i)) fuel 0 c

/-- The function, with `fuel` rounds at most. -/
def debugMessagePrint (heaps : Nat → Heap) (fuel : Nat) (c : Console) :
    Option (Outcome Console Unit) :=
  (loop host floats heaps fuel (printHeader c)).map fun x =>
    match x with
    | .returns _ c' => .returns () (printFooter c')
    | .throws what c' => .throws what c'
    | .aborts => .aborts
    | .faults => .faults

end Console

/-- The first second of 1970, and of the leap day of 2000. -/
example : (gmtime 0).map (fun tm => [tm.year, tm.mon, tm.mday, tm.wday, tm.yday]) =
      some [70, 0, 1, 4, 0] ∧
    (gmtime 951782400).map (fun tm => [tm.year, tm.mon, tm.mday, tm.wday, tm.yday]) =
      some [100, 1, 29, 2, 59] := by decide

end Kcmsg
