import Kcmsg.Library.Blocks
import Kcmsg.Configuration.Basic

/-!
# Property objects

A `Property` is a type byte and a pointer to a string or to a vector of strings. Only the
constructor and `setValueVector` set the pointer; every other method goes by what the type, or the
method itself, says is behind it, and so does the destructor, which releases it.

`setType` lets the type and the pointer drift apart, and `setValueVector` keeps the address of its
own parameter, which is gone when the call returns. A lifetime is the calls of any program with
the destructor after them.
-/

namespace Kcmsg

/-! ## Types -/

def PROP_TYPE_NULL : UInt8 := 0x00
def PROP_TYPE_BOOLEAN : UInt8 := 0x01
def PROP_TYPE_NUMBER : UInt8 := 0x02
def PROP_TYPE_STRING : UInt8 := 0x03
def PROP_TYPE_BOOLEAN_ARRAY : UInt8 := 0x04
def PROP_TYPE_NUMBER_ARRAY : UInt8 := 0x05
def PROP_TYPE_STRING_ARRAY : UInt8 := 0x06

theorem string_ne_stringArray : PROP_TYPE_STRING ≠ PROP_TYPE_STRING_ARRAY := by decide

/-- A property as it lies in memory; the null pointer is `none`. -/
structure PropertyObject where
  value_type : UInt8
  value : Option Nat
  deriving DecidableEq

/-- What a configuration allocates. -/
inductive Content where
  | string (s : String)
  | vector (values : List String)
  | property (p : PropertyObject)
  deriving DecidableEq

inductive ContentKind where
  | string
  | vector
  | property
  deriving DecidableEq

def Content.kind : Content → ContentKind
  | string _ => .string
  | vector _ => .vector
  | property _ => .property

/-- `*static_cast<std::string *>(value)` -/
def loadString (p : Option Nat) : Program (Blocks Content) String := do
  match ← Blocks.load p with
  | .string s => return s
  | _ => Program.orFault none

/-- `*static_cast<std::vector<std::string> *>(value)` -/
def loadVector (p : Option Nat) : Program (Blocks Content) (List String) := do
  match ← Blocks.load p with
  | .vector values => return values
  | _ => Program.orFault none

/-! ## Methods -/

namespace PropertyObject

/-- `Property()` -/
def null : PropertyObject := ⟨PROP_TYPE_NULL, none⟩

def setType (ptype : UInt8) (p : PropertyObject) : PropertyObject := { p with value_type := ptype }

def setValue (s : String) (p : PropertyObject) : Program (Blocks Content) Unit := do
  let _ ← loadString p.value
  match p.value with
  | some sp => Blocks.assign sp (.string s)
  | none => Program.orFault none

/-- The pointer is to the parameter, whose life ends with the call; what was there before is left
behind. -/
def setValueVector (values : List String) (p : PropertyObject) :
    Program (Blocks Content) PropertyObject := do
  let vp ← Blocks.new (.vector values)
  Blocks.release Content.kind (vp, .vector)
  return { p with value := some vp }

def getType (p : PropertyObject) : UInt8 := p.value_type

def getValue (p : PropertyObject) : Program (Blocks Content) String := loadString p.value

def getValueVector (p : PropertyObject) : Program (Blocks Content) (List String) :=
  loadVector p.value

def typeName (value_type : UInt8) : String :=
  if value_type = PROP_TYPE_NULL then "PROP_TYPE_NULL"
  else if value_type = PROP_TYPE_STRING then "PROP_TYPE_STRING"
  else if value_type = PROP_TYPE_STRING_ARRAY then "PROP_TYPE_STRING_ARRAY"
  else "PROP_TYPE_UNKNOWN"

def stringText (s : String) : String := "\"" ++ s ++ "\"\n\n"

/-- The index of the lines is never counted up. -/
def vectorText (v : List String) : String :=
  v.foldl (fun out it => out ++ "- [0] \"" ++ it ++ "\"\n") "" ++ "\n"

/-- The text printed. -/
def dumpProperty (p : PropertyObject) : Program (Blocks Content) String := do
  let pt := "( " ++ typeName p.value_type ++ " ) "
  if p.value_type = PROP_TYPE_STRING then
    let s ← loadString p.value
    return pt ++ stringText s
  else if p.value_type = PROP_TYPE_STRING_ARRAY then
    let v ← loadVector p.value
    return pt ++ vectorText v
  else return pt ++ " ????? \n"

/-- `~Property()` -/
def destroy (p : PropertyObject) : Program (Blocks Content) Unit :=
  match p.value with
  | none => pure ()
  | some a =>
      if p.value_type = PROP_TYPE_STRING then Blocks.release Content.kind (a, .string)
      else if p.value_type = PROP_TYPE_STRING_ARRAY then Blocks.release Content.kind (a, .vector)
      else pure ()

end PropertyObject

/-! ## Calls -/

inductive PropertyCall where
  | setType (ptype : UInt8)
  | setValue (s : String)
  | setValueVector (values : List String)
  | getType
  | getValue
  | getValueVector
  | dumpProperty

/-- What the caller gets from a call. -/
inductive PropertyReply where
  | done
  | type (ptype : UInt8)
  | value (s : String)
  | values (values : List String)
  | printed (text : String)
  deriving DecidableEq

/-- A property and the memory it points into. -/
structure Holder where
  object : PropertyObject
  blocks : Blocks Content
  deriving DecidableEq

namespace Holder

/-- A method that leaves the object as it is. -/
def within {α : Type} (x : PropertyObject → Program (Blocks Content) α) : Program Holder α :=
  fun s => (Program.zoom blocks (fun h s => { s with blocks := h }) (x s.object)).run s

end Holder

namespace PropertyCall

def run : PropertyCall → Program Holder PropertyReply
  | setType ptype => do
      Program.modify fun s => { s with object := s.object.setType ptype }
      return .done
  | setValue s => do
      Holder.within (PropertyObject.setValue s)
      return .done
  | setValueVector values => do
      let object ← Holder.within (PropertyObject.setValueVector values)
      Program.modify fun s => { s with object := object }
      return .done
  | getType => do
      let s ← Program.get
      return .type s.object.getType
  | getValue => return .value (← Holder.within PropertyObject.getValue)
  | getValueVector => return .values (← Holder.within PropertyObject.getValueVector)
  | dumpProperty => return .printed (← Holder.within PropertyObject.dumpProperty)

/-- The calls, and the destructor after them. -/
def lifetime : List PropertyCall → Program Holder (List PropertyReply)
  | [] => do
      Holder.within PropertyObject.destroy
      return []
  | call :: calls => do
      let reply ← call.run
      let replies ← lifetime calls
      return reply :: replies

end PropertyCall

end Kcmsg
