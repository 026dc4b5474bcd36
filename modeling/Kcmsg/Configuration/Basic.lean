import Kcmsg.Library.Program

/-!
# The configuration store

A `Configuration` maps keys to properties and fills the map from a JSON file. The file is parsed
into a property tree, and `mapProperties` walks the tree with three vectors: the keys on the way
(`kp`), the values collected (`vp`), and for every level the number of children still to come
(`num`). All of them, and the map of properties, are passed by value, so what a call does to its
own copies is not seen by its caller; here that is a function whose result is not used.

An access outside a vector (`num.end()[-2]` with less than two elements, `pop_back` of an empty
one) makes the walk undefined, which is the value `none`.
-/

namespace Kcmsg

/-! ## Properties -/

inductive PropType where
  | null
  | boolean
  | number
  | string
  | booleanArray
  | numberArray
  | stringArray
  deriving DecidableEq

/-- A property with its value behind it: of the two types `insertProperty` makes. -/
inductive Property where
  | string (value : String)
  | stringArray (value : List String)
  deriving DecidableEq, Repr

namespace Property

def getType : Property → PropType
  | string _ => .string
  | stringArray _ => .stringArray

/-- Asked of a property that holds a string only. -/
def getValue : Property → String
  | string value => value
  | stringArray _ => ""

/-- Asked of a property that holds an array only. -/
def getValueVector : Property → List String
  | string _ => []
  | stringArray value => value

end Property

/-- A map from keys to properties. -/
def Store : Type := String → Option Property

namespace Store

def empty : Store := fun _ => none

/-- `props[key] = p` -/
def set (props : Store) (key : String) (p : Property) : Store := fun k =>
  if k = key then some p else props k

/-- `for (auto &it : props) properties[it.first] = it.second;` -/
def overwrite (properties props : Store) : Store := fun k => (props k).or (properties k)

end Store

namespace Configuration

def getProperty (properties : Store) (key : String) : String :=
  match properties key with
  | some prop =>
      match prop.getType with
      | .null | .boolean | .number | .string => prop.getValue
      | _ => ""
  | none => ""

def getPropertyVector (properties : Store) (key : String) : List String :=
  match properties key with
  | some prop =>
      match prop.getType with
      | .booleanArray | .numberArray | .stringArray => prop.getValueVector
      | _ => []
  | none => []

def propertyExists (properties : Store) (key : String) : Bool := (properties key).isSome

end Configuration

/-! ## Property trees -/

/-- The children of a node of a `ptree`, in order: each with its key, its data and its own
children. -/
inductive Children where
  | nil
  | cons (key data : String) (sub rest : Children)
  deriving DecidableEq

/-- `size()`: the number of direct children. -/
def Children.size : Children → Nat
  | nil => 0
  | cons _ _ _ rest => rest.size + 1

/-- A `ptree`. -/
structure Ptree where
  data : String
  children : Children
  deriving DecidableEq

/-! ## The tree walk -/

/-- `pop_back()`, undefined on an empty vector. -/
def popBack (v : List String) : Option (List String) :=
  if v = [] then none else some v.dropLast

/-- The key of a path: its elements with dots between them. -/
def joinKey (kp : List String) : String :=
  kp.foldl (fun key k => if key = "" then key ++ k else key ++ "." ++ k) ""

/-- The map the callee is left with, which is a copy of its own. -/
def insertProperty (kp vp : List String) (props : Store) : Option Store :=
  let key := joinKey kp
  match vp with
  | [] => do
      let _ ← popBack kp
      return props
  | [v] => return props.set key (.string v)
  | vs => return props.set key (.stringArray vs)

/-- A call of `insertProperty`, by the vectors it is given. -/
structure InsertCall where
  kp : List String
  vp : List String
  deriving DecidableEq, Repr

/-- The vectors of one activation of `mapProperties`; the back of `num` comes first. -/
structure Locals where
  kp : List String
  vp : List String
  num : List UInt32
  deriving DecidableEq

/-- The inner loop, with `top` and `num` for the vector of counters: drop the levels that are
exhausted, and count each of them off at the level below. -/
def popZeros (kp vp : List String) (top : UInt32) (num : List UInt32) : Option Locals :=
  if top = 0 then do
    let kp ← popBack kp
    match num with
    | [] => return ⟨kp, vp, []⟩
    | m :: num => popZeros kp vp (m - 1) num
  else return ⟨kp, vp, top :: num⟩

/-- The body of the loop for one child, up to the recursive call: the calls it makes, and the
vectors it leaves. -/
def visit (props : Store) (s : Locals) (key data : String) (size : Nat) :
    Option (List InsertCall × Locals) :=
  let n := UInt32.ofNat size
  let kp := if key = "" then s.kp else s.kp ++ [key]
  let vp := if data = "" then s.vp else s.vp ++ [data]
  if n = 0 then
    match s.num with
    | [] => none
    | m :: num =>
        if key = "" then
          -- an array element: only the last one inserts, and clears the values
          if m - 1 = 0 then do
            let _ ← insertProperty kp vp props
            return ([⟨kp, vp⟩], ← popZeros kp [] (m - 1) num)
          else return ([], ← popZeros kp vp (m - 1) num)
        else do
          let _ ← insertProperty kp vp props
          let popped ← popBack kp
          return ([⟨kp, vp⟩], ← popZeros popped [] (m - 1) num)
  else return ([], ← popZeros kp vp n s.num)

/-- The calls of `insertProperty`, in order. -/
def mapProperties (props : Store) (s : Locals) : Children → Option (List InsertCall)
  | .nil => return []
  | .cons key data sub rest => do
      let (calls, s) ← visit props s key data sub.size
      -- passed by value: the next child starts from the same vectors as the recursion
      let below ← mapProperties props s sub
      let others ← mapProperties props s rest
      return calls ++ below ++ others

/-! ## Loading -/

/-- What is at a path, as far as `readConfigurationFile` can tell. -/
inductive ConfFile where
  | missing
  | irregular
  | malformed (what : String)
  | json (pt : Ptree)

def enoent : Int := 2

namespace Configuration

/-- `props` stays as it is: the walk gets a copy of it. -/
def readConfigurationFile (conffile : ConfFile) : Program Store Int := fun properties =>
  let props := Store.empty
  match conffile with
  | .missing => .returns enoent properties
  | .irregular => .returns 0 (properties.overwrite props)
  | .malformed what => .throws what properties
  | .json pt =>
      match mapProperties props ⟨[], [], []⟩ pt.children with
      | some _ => .returns 0 (properties.overwrite props)
      | none => .faults

end Configuration

end Kcmsg
