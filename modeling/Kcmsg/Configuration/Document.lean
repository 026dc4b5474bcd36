import Kcmsg.Configuration.Basic

/-!
# Configuration documents

The JSON documents that can serve as a configuration: objects with keys that are not empty,
scalars that are not empty, and arrays of at least two such scalars, to any depth. The types leave
no room for others. `Document.toTree` is the tree `read_json` makes of one, and `Document.entries`
says what the document means: its scalars and arrays in document order, each under the keys on
the way to it.
-/

namespace Kcmsg

/-- A key or a scalar. -/
structure Token where
  text : String
  nonempty : text ≠ ""
  deriving DecidableEq

/-! The letters of the sample documents. -/

theorem a_ne_empty : "a" ≠ "" := by decide
theorem b_ne_empty : "b" ≠ "" := by decide
theorem x_ne_empty : "x" ≠ "" := by decide

/-- The members of an object, in order. An array has at least two elements. -/
inductive Members where
  | nil
  | scalar (key val : Token) (rest : Members)
  | array (key first second : Token) (more : List Token) (rest : Members)
  | object (key : Token) (sub rest : Members)
  deriving DecidableEq

inductive Document where
  | scalar (val : Token)
  | array (first second : Token) (more : List Token)
  | object (members : Members)
  deriving DecidableEq

/-! ## What a document means -/

/-- A scalar or an array, and the keys on the way to it. -/
inductive Entry where
  | scalar (path : List String) (val : String)
  | array (path : List String) (elems : List String)
  deriving DecidableEq

namespace Entry

def path : Entry → List String
  | scalar path _ => path
  | array path _ => path

/-- The call that inserts it: its path, and its one value or its elements in order. -/
def call : Entry → InsertCall
  | scalar path val => ⟨path, [val]⟩
  | array path elems => ⟨path, elems⟩

/-- The property it should become. -/
def property : Entry → Property
  | scalar _ val => .string val
  | array _ elems => .stringArray elems

end Entry

/-- The elements of an array. -/
def elements (first second : Token) (more : List Token) : List String :=
  first.text :: second.text :: more.map Token.text

namespace Members

def entries (path : List String) : Members → List Entry
  | nil => []
  | scalar key val rest => .scalar (path ++ [key.text]) val.text :: rest.entries path
  | array key first second more rest =>
      .array (path ++ [key.text]) (elements first second more) :: rest.entries path
  | object key sub rest => sub.entries (path ++ [key.text]) ++ rest.entries path

def length : Members → Nat
  | nil => 0
  | scalar _ _ rest => rest.length + 1
  | array _ _ _ _ rest => rest.length + 1
  | object _ _ rest => rest.length + 1

end Members

def Document.entries : Document → List Entry
  | scalar val => [.scalar [] val.text]
  | array first second more => [.array [] (elements first second more)]
  | object members => members.entries []

/-! ## The tree of a document -/

/-- Array elements become children with an empty key. -/
def elementNodes : List String → Children
  | [] => .nil
  | e :: es => .cons "" e .nil (elementNodes es)

/-- Object members carry their key; only scalars have data. -/
def Members.toChildren : Members → Children
  | nil => .nil
  | scalar key val rest => .cons key.text val.text .nil rest.toChildren
  | array key first second more rest =>
      .cons key.text "" (elementNodes (elements first second more)) rest.toChildren
  | object key sub rest => .cons key.text "" sub.toChildren rest.toChildren

def Document.toTree : Document → Ptree
  | scalar val => ⟨val.text, .nil⟩
  | array first second more => ⟨"", elementNodes (elements first second more)⟩
  | object members => ⟨"", members.toChildren⟩

@[simp] theorem size_elementNodes (es : List String) : (elementNodes es).size = es.length := by
  induction es with
  | nil => rfl
  | cons e es ih => rw [elementNodes, Children.size, ih, List.length_cons]

@[simp] theorem Members.size_toChildren (ms : Members) : ms.toChildren.size = ms.length := by
  induction ms with
  | nil => rfl
  | scalar key val rest ih => rw [toChildren, Children.size, ih, length]
  | array key first second more rest ih => rw [toChildren, Children.size, ih, length]
  | object key sub rest _ ih => rw [toChildren, Children.size, ih, length]

theorem length_elements (first second : Token) (more : List Token) :
    (elements first second more).length = more.length + 2 := by
  rw [elements, List.length_cons, List.length_cons, List.length_map]

theorem ne_empty_of_mem_elements {first second : Token} {more : List Token} {e : String}
    (h : e ∈ elements first second more) : e ≠ "" := by
  rcases List.mem_cons.mp h with rfl | h
  · exact first.nonempty
  · rcases List.mem_cons.mp h with rfl | h
    · exact second.nonempty
    · obtain ⟨t, -, rfl⟩ := List.mem_map.mp h
      exact t.nonempty

end Kcmsg
