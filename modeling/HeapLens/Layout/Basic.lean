/-!
Layouts of target types. A layout has a name, a size in bytes and a kind; the members of a record
are kept in order, and nested ones are flattened into dotted names.
-/
namespace HeapLens

/-- The size of a machine word and of every pointer made here. -/
def wordSize : UInt64 := 8

inductive Layout where
  | integer (name : String) (size : UInt64) (signed : Bool)
  | float (name : String) (size : UInt64)
  | pointer (name : String) (size : UInt64) (target : Layout)
  | record (name : String) (size : UInt64) (members : List (String × UInt64 × Layout))

namespace Layout

def name : Layout → String
  | .integer name _ _ | .float name _ | .pointer name _ _ | .record name _ _ => name

def size : Layout → UInt64
  | .integer _ size _ | .float _ size | .pointer _ size _ | .record _ size _ => size

/-- The type of pointers to a type: its name, a space and a star. -/
def pointerTo (target : Layout) : Layout := .pointer (target.name ++ " *") wordSize target

def target? : Layout → Option Layout
  | .pointer _ _ target => some target
  | _ => none

def isPointer (l : Layout) : Bool := l.target?.isSome

def isRecord : Layout → Bool
  | .record .. => true
  | _ => false

def isSigned : Layout → Bool
  | .integer _ _ signed => signed
  | _ => false

/-- Whether a value of the type is a single machine word or less. -/
def isScalar (l : Layout) : Bool := !l.isRecord && l.size ≤ wordSize

def member? (l : Layout) (field : String) : Option (UInt64 × Layout) :=
  match l with
  | .record _ _ members => members.lookup field
  | _ => none

@[simp] theorem name_pointerTo (l : Layout) : l.pointerTo.name = l.name ++ " *" := rfl

@[simp] theorem size_pointerTo (l : Layout) : l.pointerTo.size = wordSize := rfl

@[simp] theorem target?_pointerTo (l : Layout) : l.pointerTo.target? = some l := rfl

end Layout
end HeapLens
