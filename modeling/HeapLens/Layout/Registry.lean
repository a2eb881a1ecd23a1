import HeapLens.Error
import HeapLens.Layout.Basic
import HeapLens.Ordered
import HeapLens.Text.Blank

/-!
Layouts by name. A name is looked up without the white space around it, and every star behind it,
with or without white space between, makes the pointer type of what stands before.
-/
namespace HeapLens
open HeapLens.Text

structure Registry where
  entries : List (String × Layout)

namespace Registry

def empty : Registry := ⟨[]⟩

def size (r : Registry) : Nat := r.entries.length

def get? (r : Registry) (name : String) : Option Layout := r.entries.lookup name

/-- Adds a layout under its own name, or replaces the one of that name where it stands. -/
def insert (r : Registry) (l : Layout) : Registry := ⟨Ordered.put r.entries l.name l⟩

def isTail (c : Char) : Bool := isBlank c || c == '*'

/-- The base of a type name, and how many stars stand behind it. -/
def splitStars (name : List Char) : List Char × Nat :=
  let backwards := name.reverse
  (trimLeft (backwards.dropWhile isTail).reverse, (backwards.takeWhile isTail).count '*')

def pointers (l : Layout) : Nat → Layout
  | 0 => l
  | count + 1 => (pointers l count).pointerTo

def lookup (r : Registry) (name : String) : Except AccessError Layout :=
  let (base, stars) := splitStars name.toList
  match r.get? (String.ofList base) with
  | some l => .ok (pointers l stars)
  | none => .error (.unknownType (String.ofList base))

end Registry
end HeapLens
