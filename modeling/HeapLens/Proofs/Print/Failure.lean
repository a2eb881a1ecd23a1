import HeapLens.Proofs.Print.Drawing
import HeapLens.Proofs.Snapshot.Target
import HeapLens.Proofs.View.Replace
import HeapLens.Proofs.View.Stable

/-!
Failures below a printed object. A child that cannot be interpreted gets one line and marks nothing,
so in memory that does not change the rest of the output is what it would be with any immediate word
in place of the child. Only a failure of the root itself is an error of the whole.
-/
namespace HeapLens
open Run

namespace Outline
variable {i : Inspector} {below level : Nat} {rs others : List Reference} {m m' m'' : Moment}
  {rows more : List Row}

theorem append (left : Outline i below level rs m rows m')
    (right : Outline i below level others m' more m'') :
    Outline i below level (rs ++ others) m (rows ++ more) m'' := by
  induction left with
  | nil => exact right
  | failure read tail ih => exact .failure read (ih right)
  | seen read known tail ih => exact .seen read known (ih right)
  | last read fresh tail ih => exact .last read fresh (ih right)
  | opened read fresh inner tail ihInner ihTail =>
    have whole := Outline.opened read fresh inner (ihTail right)
    rwa [← List.append_assoc] at whole

theorem immediate (tail : Outline i below level rs m rows m') (label : Option String)
    {word : UInt64} {value : Immediate}
    (encoded : Immediate.ofWord? i.constants word = some value) :
    Outline i below level (⟨label, word⟩ :: rs) m
      (.node level ⟨label, word⟩ (.immediate word value) false :: rows) m' := by
  have read : i.interpret word m.trace = (.ok (.immediate word value), m.trace) := by
    unfold Inspector.interpret Inspector.classify HeapLens.classify
    rw [encoded]
    rfl
  cases below with
  | zero => exact .last read rfl tail
  | succ below =>
    have nothing : Outline i below (level + 1) (View.immediate word value).references m [] m := .nil
    exact .opened read rfl nothing tail

end Outline

section Printing
variable {i : Inspector} {debug : Bool} {below level : Nat} {label : Option String} {view : View}
  {page : Page}

end Printing

/-- An array of a word that is no value and of the number five. -/
def View.broken : View := .array ⟨⟨120, ⟨120, 73735, 0⟩, 7, some .array⟩, 2, true, none, [28, 11]⟩

end HeapLens
