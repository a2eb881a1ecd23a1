import HeapLens.Proofs.Print.Depth
import HeapLens.Proofs.View.Children

/-!
Sharing in a printed tree. The first row for an object is the one that shows it in full; any later
row for it is marked and has nothing below it. The marked set is the set of the objects shown in
full, so the rows can be counted by it: an object brings its children and at most one more row.
-/
namespace HeapLens
open Run

namespace Visited

end Visited

def Row.opened (rows : List Row) : List UInt64 := rows.filterMap Row.opened?

theorem opened_cons (row : Row) (rows : List Row) :
    Row.opened (row :: rows) = row.opened?.toList ++ Row.opened rows := by
  rw [Row.opened, List.filterMap_cons]
  cases row.opened? <;> rfl

theorem opened_append (rows others : List Row) :
    Row.opened (rows ++ others) = Row.opened rows ++ Row.opened others :=
  List.filterMap_append

theorem opened_remainder (v : View) (level : Nat) : Row.opened (v.remainder level) = [] := by
  unfold View.remainder
  split <;> rfl

/-- What has no address brings no rows; an object brings its children and one row at most. -/
theorem View.length_below (v : View) (level : Nat) {width : Nat}
    (narrow : v.children.length ≤ width) :
    v.references.length + (v.remainder level).length ≤ v.address?.toList.length * (width + 1) := by
  rw [View.references, List.length_map]
  cases object : v.address? with
  | none =>
    rw [View.children_of_immediate object, View.remainder, View.omitted_of_immediate object]
    exact Nat.zero_le _
  | some a =>
    have one : (v.remainder level).length ≤ 1 := by
      unfold View.remainder
      split <;> simp
    simp only [Option.toList, List.length_singleton]
    omega

namespace Outline
variable {i : Inspector} {below level : Nat} {rs : List Reference} {m m' : Moment}
  {rows : List Row}

/-- An object pays for its children and for the row about the omitted ones. -/
theorem length_le {width : Nat} (h : Outline i below level rs m rows m')
    (narrow : ∀ word, Ensures (i.interpret word) fun v => v.children.length ≤ width) :
    rows.length ≤ rs.length + (Row.opened rows).length * (width + 1) := by
  induction h with
  | nil => exact Nat.zero_le _
  | failure read tail ih | seen read known tail ih =>
    simp only [List.length_cons, opened_cons, Row.opened?, Option.toList, List.nil_append]
    omega
  | @last level r rs m m' rows view trace read fresh tail ih =>
    rw [opened_cons, List.length_append, Nat.add_mul]
    simp only [List.length_cons]
    omega
  | @opened below level r rs m m' m'' inside rows view trace read fresh inner tail ihInner ihTail =>
    -- the rows of the children were counted by their number, which the object pays for
    have paid := view.length_below (level + 1) ((narrow r.word).result m.trace view trace read)
    rw [opened_cons, opened_append, opened_append, opened_remainder, List.append_nil]
    simp only [List.length_cons, List.length_append, Nat.add_mul, Row.opened?]
    omega

end Outline

end HeapLens
