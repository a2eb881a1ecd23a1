import HeapLens.Print.Tree
import HeapLens.Proofs.Run

/-!
The lines of a printed tree and what each of them was made from. `Outline` relates the words that
are to be shown to the rows of the output, in the order of printing: reads and visited objects are
threaded from one row to the next, and the rows of an object that is shown in full stand directly
below its own. Main statement: the printer draws the rows of the outline, one after the other, into
any sink, and stops at the first row that the sink does not take.
-/
namespace HeapLens
open Run

structure Reference where
  label : Option String
  word : UInt64

def Child.reference (c : Child) : Reference := ⟨some c.label, c.word⟩

def View.references (v : View) : List Reference := v.children.map Child.reference

inductive Row where
  | node (level : Nat) (reference : Reference) (view : View) (seen : Bool)
  | failure (level : Nat) (reference : Reference) (error : InspectError)
  | more (level count : Nat)

namespace Row

def level : Row → Nat
  | .node level _ _ _ | .failure level _ _ | .more level _ => level

def reference? : Row → Option Reference
  | .node _ reference _ _ | .failure _ reference _ => some reference
  | .more _ _ => none

/-- The object that the row is about. -/
def address? : Row → Option UInt64
  | .node _ _ view _ => view.address?
  | _ => none

/-- The object that the row shows in full. -/
def opened? : Row → Option UInt64
  | .node _ _ view false => view.address?
  | _ => none

def line (debug : Bool) : Row → Line
  | .node level reference view true =>
    ⟨level, reference.label, view.line ++ " (already seen)"⟩
  | .node level reference view false =>
    ⟨level, reference.label, if debug then view.line ++ view.debugText else view.line⟩
  | .failure level reference e => ⟨level, reference.label, "<error: " ++ e.message ++ ">"⟩
  | .more level count => ⟨level, none, "... " ++ toString count ++ " more"⟩

def text (debug : Bool) (rows : List Row) : String :=
  String.join (rows.map fun row => (row.line debug).render)

theorem text_cons (debug : Bool) (row : Row) (rows : List Row) :
    text debug (row :: rows) = (row.line debug).render ++ text debug rows := by
  rw [text, List.map_cons, String.join_cons]
  rfl

end Row

namespace Visited

def has (v : Visited) : Option UInt64 → Bool
  | some address => v.contains address
  | none => false

def mark (v : Visited) : Option UInt64 → Visited
  | some address => v.insert address
  | none => v

end Visited

/-- What the next row depends on besides its word. -/
structure Moment where
  trace : Trace
  visited : Visited

def Page.moment (page : Page) : Moment := ⟨page.trace, page.visited⟩

def Page.blank : Page := ⟨#[], .unbounded, .empty⟩

/-- The row about entries that the limit left out. -/
def View.remainder (v : View) (level : Nat) : List Row :=
  if v.omitted = 0 then [] else [.more level v.omitted]

/-- `Outline i below level references m rows m'`: shown one after the other from moment `m`, with
`below` more levels to go, the references give the rows and leave moment `m'`. -/
inductive Outline (i : Inspector) :
    Nat → Nat → List Reference → Moment → List Row → Moment → Prop where
  | nil {below level : Nat} {m : Moment} : Outline i below level [] m [] m
  | failure {below level : Nat} {r : Reference} {rs : List Reference} {m m' : Moment}
      {rows : List Row} {e : InspectError} {trace : Trace}
      (read : i.interpret r.word m.trace = (.error e, trace))
      (tail : Outline i below level rs ⟨trace, m.visited⟩ rows m') :
      Outline i below level (r :: rs) m (.failure level r e :: rows) m'
  | seen {below level : Nat} {r : Reference} {rs : List Reference} {m m' : Moment}
      {rows : List Row} {view : View} {trace : Trace}
      (read : i.interpret r.word m.trace = (.ok view, trace))
      (known : m.visited.has view.address? = true)
      (tail : Outline i below level rs ⟨trace, m.visited⟩ rows m') :
      Outline i below level (r :: rs) m (.node level r view true :: rows) m'
  | last {level : Nat} {r : Reference} {rs : List Reference} {m m' : Moment}
      {rows : List Row} {view : View} {trace : Trace}
      (read : i.interpret r.word m.trace = (.ok view, trace))
      (fresh : m.visited.has view.address? = false)
      (tail : Outline i 0 level rs ⟨trace, m.visited.mark view.address?⟩ rows m') :
      Outline i 0 level (r :: rs) m (.node level r view false :: rows) m'
  | opened {below level : Nat} {r : Reference} {rs : List Reference} {m m' m'' : Moment}
      {inside rows : List Row} {view : View} {trace : Trace}
      (read : i.interpret r.word m.trace = (.ok view, trace))
      (fresh : m.visited.has view.address? = false)
      (inner : Outline i below (level + 1) view.references
        ⟨trace, m.visited.mark view.address?⟩ inside m')
      (tail : Outline i (below + 1) level rs m' rows m'') :
      Outline i (below + 1) level (r :: rs) m
        (.node level r view false :: (inside ++ view.remainder (level + 1) ++ rows)) m''

namespace Inspector

/-- The rows of references, one after the other, when those of one reference are known. -/
def inTurn (one : Reference → Moment → List Row × Moment) :
    List Reference → Moment → List Row × Moment
  | [], m => ([], m)
  | r :: rs, m =>
    let (first, middle) := one r m
    let (rest, last) := inTurn one rs middle
    (first ++ rest, last)

def rowsOf (i : Inspector) (below level : Nat) (r : Reference) (m : Moment) :
    List Row × Moment :=
  match i.interpret r.word m.trace with
  | (.error e, trace) => ([.failure level r e], ⟨trace, m.visited⟩)
  | (.ok view, trace) =>
    if m.visited.has view.address? then ([.node level r view true], ⟨trace, m.visited⟩)
    else
      match below with
      | 0 => ([.node level r view false], ⟨trace, m.visited.mark view.address?⟩)
      | below + 1 =>
        let (inside, later) := inTurn (i.rowsOf below (level + 1)) view.references
          ⟨trace, m.visited.mark view.address?⟩
        (.node level r view false :: (inside ++ view.remainder (level + 1)), later)

end Inspector

theorem outline_inTurn (i : Inspector) (below level : Nat) (rs : List Reference) (m : Moment) :
    Outline i below level rs m (Inspector.inTurn (i.rowsOf below level) rs m).1
      (Inspector.inTurn (i.rowsOf below level) rs m).2 := by
  induction below using Nat.strongRecOn generalizing level rs m with
  | ind below ih =>
    induction rs generalizing m with
    | nil => exact .nil
    | cons r rs tail =>
      rw [Inspector.inTurn]
      rcases read : i.interpret r.word m.trace with ⟨e | view, trace⟩
      · rw [Inspector.rowsOf, read]
        exact .failure read (tail _)
      · cases known : m.visited.has view.address? with
        | true =>
          rw [Inspector.rowsOf, read]
          dsimp only
          rw [if_pos known]
          exact .seen read known (tail _)
        | false =>
          rw [Inspector.rowsOf, read]
          dsimp only
          rw [if_neg (Bool.eq_false_iff.mp known)]
          cases below with
          | zero => exact .last read known (tail _)
          | succ below =>
            exact .opened read known (ih below (Nat.lt_succ_self below) _ _ _) (tail _)

theorem Outline.unique {i : Inspector} {below level : Nat} {rs : List Reference}
    {m m₁ m₂ : Moment} {rows others : List Row} (left : Outline i below level rs m rows m₁)
    (right : Outline i below level rs m others m₂) : rows = others ∧ m₁ = m₂ := by
  induction left generalizing others m₂ with
  | nil => cases right; exact ⟨rfl, rfl⟩
  | failure read tail ih =>
    cases right with
    | failure read' tail' =>
      cases read.symm.trans read'
      obtain ⟨rfl, rfl⟩ := ih tail'
      exact ⟨rfl, rfl⟩
    | seen read' | last read' | opened read' => cases read.symm.trans read'
  | seen read known tail ih =>
    cases right with
    | seen read' known' tail' =>
      cases read.symm.trans read'
      obtain ⟨rfl, rfl⟩ := ih tail'
      exact ⟨rfl, rfl⟩
    | failure read' => cases read.symm.trans read'
    | last read' fresh | opened read' fresh =>
      cases read.symm.trans read'
      rw [known] at fresh
      cases fresh
  | last read fresh tail ih =>
    cases right with
    | last read' fresh' tail' =>
      cases read.symm.trans read'
      obtain ⟨rfl, rfl⟩ := ih tail'
      exact ⟨rfl, rfl⟩
    | failure read' => cases read.symm.trans read'
    | seen read' known =>
      cases read.symm.trans read'
      rw [known] at fresh
      cases fresh
  | opened read fresh inner tail ihInner ihTail =>
    cases right with
    | opened read' fresh' inner' tail' =>
      cases read.symm.trans read'
      obtain ⟨rfl, rfl⟩ := ihInner inner'
      obtain ⟨rfl, rfl⟩ := ihTail tail'
      exact ⟨rfl, rfl⟩
    | failure read' => cases read.symm.trans read'
    | seen read' known =>
      cases read.symm.trans read'
      rw [known] at fresh
      cases fresh

namespace Row

/-- The moment after a row: its word was interpreted, and what it opened is marked. -/
def pass (i : Inspector) (m : Moment) (row : Row) : Moment :=
  ⟨match row.reference? with
    | some r => (i.interpret r.word m.trace).2
    | none => m.trace, m.visited.mark row.opened?⟩

end Row

def Moment.after (i : Inspector) (m : Moment) (rows : List Row) : Moment :=
  rows.foldl (Row.pass i) m

theorem pass_of_read {i : Inspector} {m : Moment} {row : Row} {r : Reference}
    {outcome : Except InspectError View} {trace : Trace} (made : row.reference? = some r)
    (read : i.interpret r.word m.trace = (outcome, trace)) :
    row.pass i m = ⟨trace, m.visited.mark row.opened?⟩ := by
  unfold Row.pass
  rw [made]
  exact congrArg (fun p => Moment.mk p.2 (m.visited.mark row.opened?)) read

theorem after_cons (i : Inspector) (m : Moment) (row : Row) (rows : List Row) :
    m.after i (row :: rows) = (row.pass i m).after i rows := rfl

theorem after_append (i : Inspector) (m : Moment) (rows others : List Row) :
    m.after i (rows ++ others) = (m.after i rows).after i others := List.foldl_append

theorem after_remainder (i : Inspector) (m : Moment) (v : View) (level : Nat) :
    m.after i (v.remainder level) = m := by
  unfold View.remainder
  split
  · rfl
  · rfl

theorem Outline.after_eq {i : Inspector} {below level : Nat} {rs : List Reference}
    {m m' : Moment} {rows : List Row} (h : Outline i below level rs m rows m') :
    m' = m.after i rows := by
  induction h with
  | nil => rfl
  | failure read tail ih => rw [after_cons, pass_of_read rfl read]; exact ih
  | seen read known tail ih => rw [after_cons, pass_of_read rfl read]; exact ih
  | last read fresh tail ih => rw [after_cons, pass_of_read rfl read]; exact ih
  | opened read fresh inner tail ihInner ihTail =>
    rw [after_cons, pass_of_read rfl read, after_append, after_append, after_remainder]
    rw [ihTail, ihInner]
    rfl

theorem place_in_append {α : Type} {xs ys before after : List α} {a : α}
    (same : xs ++ ys = before ++ a :: after) :
    (∃ mid, xs = before ++ a :: mid ∧ after = mid ++ ys) ∨
      ∃ mid, before = xs ++ mid ∧ ys = mid ++ a :: after := by
  rcases List.append_eq_append_iff.mp same with ⟨mid, left, right⟩ | ⟨mid, left, right⟩
  · exact Or.inr ⟨mid, left, right⟩
  · cases mid with
    | nil => exact Or.inr ⟨[], by simpa using left.symm, by simpa using right.symm⟩
    | cons b mid =>
      cases right
      exact Or.inl ⟨mid, left, rfl⟩

theorem place_in_remainder {v : View} {level : Nat} {before after : List Row} {row : Row}
    (same : v.remainder level = before ++ row :: after) :
    before = [] ∧ row = .more level v.omitted ∧ after = [] := by
  unfold View.remainder at same
  split at same
  · cases before <;> cases same
  · cases before with
    | nil => cases same; exact ⟨rfl, rfl, rfl⟩
    | cons b before => cases before <;> cases same

/-- A place behind the row of a shown object is among the rows of its children, or it is the row
about the omitted ones, or it is further on. -/
theorem place_below {inside rows before after : List Row} {v : View} {level : Nat} {row : Row}
    (same : inside ++ v.remainder level ++ rows = before ++ row :: after) :
    (∃ mid, inside = before ++ row :: mid ∧ after = mid ++ (v.remainder level ++ rows)) ∨
      (before = inside ∧ row = .more level v.omitted ∧ after = rows) ∨
      ∃ mid, before = inside ++ v.remainder level ++ mid ∧ rows = mid ++ row :: after := by
  rcases place_in_append same with ⟨mid, within, rfl⟩ | further
  · rcases place_in_append within with ⟨mid, place, rfl⟩ | ⟨mid, rfl, left⟩
    · exact Or.inl ⟨mid, place, List.append_assoc ..⟩
    · obtain ⟨rfl, rfl, rfl⟩ := place_in_remainder left
      exact Or.inr (Or.inl ⟨List.append_nil inside, rfl, rfl⟩)
  · exact Or.inr (Or.inr further)

end HeapLens
