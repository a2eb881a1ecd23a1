import HeapLens.Proofs.Print.Drawing
import HeapLens.Proofs.Snapshot.Target

/-!
Depth of a printed tree. A row at level n is for a word that is n child steps away from the root,
and no row is deeper than the depth allows. Below the line of an object that is shown in full, with
more than one level to go, stand its children in order and then the row about omitted entries; below
any other line stands nothing.
-/
namespace HeapLens

inductive Walk (step : UInt64 → UInt64 → Prop) : Nat → UInt64 → UInt64 → Prop where
  | zero (a : UInt64) : Walk step 0 a a
  | next {n : Nat} {a b c : UInt64} (walk : Walk step n a b) (edge : step b c) :
      Walk step (n + 1) a c

theorem Walk.mono {step other : UInt64 → UInt64 → Prop} (weaker : ∀ a b, step a b → other a b)
    {n : Nat} {a b : UInt64} (walk : Walk step n a b) : Walk other n a b := by
  induction walk with
  | zero => exact .zero _
  | next tail last ih => exact .next ih (weaker _ _ last)

namespace Row

/-- The rows below a row: those that follow and are deeper, up to the first that is not. -/
def block (row : Row) (after : List Row) : List Row := after.takeWhile fun r => row.level < r.level

/-- What a row is for: a word, or a number of omitted entries. -/
def entry : Row → Reference ⊕ Nat
  | .node _ r _ _ | .failure _ r _ => .inl r
  | .more _ count => .inr count

end Row

/-- The children of a view, then the number of entries that the limit left out. -/
def View.entries (v : View) : List (Reference ⊕ Nat) :=
  v.references.map .inl ++ if v.omitted = 0 then [] else [.inr v.omitted]

/-- What has to stand directly below a row in a tree of a given depth. -/
def Row.announced (depth : Nat) : Row → List (Reference ⊕ Nat)
  | .node level _ view false => if level + 1 < depth then view.entries else []
  | _ => []

namespace Outline
variable {i : Inspector} {below level : Nat} {rs : List Reference} {m m' : Moment}
  {rows : List Row}

theorem mem_remainder {v : View} {level : Nat} {row : Row} (mem : row ∈ v.remainder level) :
    row = .more level v.omitted := by
  unfold View.remainder at mem
  split at mem
  · cases mem
  · exact List.mem_singleton.mp mem

theorem mem_below {inside rows : List Row} {v : View} {level : Nat} {row : Row}
    (mem : row ∈ inside ++ v.remainder level ++ rows) :
    row ∈ inside ∨ row = .more level v.omitted ∨ row ∈ rows := by
  rcases List.mem_append.mp mem with mem | further
  · rcases List.mem_append.mp mem with within | left
    · exact Or.inl within
    · exact Or.inr (Or.inl (mem_remainder left))
  · exact Or.inr (Or.inr further)

theorem levels (h : Outline i below level rs m rows m') :
    ∀ row ∈ rows, level ≤ row.level ∧ row.level ≤ level + below := by
  induction h with
  | nil => intro row mem; cases mem
  | failure read tail ih | seen read known tail ih | last read fresh tail ih =>
    intro row mem
    rcases List.mem_cons.mp mem with rfl | later
    · exact ⟨Nat.le_refl _, Nat.le_add_right _ _⟩
    · exact ih row later
  | opened read fresh inner tail ihInner ihTail =>
    intro row mem
    rcases List.mem_cons.mp mem with rfl | mem
    · exact ⟨Nat.le_refl _, Nat.le_add_right _ _⟩
    · rcases mem_below mem with within | rfl | later
      · have deeper := ihInner row within
        omega
      · simp only [Row.level]
        omega
      · exact ihTail row later

theorem head_level (h : Outline i below level rs m rows m') :
    ∀ row ∈ rows.head?, row.level = level := by
  cases h <;> simp [Row.level]

theorem deeper_inside (h : Outline i below (level + 1) rs m rows m') (view : View) :
    ∀ r ∈ rows ++ view.remainder (level + 1), level < r.level := by
  intro r mem
  rcases List.mem_append.mp mem with within | left
  · exact (h.levels r within).1
  · rw [mem_remainder left]
    exact Nat.lt_succ_self level

/-- At the level of an outline stand its references, one row each. -/
theorem top_entries (h : Outline i below level rs m rows m') :
    (rows.filter fun row => row.level == level).map Row.entry = rs.map .inl := by
  induction h with
  | nil => rfl
  | failure read tail ih | seen read known tail ih | last read fresh tail ih =>
    simpa [Row.level, Row.entry] using ih
  | @opened below level r rs m m' m'' inside rows view trace read fresh inner tail ihInner ihTail =>
    have deeper : ∀ row ∈ inside ++ view.remainder (level + 1), ¬ (row.level == level) = true := by
      intro row mem same
      exact Nat.ne_of_gt (inner.deeper_inside view row mem) (beq_iff_eq.mp same)
    rw [List.filter_cons_of_pos (by simp [Row.level]), List.filter_append,
      List.filter_eq_nil_iff.mpr deeper, List.nil_append, List.map_cons, ihTail]
    rfl

/-! What stands below a row. -/

theorem block_append {row : Row} {others : List Row} (mid : List Row)
    (stops : ∀ r ∈ others.head?, r.level ≤ row.level) :
    row.block (mid ++ others) = row.block mid := by
  induction mid with
  | nil =>
    cases others with
    | nil => rfl
    | cons r others =>
      have := stops r rfl
      exact List.takeWhile_cons_of_neg (by simp only [decide_eq_true_eq]; omega)
  | cons r mid ih =>
    simp only [Row.block, List.cons_append, List.takeWhile_cons] at ih ⊢
    rw [ih]

theorem block_of_deeper {row : Row} {mid : List Row} (deeper : ∀ r ∈ mid, row.level < r.level) :
    row.block mid = mid := by
  induction mid with
  | nil => rfl
  | cons r mid ih =>
    have first := deeper r (List.mem_cons_self ..)
    rw [Row.block, List.takeWhile_cons_of_pos (by simpa using first)]
    exact congrArg _ (ih fun x mem => deeper x (List.mem_cons_of_mem r mem))

theorem block_nil (h : Outline i below level rs m rows m') (row : Row) (same : row.level = level) :
    row.block rows = [] :=
  block_append [] fun r mem => Nat.le_of_eq ((h.head_level r mem).trans same.symm)

theorem remainder_stops (h : Outline i below level rs m rows m') (view : View) :
    ∀ r ∈ (view.remainder (level + 1) ++ rows).head?, r.level ≤ level + 1 := by
  intro r mem
  unfold View.remainder at mem
  split at mem
  · rw [h.head_level r mem]
    exact Nat.le_succ _
  · cases mem
    exact Nat.le_refl _

theorem entries_remainder (view : View) (level : Nat) :
    ((view.remainder level).filter fun r => r.level == level).map Row.entry =
      if view.omitted = 0 then [] else [.inr view.omitted] := by
  unfold View.remainder
  split
  · rfl
  · simp [Row.level, Row.entry]

/-- Every row is followed by what it announces, and by nothing else that is deeper. -/
theorem announced_below (h : Outline i below level rs m rows m') :
    ∀ before row after, rows = before ++ row :: after →
      ((row.block after).filter fun r => r.level == row.level + 1).map Row.entry =
          row.announced (level + below + 1) ∧
        (row.announced (level + below + 1) = [] → row.block after = []) := by
  induction h with
  | nil => intro before row after same; cases before <;> cases same
  | failure read tail ih | seen read known tail ih =>
    intro before row after same
    cases before with
    | nil =>
      obtain ⟨here, rfl⟩ := List.cons.inj same
      rw [tail.block_nil row (by rw [← here]; rfl), ← here]
      exact ⟨rfl, fun _ => rfl⟩
    | cons b before =>
      cases same
      exact ih before row after rfl
  | last read fresh tail ih =>
    intro before row after same
    cases before with
    | nil =>
      obtain ⟨here, rfl⟩ := List.cons.inj same
      rw [tail.block_nil row (by rw [← here]; rfl), ← here]
      exact ⟨by simp [Row.announced], fun _ => rfl⟩
    | cons b before =>
      cases same
      exact ih before row after rfl
  | @opened below level r rs m m' m'' inside rows view trace read fresh inner tail ihInner ihTail =>
    intro before row after same
    cases before with
    | nil =>
      obtain ⟨rfl, rfl⟩ := List.cons.inj same
      have stop : ∀ x ∈ rows.head?, x.level ≤ (Row.node level r view false).level :=
        fun x mem => Nat.le_of_eq (tail.head_level x mem)
      -- everything printed below the object is deeper than it, and what comes next is not
      rw [block_append _ stop, block_of_deeper (inner.deeper_inside view)]
      have all : (Row.node level r view false).announced (level + (below + 1) + 1) = view.entries :=
        if_pos (by omega)
      rw [all]
      constructor
      · rw [List.filter_append, List.map_append]
        exact congr (congrArg _ inner.top_entries) (entries_remainder view (level + 1))
      · intro none
        have ⟨noChildren, noneLeft⟩ := List.append_eq_nil_iff.mp none
        rw [List.map_eq_nil_iff] at noChildren
        rw [noChildren] at inner
        cases inner
        have whole : view.omitted = 0 := Decidable.byContradiction fun some => by
          rw [if_neg some] at noneLeft
          cases noneLeft
        exact if_pos whole
    | cons b before =>
      obtain ⟨rfl, rest⟩ := List.cons.inj same
      rcases place_below rest with ⟨mid, place, rfl⟩ | ⟨rfl, rfl, rfl⟩ | ⟨mid, rfl, behind⟩
      · have deep := (inner.levels row (by rw [place]; simp)).1
        have stop : ∀ x ∈ (view.remainder (level + 1) ++ rows).head?, x.level ≤ row.level :=
          fun x mem => Nat.le_trans (tail.remainder_stops view x mem) deep
        have depth : level + 1 + below + 1 = level + (below + 1) + 1 := by omega
        rw [block_append mid stop, ← depth]
        exact ihInner before row mid place
      · have stop : ∀ x ∈ after.head?, x.level ≤ (Row.more (level + 1) view.omitted).level := by
          intro x mem
          rw [tail.head_level x mem]
          exact Nat.le_succ level
        rw [show Row.block _ after = [] from block_append [] stop]
        exact ⟨rfl, fun _ => rfl⟩
      · exact ihTail mid row after behind

/-- Every row below the first level stands below one that is a level higher. -/
theorem parent_above (h : Outline i below level rs m rows m') :
    ∀ before row after, rows = before ++ row :: after → level < row.level →
      ∃ earlier parent mid, before = earlier ++ parent :: mid ∧ row.level = parent.level + 1 ∧
        ∀ r ∈ mid, parent.level < r.level := by
  induction h with
  | nil => intro before row after same; cases before <;> cases same
  | failure read tail ih | seen read known tail ih | last read fresh tail ih =>
    intro before row after same deeper
    cases before with
    | nil => cases same; exact absurd deeper (Nat.lt_irrefl _)
    | cons b before =>
      cases same
      obtain ⟨earlier, parent, mid, rfl, rest⟩ := ih before row after rfl deeper
      exact ⟨_ :: earlier, parent, mid, rfl, rest⟩
  | @opened below level r rs m m' m'' inside rows view trace read fresh inner tail ihInner ihTail =>
    intro before row after same deeper
    cases before with
    | nil => cases same; exact absurd deeper (Nat.lt_irrefl _)
    | cons b before =>
      obtain ⟨rfl, rest⟩ := List.cons.inj same
      rcases place_below rest with ⟨mid, place, -⟩ | ⟨rfl, rfl, -⟩ | ⟨mid, rfl, behind⟩
      · rcases Nat.lt_or_eq_of_le deeper with further | next
        · obtain ⟨earlier, parent, mid, rfl, found⟩ := ihInner before row mid place further
          exact ⟨.node level r view false :: earlier, parent, mid, rfl, found⟩
        · refine ⟨[], .node level r view false, before, rfl, next.symm, fun x mem => ?_⟩
          exact (inner.levels x (by rw [place]; exact List.mem_append_left _ mem)).1
      · exact ⟨[], .node level r view false, before, rfl, rfl, fun x mem => (inner.levels x mem).1⟩
      · obtain ⟨earlier, parent, mid, rfl, found⟩ := ihTail mid row after behind deeper
        refine ⟨.node level r view false :: (inside ++ view.remainder (level + 1) ++ earlier),
          parent, mid, ?_, found⟩
        rw [List.cons_append, List.append_assoc _ earlier]

end Outline

/-- Rows that stand as a tree of a given depth: each one is followed by what it announces and by
nothing else that is deeper, and each one below the first level has a row above it. -/
structure Row.Arranged (depth : Nat) (rows : List Row) : Prop where
  shallow : ∀ row ∈ rows, row.level < depth
  announced : ∀ before row after, rows = before ++ row :: after →
    ((row.block after).filter fun r => r.level == row.level + 1).map Row.entry =
        row.announced depth ∧
      (row.announced depth = [] → row.block after = [])
  above : ∀ before row after, rows = before ++ row :: after → 0 < row.level →
    ∃ earlier parent mid, before = earlier ++ parent :: mid ∧ row.level = parent.level + 1 ∧
      ∀ r ∈ mid, parent.level < r.level

section Printing
variable {i : Inspector} {options : Options} {word : UInt64} {m m' : Moment} {rows : List Row}

theorem Outline.arranged (positive : 1 ≤ options.depth)
    (h : Outline i (options.depth - 1) 0 [⟨none, word⟩] m rows m') :
    Row.Arranged options.depth rows where
  shallow row mem := by
    have bounds := h.levels row mem
    omega
  announced before row after same := by
    have found := h.announced_below before row after same
    rwa [Nat.zero_add, Nat.sub_add_cancel positive] at found
  above := h.parent_above

end Printing

theorem Outline.single {i : Inspector} {level : Nat} {r : Reference} {m m' : Moment}
    {rows : List Row} {view : View} {trace : Trace}
    (h : Outline i 0 level [r] m rows m') (read : i.interpret r.word m.trace = (.ok view, trace)) :
    ∃ seen, rows = [.node level r view seen] := by
  cases h with
  | failure read' tail => cases read.symm.trans read'
  | seen read' known tail =>
    cases read.symm.trans read'
    cases tail
    exact ⟨true, rfl⟩
  | last read' fresh tail =>
    cases read.symm.trans read'
    cases tail
    exact ⟨false, rfl⟩

end HeapLens
