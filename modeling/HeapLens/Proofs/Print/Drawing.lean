import HeapLens.Proofs.Print.Outline

/-!
Drawing an outline. Main statement: the printer draws the rows of the outline one after the other
into any sink. A sink without a bound takes them all; one that runs full stops at the first row that
it does not take, with the reads that were made up to that row.
-/
namespace HeapLens
open Run

namespace Row

def consult (i : Inspector) : Option Reference → Print Unit
  | some r => Run.update fun page => { page with trace := (i.interpret r.word page.trace).2 }
  | none => return ()

/-- Interprets the word of a row, writes its line and marks what it opened. -/
def draw (i : Inspector) (debug : Bool) (row : Row) : Print Unit := do
  consult i row.reference?
  Print.write (row.line debug)
  Print.visit row.opened?

end Row

namespace Inspector

/-- A reference with what is below it, or the reason why it cannot be shown. -/
def printReference (i : Inspector) (debug : Bool) (depth level : Nat) (r : Reference) :
    Print Unit := do
  match ← Print.probe (i.interpret r.word).attempt with
  | .ok view => i.printView debug depth level r.label view
  | .error e => Print.write ⟨level, r.label, "<error: " ++ e.message ++ ">"⟩

/-- What follows the line of an object that is shown in full. -/
def printBelow (i : Inspector) (debug : Bool) (depth level : Nat) (view : View) : Print Unit :=
  if depth = 0 then return ()
  else do
    Run.each (i.printReference debug depth (level + 1)) view.references
    if view.omitted = 0 then return ()
    else Print.write ⟨level + 1, none, "... " ++ toString view.omitted ++ " more"⟩

theorem printView_succ (i : Inspector) (debug : Bool) (depth level : Nat) (label : Option String)
    (view : View) : i.printView debug (depth + 1) level label view = (do
      if ← Print.isVisited view.address? then
        Print.write ⟨level, label, view.line ++ " (already seen)"⟩
      else
        Print.write ⟨level, label, if debug then view.line ++ view.debugText else view.line⟩
        Print.visit view.address?
        i.printBelow debug depth level view) := by
  rw [printView, printBelow, View.references, each_map]
  rfl

end Inspector

theorem isVisited_apply (address : Option UInt64) (page : Page) :
    Print.isVisited address page = (.ok (page.visited.has address), page) := by
  cases address <;> rfl

section Printing
variable {i : Inspector} {debug : Bool} {depth level : Nat} {r : Reference} {page : Page}
  {view : View} {trace : Trace}

theorem printReference_apply (i : Inspector) (debug : Bool) (depth level : Nat) (r : Reference)
    (page : Page) : i.printReference debug depth level r page =
      (match (i.interpret r.word page.trace).1 with
        | .ok view => i.printView debug depth level r.label view
        | .error e => Print.write ⟨level, r.label, "<error: " ++ e.message ++ ">"⟩)
        { page with trace := (i.interpret r.word page.trace).2 } := rfl

theorem draw_apply (i : Inspector) (debug : Bool) {row : Row} (made : row.reference? = some r)
    (page : Page) : row.draw i debug page =
      (do Print.write (row.line debug); Print.visit row.opened?)
        { page with trace := (i.interpret r.word page.trace).2 } := by
  unfold Row.draw
  rw [made]
  rfl

theorem printReference_failure {e : InspectError}
    (read : i.interpret r.word page.trace = (.error e, trace)) :
    i.printReference debug depth level r page = Row.draw i debug (.failure level r e) page := by
  rw [printReference_apply, draw_apply i debug rfl, read]
  exact (congrFun (bind_pure _) _).symm

theorem printReference_seen (read : i.interpret r.word page.trace = (.ok view, trace))
    (known : page.visited.has view.address? = true) :
    i.printReference debug (depth + 1) level r page =
      Row.draw i debug (.node level r view true) page := by
  rw [printReference_apply, draw_apply i debug rfl, read]
  dsimp only
  rw [Inspector.printView_succ, bind_apply, isVisited_apply]
  dsimp only
  rw [known, if_pos rfl]
  exact (congrFun (bind_pure _) _).symm

theorem printReference_fresh (read : i.interpret r.word page.trace = (.ok view, trace))
    (fresh : page.visited.has view.address? = false) :
    i.printReference debug (depth + 1) level r page = (do
      Row.draw i debug (.node level r view false)
      i.printBelow debug depth level view) page := by
  rw [printReference_apply, bind_apply, draw_apply i debug rfl, read]
  dsimp only
  rw [Inspector.printView_succ, bind_apply, isVisited_apply]
  dsimp only
  rw [fresh, if_neg Bool.false_ne_true]
  exact (congrFun (bind_assoc _ (fun _ => Print.visit view.address?) fun _ =>
    i.printBelow debug depth level view) _).symm

theorem write_apply (l : Line) (page : Page) : Print.write l page =
    (if (page.out.write l.render).1 then .ok () else .error .outputFailed,
      { page with out := (page.out.write l.render).2 }) := rfl

theorem consult_apply (i : Inspector) (row : Row) (page : Page) :
    Row.consult i row.reference? page =
      (.ok (), { page with trace := (row.pass i page.moment).trace }) := by
  unfold Row.pass
  cases row.reference? <;> rfl

theorem visit_apply (address : Option UInt64) (page : Page) :
    Print.visit address page = (.ok (), { page with visited := page.visited.mark address }) := by
  cases address <;> rfl

theorem draw_eq (i : Inspector) (debug : Bool) (row : Row) (page : Page) :
    row.draw i debug page =
      if (page.out.write (row.line debug).render).1 then
        (.ok (), ⟨(row.pass i page.moment).trace, (page.out.write (row.line debug).render).2,
          (row.pass i page.moment).visited⟩)
      else
        (.error .outputFailed, ⟨(row.pass i page.moment).trace,
          (page.out.write (row.line debug).render).2, page.visited⟩) := by
  unfold Row.draw
  rw [bind_apply, consult_apply]
  dsimp only
  rw [bind_apply, write_apply]
  by_cases complete : (page.out.write (row.line debug).render).1 = true
  · rw [if_pos complete, if_pos complete]
    exact visit_apply _ _
  · rw [if_neg complete, if_neg complete]

theorem draw_moment {row : Row} {page page' : Page}
    (drawn : row.draw i debug page = (.ok (), page')) : page'.moment = row.pass i page.moment := by
  rw [draw_eq] at drawn
  split at drawn
  · cases drawn; rfl
  · cases drawn

theorem draws_moment {rows : List Row} {page page' : Page}
    (drawn : Run.each (Row.draw i debug) rows page = (.ok (), page')) :
    page'.moment = page.moment.after i rows := by
  induction rows generalizing page with
  | nil => cases drawn; rfl
  | cons row rows ih =>
    rw [each_cons] at drawn
    obtain ⟨_, middle, first, rest⟩ := bind_ok drawn
    rw [ih rest, draw_moment first]
    rfl

theorem draw_more (i : Inspector) (debug : Bool) (level count : Nat) :
    Row.draw i debug (.more level count) =
      Print.write ⟨level, none, "... " ++ toString count ++ " more"⟩ :=
  bind_pure (Print.write ⟨level, none, "... " ++ toString count ++ " more"⟩)

theorem draw_remainder (i : Inspector) (debug : Bool) (view : View) (level : Nat) :
    Run.each (Row.draw i debug) (view.remainder level) =
      if view.omitted = 0 then return ()
      else Print.write ⟨level, none, "... " ++ toString view.omitted ++ " more"⟩ := by
  unfold View.remainder
  split
  · rfl
  · rw [each_cons, draw_more]
    exact bind_pure _

theorem printBelow_draws {inside : List Row}
    (drawn : Run.each (i.printReference debug (depth + 1) (level + 1)) view.references page =
      Run.each (Row.draw i debug) inside page) :
    i.printBelow debug (depth + 1) level view page =
      Run.each (Row.draw i debug) (inside ++ view.remainder (level + 1)) page := by
  rw [Inspector.printBelow, if_neg (Nat.succ_ne_zero _), each_append, draw_remainder]
  exact bind_congr_at drawn fun _ _ _ => rfl

/-- The printer draws the outline. -/
theorem Outline.draws {below : Nat} {rs : List Reference} {m m' : Moment} {rows : List Row}
    (h : Outline i below level rs m rows m') (debug : Bool) (start : page.moment = m) :
    Run.each (i.printReference debug (below + 1) level) rs page =
      Run.each (Row.draw i debug) rows page := by
  -- both sides read, write and mark the same up to a row; if it is taken, they go on alike
  induction h generalizing page with
  | nil => rfl
  | failure read tail ih =>
    subst start
    rw [each_cons, each_cons]
    refine bind_congr_at (printReference_failure read) fun _ later drawn => ih ?_
    rw [draw_moment drawn, pass_of_read rfl read]
    rfl
  | seen read known tail ih =>
    subst start
    rw [each_cons, each_cons]
    refine bind_congr_at (printReference_seen read known) fun _ later drawn => ih ?_
    rw [draw_moment drawn, pass_of_read rfl read]
    rfl
  | last read fresh tail ih =>
    subst start
    rw [each_cons, each_cons]
    refine bind_congr_at ?_ fun _ later drawn => ih ?_
    · rw [printReference_fresh read fresh]
      exact congrFun (bind_pure _) _
    · rw [draw_moment drawn, pass_of_read rfl read]
      rfl
  | opened read fresh inner tail ihInner ihTail =>
    subst start
    rw [each_cons, each_cons, each_append]
    rw [bind_congr_at (printReference_fresh read fresh) fun _ _ _ => rfl, bind_assoc]
    refine bind_congr_at rfl fun _ first drawn => ?_
    have begun := draw_moment drawn
    rw [pass_of_read rfl read] at begun
    refine bind_congr_at (printBelow_draws (ihInner begun)) fun _ second finished => ihTail ?_
    rw [draws_moment finished, after_append, after_remainder, begun, inner.after_eq]
    rfl

theorem Sink.text_of_complete {s : Sink} {text : String} (complete : (s.write text).1 = true) :
    (s.write text).2.text = s.text ++ text := by
  unfold Sink.write at complete ⊢
  split
  · rfl
  · split
    · rfl
    · next full => simp_all

theorem draws_text {rows : List Row} {page page' : Page}
    (drawn : Run.each (Row.draw i debug) rows page = (.ok (), page')) :
    page'.out.text = page.out.text ++ Row.text debug rows := by
  induction rows generalizing page with
  | nil => cases drawn; exact String.append_empty.symm
  | cons row rows ih =>
    rw [each_cons] at drawn
    obtain ⟨_, middle, first, rest⟩ := bind_ok drawn
    rw [draw_eq] at first
    split at first
    · next complete =>
      cases first
      rw [ih rest, Sink.text_of_complete complete, String.append_assoc, Row.text_cons]
    · cases first

def Row.words (rows : List Row) : List UInt64 := (rows.filterMap Row.reference?).map (·.word)

theorem words_append (rows others : List Row) :
    Row.words (rows ++ others) = Row.words rows ++ Row.words others := by
  rw [Row.words, List.filterMap_append, List.map_append]
  rfl

theorem printWord_failure {options : Options} {word : UInt64} {e : InspectError}
    (read : i.interpret word page.trace = (.error e, trace)) :
    i.printWord options word page = (.error e, { page with trace := trace }) := by
  have probed : Print.probe (i.interpret word) page = (.error e, { page with trace := trace }) :=
    congrArg (fun p => (p.1, { page with trace := p.2 })) read
  unfold Inspector.printWord
  rw [bind_apply, probed]

theorem printWord_eq {options : Options} {word : UInt64}
    (read : i.interpret word page.trace = (.ok view, trace)) :
    i.printWord options word page =
      Run.each (i.printReference options.debug options.depth 0) [⟨none, word⟩] page := by
  have probed : Print.probe (i.interpret word) page = (.ok view, { page with trace := trace }) :=
    congrArg (fun p => (p.1, { page with trace := p.2 })) read
  rw [each_cons, each]
  rw [show (do i.printReference options.debug options.depth 0 ⟨none, word⟩; ret ()) =
    i.printReference options.debug options.depth 0 ⟨none, word⟩ from bind_pure _]
  rw [printReference_apply, read]
  unfold Inspector.printWord
  rw [bind_apply, probed]

theorem printWord_draws {options : Options} {word : UInt64} (positive : 1 ≤ options.depth)
    (read : i.interpret word page.trace = (.ok view, trace)) :
    ∃ rows m', Outline i (options.depth - 1) 0 [⟨none, word⟩] page.moment rows m' ∧
      i.printWord options word page = Run.each (Row.draw i options.debug) rows page := by
  have outline := outline_inTurn i (options.depth - 1) 0 [⟨none, word⟩] page.moment
  refine ⟨_, _, outline, ?_⟩
  have drawn := outline.draws options.debug rfl
  rw [Nat.sub_add_cancel positive] at drawn
  rw [printWord_eq read, drawn]

end Printing
end HeapLens
