import HeapLens.Proofs.Print.Drawing
import HeapLens.Proofs.Snapshot.Target
import HeapLens.Proofs.View.Plain
import Mathlib.Data.List.Forall2

/-!
The lines of a printed value. Every row of the outline becomes one line of plain characters that
begins as the row says, with indentation, label and tag, and line breaks stand between rows only.
Main statement: whatever bytes the target holds, the output is cut at its line breaks into the
lines of the rows, and quoted bytes end at their closing quote.
-/
namespace HeapLens
open Run Text

/-! Cutting a text into lines. -/

/-- Lines with a line break behind each of them. -/
def joinLines (lines : List String) : String := String.join (lines.map (· ++ "\n"))

theorem Text.Plain.no_break {s : String} (plain : Plain s) : ∀ c ∈ s.toList, (c == '\n') = false := by
  intro c member
  apply beq_eq_false_iff_ne.mpr
  rintro rfl
  cases plain _ member

theorem splitOn_joinLines {lines : List String} (plain : ∀ s ∈ lines, Plain s) :
    (joinLines lines).toList.splitOn '\n' = lines.map String.toList ++ [[]] := by
  induction lines with
  | nil => rfl
  | cons s lines ih =>
    have first := (plain s (List.mem_cons_self ..)).no_break
    have parts : (joinLines (s :: lines)).toList = s.toList ++ '\n' :: (joinLines lines).toList := by
      rw [joinLines, List.map_cons, String.join_cons, String.toList_append, String.toList_append,
        List.append_assoc]
      rfl
    rw [parts, List.splitOn, List.splitOnP_append_cons_of_forall_mem first _ rfl]
    exact congrArg (s.toList :: ·) (ih fun t member => plain t (List.mem_cons_of_mem _ member))

/-! Lines of rows. -/

def indentation (level : Nat) : String := String.ofList (List.replicate (2 * level) ' ')

/-- What stands before the text of a line that has a label. -/
def marker : Option String → String
  | some label => label ++ ": "
  | none => ""

/-- A line without its line break. -/
def Line.content (l : Line) : String := indentation l.level ++ (marker l.label ++ l.text)

theorem Line.render_eq (l : Line) : l.render = l.content ++ "\n" := by
  obtain ⟨level, label, text⟩ := l
  cases label with
  | none => exact congrArg (indentation level ++ · ++ "\n") String.empty_append.symm
  | some label => rfl

theorem Row.text_eq (debug : Bool) (rows : List Row) :
    Row.text debug rows = joinLines (rows.map fun row => (row.line debug).content) := by
  rw [joinLines, List.map_map]
  exact congrArg String.join (List.map_congr_left fun row _ => Line.render_eq _)

theorem plain_indentation (level : Nat) : Plain (indentation level) := by
  apply plain_ofList
  intro c member
  rw [List.eq_of_mem_replicate member]
  decide

/-- A reference on a level: below the first level it has a label, and a plain one. -/
structure Reference.Proper (r : Reference) (level : Nat) : Prop where
  child : r.label.isSome = true ↔ 0 < level
  label : ∀ text, r.label = some text → Plain text

theorem Reference.Proper.plain_marker {r : Reference} {level : Nat} (proper : r.Proper level) :
    Plain (marker r.label) := by
  cases known : r.label with
  | none => exact (by decide : Plain "")
  | some text => exact plain_append (proper.label text known) (by decide)

theorem View.references_proper (v : View) (level : Nat) :
    ∀ r ∈ v.references, r.Proper (level + 1) := by
  intro r member
  obtain ⟨c, below, rfl⟩ := List.mem_map.mp member
  constructor
  · exact iff_of_true rfl (Nat.succ_pos level)
  · intro text known
    cases known
    exact v.plain_children c below

namespace Row

/-- A row whose reference is proper and whose error, if it has one, is worded in plain characters. -/
def Proper : Row → Prop
  | .node level r _ _ => r.Proper level
  | .failure level r e => r.Proper level ∧ Plain e.message
  | .more _ _ => True

/-- What the line of a row is made of: a node shows its tag first, a failure its message. -/
inductive Shaped : Row → String → Prop where
  | node {level : Nat} {r : Reference} {view : View} {seen : Bool} {shown rest : String}
      (child : r.label.isSome = true ↔ 0 < level) (line : view.line = view.tag ++ shown) :
      Shaped (.node level r view seen)
        (indentation level ++ (marker r.label ++ (view.tag ++ shown ++ rest)))
  | failure {level : Nat} {r : Reference} {e : InspectError}
      (child : r.label.isSome = true ↔ 0 < level) :
      Shaped (.failure level r e)
        (indentation level ++ (marker r.label ++ ("<error: " ++ e.message ++ ">")))
  | more (level count : Nat) :
      Shaped (.more level count) (indentation level ++ ("... " ++ toString count ++ " more"))

/-- What is shown behind the line of a view. -/
theorem line_node (debug : Bool) (level : Nat) (r : Reference) (view : View) (seen : Bool) :
    ∃ rest, Plain rest ∧
      (Row.node level r view seen).line debug = ⟨level, r.label, view.line ++ rest⟩ := by
  cases seen with
  | true => exact ⟨" (already seen)", by decide, rfl⟩
  | false =>
    cases debug with
    | true => exact ⟨view.debugText, view.plain_debugText, rfl⟩
    | false => exact ⟨"", by decide, congrArg (Line.mk level r.label) String.append_empty.symm⟩

variable {row : Row}

theorem Proper.plain (proper : row.Proper) (debug : Bool) : Plain (row.line debug).content := by
  cases row with
  | node level r view seen =>
    obtain ⟨rest, plain, line⟩ := line_node debug level r view seen
    rw [line]
    exact plain_append (plain_indentation level)
      (plain_append proper.plain_marker (plain_append view.plain_line plain))
  | failure level r e =>
    exact plain_append (plain_indentation level) (plain_append proper.1.plain_marker
      (plain_append (plain_append (by decide) proper.2) (by decide)))
  | more level count =>
    exact plain_append (plain_indentation level) (plain_append (by decide : Plain "")
      (plain_append (plain_append (by decide) (plain_nat count)) (by decide)))

theorem Proper.shaped (proper : row.Proper) (debug : Bool) :
    row.Shaped (row.line debug).content := by
  cases row with
  | node level r view seen =>
    obtain ⟨rest, -, line⟩ := line_node debug level r view seen
    obtain ⟨shown, parts, -⟩ := view.line_eq
    rw [line, parts]
    exact .node proper.child parts
  | failure level r e => exact .failure proper.1.child
  | more level count =>
    have unmarked : (line debug (.more level count)).content =
        indentation level ++ ("... " ++ toString count ++ " more") :=
      congrArg (indentation level ++ ·) String.empty_append
    rw [unmarked]
    exact .more level count

end Row

theorem View.remainder_proper (v : View) (level : Nat) : ∀ row ∈ v.remainder level, row.Proper := by
  intro row member
  unfold remainder at member
  split at member
  · exact absurd member List.not_mem_nil
  · rw [List.mem_singleton.mp member]
    trivial

/-- Proper references make an outline of proper rows. -/
theorem Outline.proper {i : Inspector} (layouts : i.target.layout = Registry.standard.lookup)
    {below level : Nat} {rs : List Reference} {m m' : Moment} {rows : List Row}
    (h : Outline i below level rs m rows m') (given : ∀ r ∈ rs, r.Proper level) :
    ∀ row ∈ rows, row.Proper := by
  induction h with
  | nil => exact fun row member => absurd member List.not_mem_nil
  | failure read tail ih =>
    intro row member
    rcases List.mem_cons.mp member with rfl | member
    · exact ⟨given _ (List.mem_cons_self ..), Inspector.interpret_error_plain layouts read⟩
    · exact ih (fun r listed => given r (List.mem_cons_of_mem _ listed)) row member
  | seen read known tail ih =>
    intro row member
    rcases List.mem_cons.mp member with rfl | member
    · exact given _ (List.mem_cons_self ..)
    · exact ih (fun r listed => given r (List.mem_cons_of_mem _ listed)) row member
  | last read fresh tail ih =>
    intro row member
    rcases List.mem_cons.mp member with rfl | member
    · exact given _ (List.mem_cons_self ..)
    · exact ih (fun r listed => given r (List.mem_cons_of_mem _ listed)) row member
  | @opened below level r rs m m' m'' inside rows view trace read fresh inner tail ihInner ihTail =>
    intro row member
    rcases List.mem_cons.mp member with rfl | member
    · exact given _ (List.mem_cons_self ..)
    rcases List.mem_append.mp member with member | member
    · rcases List.mem_append.mp member with member | member
      · exact ihInner (view.references_proper level) row member
      · exact view.remainder_proper _ row member
    · exact ihTail (fun r listed => given r (List.mem_cons_of_mem _ listed)) row member

/-- Behind the quote that opens the summary of a string, the first quote that no backslash stands
for is the one that closes it. -/
theorem StringView.summary_quoted (v : StringView) :
    ∃ note, v.summary = "\"" ++ escaped v.bytes ++ "\"" ++ note ∧
      closeQuote (escaped v.bytes ++ "\"" ++ note).toList =
        some ((escaped v.bytes).toList, note.toList) := by
  refine ⟨_, rfl, ?_⟩
  rw [String.toList_append, String.toList_append, escaped, String.toList_ofList, List.append_assoc]
  exact closeQuote_escape v.bytes _

/-- A value that is printed becomes lines, one for each row of its outline, that nothing in the
target can break. -/
theorem printWord_keeps_lines {i : Inspector}
    (layouts : i.target.layout = Registry.standard.lookup) {options : Options}
    (positive : 1 ≤ options.depth) {word : UInt64} {page after : Page}
    (printed : i.printWord options word page = (.ok (), after)) :
    (∃ rows lines, Outline i (options.depth - 1) 0 [⟨none, word⟩] page.moment rows after.moment ∧
      after.out.text = page.out.text ++ joinLines lines ∧
      (joinLines lines).toList.splitOn '\n' = lines.map String.toList ++ [[]] ∧
      List.Forall₂ (fun row line => Plain line ∧ row.Shaped line) rows lines) ∧
    ∀ v : StringView, ∃ note, v.summary = "\"" ++ escaped v.bytes ++ "\"" ++ note ∧
      closeQuote (escaped v.bytes ++ "\"" ++ note).toList =
        some ((escaped v.bytes).toList, note.toList) := by
  refine ⟨?_, StringView.summary_quoted⟩
  rcases read : i.interpret word page.trace with ⟨e | view, trace⟩
  · rw [printWord_failure read] at printed
    cases printed
  · obtain ⟨rows, m', outline, drawn⟩ := printWord_draws positive read
    rw [drawn] at printed
    have proper := outline.proper layouts fun r listed => by
      obtain rfl := List.mem_singleton.mp listed
      exact ⟨iff_of_false Bool.false_ne_true (Nat.lt_irrefl 0), nofun⟩
    have reached : after.moment = m' := (draws_moment printed).trans outline.after_eq.symm
    refine ⟨rows, rows.map fun row => (row.line options.debug).content, reached ▸ outline, ?_, ?_,
      ?_⟩
    · rw [draws_text printed, Row.text_eq]
    · apply splitOn_joinLines
      intro line member
      obtain ⟨row, listed, rfl⟩ := List.mem_map.mp member
      exact (proper row listed).plain _
    · rw [List.forall₂_map_right_iff, List.forall₂_same]
      intro row listed
      exact ⟨(proper row listed).plain _, (proper row listed).shaped _⟩

/-- A string of a quote, a line break, a backslash and an escape character. -/
def Inspector.unruly : Inspector := .ofWords [5, 0, 4, 0x1b5c0a22, 0]

theorem unruly_keeps_lines : Inspector.unruly.target.layout = Registry.standard.lookup ∧
    ∃ after rows lines, Inspector.unruly.printWord ⟨2, true, defaultLimit⟩ 40 .blank =
        (.ok (), after) ∧
      Outline .unruly 1 0 [⟨none, 40⟩] Page.blank.moment rows after.moment ∧
      after.out.text.toList.splitOn '\n' = lines.map String.toList ++ [[]] ∧
      List.Forall₂ (fun row line => Plain line ∧ row.Shaped line) rows lines := by
  have layouts : Inspector.unruly.target.layout = Registry.standard.lookup := rfl
  have done : (Inspector.unruly.printWord ⟨2, true, defaultLimit⟩ 40 .blank).1.isOk = true := by
    decide +kernel
  have printed : Inspector.unruly.printWord ⟨2, true, defaultLimit⟩ 40 .blank =
      (.ok (), (Inspector.unruly.printWord ⟨2, true, defaultLimit⟩ 40 .blank).2) :=
    Prod.ext (ok_of_isOk done) rfl
  obtain ⟨⟨rows, lines, outline, text, cut, shapes⟩, -⟩ :=
    printWord_keeps_lines layouts (by decide) printed
  rw [show Page.blank.out.text = "" from rfl, String.empty_append] at text
  exact ⟨layouts, _, rows, lines, printed, outline, text ▸ cut, shapes⟩

end HeapLens
