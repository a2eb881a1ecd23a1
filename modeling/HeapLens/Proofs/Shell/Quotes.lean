import HeapLens.Proofs.Shell.Words
import Mathlib.Data.List.Induction

/-!
Quotes and brackets of a line. Quotes pair up from the left, and brackets count only outside of
them. Main statement: a line is refused exactly if one of its quotes is left open.
-/
namespace HeapLens.Shell
open HeapLens.Text

/-! Quotes and brackets. -/

def IsQuote (c : Char) : Prop := c = '"' ∨ c = '\''

def OpensBracket (c : Char) : Prop := c = '(' ∨ c = '['

def ClosesBracket (c : Char) : Prop := c = ')' ∨ c = ']'

instance (c : Char) : Decidable (IsQuote c) := inferInstanceAs (Decidable (_ ∨ _))

instance (c : Char) : Decidable (OpensBracket c) := inferInstanceAs (Decidable (_ ∨ _))

instance (c : Char) : Decidable (ClosesBracket c) := inferInstanceAs (Decidable (_ ∨ _))

/-- A text in which every quote is closed, and what stands outside of its quotes. -/
inductive Closed : List Char → List Char → Prop where
  | nil : Closed [] []
  | bare {text outside : List Char} {c : Char} (before : Closed text outside)
      (unquoted : ¬ IsQuote c) : Closed (text ++ [c]) (outside ++ [c])
  | quoted {text outside body : List Char} {q : Char} (before : Closed text outside)
      (quote : IsQuote q) (inside : q ∉ body) : Closed (text ++ q :: body ++ [q]) outside

/-- A text that ends inside of a quote. -/
inductive Open (q : Char) : List Char → Prop where
  | quoted {text outside body : List Char} (before : Closed text outside) (quote : IsQuote q)
      (inside : q ∉ body) : Open q (text ++ q :: body)

/-- Both kinds of brackets count as one, and a closing one without an opening one does not. -/
def level (depth : Nat) (c : Char) : Nat :=
  if OpensBracket c then depth + 1 else if ClosesBracket c then depth - 1 else depth

/-- How many brackets are open behind a text without quotes. -/
def depthOf (outside : List Char) : Nat := outside.foldl level 0

/-- White space is no quote and no bracket. -/
theorem blank_unmarked {c : Char} (blank : isBlank c = true) :
    ¬ IsQuote c ∧ ¬ OpensBracket c ∧ ¬ ClosesBracket c := by
  refine ⟨?_, ?_, ?_⟩ <;> rintro (rfl | rfl) <;> exact absurd blank (by decide)

namespace Splitter

theorem depth_close (s : Splitter) : s.close.depth = s.depth := by
  unfold close
  split <;> rfl

theorem close_of_empty {s : Splitter} (empty : s.current = []) : s.close = s :=
  if_pos (List.isEmpty_iff.mpr empty)

theorem close_of_filled {s : Splitter} (filled : s.current ≠ []) :
    s.close = { s with current := [], words := String.ofList s.current.reverse :: s.words } :=
  if_neg (mt List.isEmpty_iff.mp filled)

theorem current_close (s : Splitter) : s.close.current = [] := by
  by_cases empty : s.current = []
  · rw [close_of_empty empty, empty]
  · rw [close_of_filled empty]

theorem close_close (s : Splitter) : s.close.close = s.close := close_of_empty (current_close s)

/-! One character. -/

section
variable {s : Splitter} {c q : Char}

theorem step_leaves (inside : s.quote = some q) : s.step q = { s with quote := none } := by
  unfold step
  rw [inside]
  exact if_pos rfl

theorem step_inside (inside : s.quote = some q) (other : c ≠ q) : s.step c = s.keep c := by
  unfold step
  rw [inside]
  exact if_neg other

variable (outside : s.quote = none)
include outside

theorem step_eq : s.step c =
    if IsQuote c then { s with quote := some c }
    else if OpensBracket c then { s.keep c with depth := s.depth + 1 }
    else if ClosesBracket c then { s.keep c with depth := s.depth - 1 }
    else if isBlank c ∧ s.depth = 0 then s.close
    else s.keep c := by
  unfold step
  rw [outside]
  rfl

theorem step_enters (quote : IsQuote c) : s.step c = { s with quote := some c } := by
  rw [step_eq outside, if_pos quote]

theorem step_separates (blank : isBlank c = true) (flat : s.depth = 0) : s.step c = s.close := by
  obtain ⟨unquoted, opens, closes⟩ := blank_unmarked blank
  rw [step_eq outside, if_neg unquoted, if_neg opens, if_neg closes, if_pos ⟨blank, flat⟩]

theorem step_keeps (unquoted : ¬ IsQuote c) (solid : ¬ (isBlank c = true ∧ s.depth = 0)) :
    s.step c = { s.keep c with depth := level s.depth c } := by
  rw [step_eq outside, if_neg unquoted]
  unfold level
  by_cases opens : OpensBracket c
  · rw [if_pos opens, if_pos opens]
  · rw [if_neg opens, if_neg opens]
    by_cases closes : ClosesBracket c
    · rw [if_pos closes, if_pos closes]
    · rw [if_neg closes, if_neg closes, if_neg solid]
      rfl

/-- Outside of quotes every other character counts towards the depth as it is. -/
theorem level_step (unquoted : ¬ IsQuote c) :
    (s.step c).quote = none ∧ (s.step c).depth = level s.depth c := by
  by_cases gap : isBlank c = true ∧ s.depth = 0
  · obtain ⟨-, opens, closes⟩ := blank_unmarked gap.1
    rw [step_separates outside gap.1 gap.2, level, if_neg opens, if_neg closes]
    exact ⟨(quote_close s).trans outside, depth_close s⟩
  · rw [step_keeps outside unquoted gap]
    exact ⟨outside, rfl⟩

end

/-! A front of the line. -/

/-- The splitter behind a text. -/
def behind (text : List Char) : Splitter := text.foldl step start

theorem behind_concat (text : List Char) (c : Char) : behind (text ++ [c]) = (behind text).step c :=
  List.foldl_concat ..

theorem foldl_inside {s : Splitter} {q : Char} (inside : s.quote = some q) {body : List Char}
    (other : q ∉ body) : body.foldl step s = { s with current := body.reverse ++ s.current } := by
  induction body generalizing s with
  | nil => rfl
  | cons c body ih =>
    rw [List.mem_cons, not_or] at other
    have kept := step_inside inside (Ne.symm other.1)
    rw [List.foldl_cons, kept, ih (s := s.keep c) inside other.2]
    simp [keep]

/-- A quote and what stands behind it up to any place before it is closed. -/
theorem behind_quote {text body : List Char} {q : Char} (outside : (behind text).quote = none)
    (quote : IsQuote q) (inside : q ∉ body) : behind (text ++ q :: body) =
      { behind text with quote := some q, current := body.reverse ++ (behind text).current } := by
  have entered := step_enters outside quote
  have opened : ((behind text).step q).quote = some q := congrArg Splitter.quote entered
  rw [List.append_cons, behind, List.foldl_append]
  change body.foldl step (behind (text ++ [q])) = _
  rw [behind_concat, foldl_inside opened inside, entered]

theorem behind_closed {text outside : List Char} (closed : Closed text outside) :
    (behind text).quote = none ∧ (behind text).depth = depthOf outside := by
  induction closed with
  | nil => exact ⟨rfl, rfl⟩
  | @bare text outside c before unquoted ih =>
    obtain ⟨flat, deep⟩ := level_step ih.1 unquoted
    rw [behind_concat, depthOf, List.foldl_concat]
    exact ⟨flat, deep.trans (congrArg (level · c) ih.2)⟩
  | @quoted text outside body q before quote inside ih =>
    have read := behind_quote ih.1 quote inside
    rw [behind_concat, step_leaves (congrArg Splitter.quote read), read]
    exact ⟨rfl, ih.2⟩

theorem behind_open {text : List Char} {q : Char} (opened : Open q text) :
    (behind text).quote = some q := by
  cases opened with
  | quoted before quote inside => rw [behind_quote (behind_closed before).1 quote inside]

end Splitter

/-- Every text ends outside of its quotes or in one of them. -/
theorem closed_or_open (text : List Char) :
    (∃ outside, Closed text outside) ∨ ∃ q, Open q text := by
  induction text using List.reverseRecOn with
  | nil => exact .inl ⟨[], .nil⟩
  | append_singleton text c ih =>
    rcases ih with ⟨outside, closed⟩ | ⟨q, opened⟩
    · by_cases quote : IsQuote c
      · exact .inr ⟨c, .quoted closed quote List.not_mem_nil⟩
      · exact .inl ⟨_, .bare closed quote⟩
    · obtain ⟨before, quote, inside⟩ := opened
      by_cases same : c = q
      · subst same
        exact .inl ⟨_, .quoted before quote inside⟩
      · refine .inr ⟨q, ?_⟩
        rw [List.append_assoc, List.cons_append]
        refine .quoted before quote ?_
        rw [List.mem_append, List.mem_singleton, not_or]
        exact ⟨inside, Ne.symm same⟩

theorem not_open_of_closed {text outside : List Char} (closed : Closed text outside) (q : Char) :
    ¬ Open q text := by
  intro opened
  have quote := Splitter.behind_open opened
  rw [(Splitter.behind_closed closed).1] at quote
  cases quote

theorem splitWords_eq_ok_iff {text : List Char} {words : List String} :
    splitWords text = .ok words ↔
      (Splitter.behind text).quote = none ∧ (Splitter.behind text).close.words.reverse = words := by
  change (if (Splitter.behind text).quote.isSome then _ else _) = _ ↔ _
  cases (Splitter.behind text).quote with
  | none => exact ⟨fun same => ⟨rfl, Except.ok.inj same⟩, fun same => congrArg Except.ok same.2⟩
  | some q => exact ⟨nofun, nofun⟩

theorem splitWords_open {text : List Char} {q : Char} (opened : Open q text) :
    splitWords text = .error (.usage .unterminatedQuote) := by
  change (if (Splitter.behind text).quote.isSome then _ else _) = _
  rw [Splitter.behind_open opened]
  rfl

/-- A line is refused exactly if one of its quotes is left open. -/
theorem splitWords_eq_error_iff (text : List Char) (e : InspectError) :
    splitWords text = .error e ↔ e = .usage .unterminatedQuote ∧ ∃ q, Open q text := by
  constructor
  · intro failed
    rcases closed_or_open text with ⟨outside, closed⟩ | ⟨q, opened⟩
    · rw [splitWords_eq_ok_iff.mpr ⟨(Splitter.behind_closed closed).1, rfl⟩] at failed
      cases failed
    · rw [splitWords_open opened] at failed
      cases failed
      exact ⟨rfl, q, opened⟩
  · rintro ⟨rfl, q, opened⟩
    exact splitWords_open opened

end HeapLens.Shell
