import HeapLens.Proofs.Shell.Places

/-!
Words of a line, character by character. Main statement: a line is split unless a quote is left
open; no word is empty, and all characters are kept in order but the quotes that delimit and the
white space outside of quotes and brackets, which alone parts words. So a text whose brackets pair
up around all its white space is a word as it stands, however deep they are.
-/
namespace HeapLens.Shell
open HeapLens.Text

/-! Brackets that pair up. -/

/-- A text without quotes whose brackets pair up, each with one of either kind; white space stands
only between them, or anywhere if the text itself does. -/
inductive Bracketed : Bool → List Char → Prop where
  | nil {inside : Bool} : Bracketed inside []
  | char {inside : Bool} {c : Char} {text : List Char} (unquoted : ¬ IsQuote c)
      (unopened : ¬ OpensBracket c) (unclosed : ¬ ClosesBracket c)
      (solid : isBlank c = true → inside = true) (behind : Bracketed inside text) :
      Bracketed inside (c :: text)
  | group {inside : Bool} {first last : Char} {inner text : List Char} (opens : OpensBracket first)
      (closes : ClosesBracket last) (within : Bracketed true inner)
      (behind : Bracketed inside text) : Bracketed inside (first :: (inner ++ last :: text))

theorem Bracketed.append {inside : Bool} {front back : List Char} (left : Bracketed inside front)
    (right : Bracketed inside back) : Bracketed inside (front ++ back) := by
  induction left with
  | nil => exact right
  | char unquoted unopened unclosed solid behind ih =>
    exact .char unquoted unopened unclosed solid (ih right)
  | group opens closes within behind _ ih =>
    rw [List.cons_append, List.append_assoc, List.cons_append]
    exact .group opens closes within (ih right)

/-- A character that needs no partner, in brackets or outside of them. -/
def isSingle (inside : Bool) (c : Char) : Bool :=
  !decide (IsQuote c) && !decide (OpensBracket c) && !decide (ClosesBracket c) &&
    (!isBlank c || inside)

theorem bracketed_of_all {inside : Bool} {text : List Char}
    (all : text.all (isSingle inside) = true) : Bracketed inside text := by
  induction text with
  | nil => exact .nil
  | cons c text ih =>
    rw [List.all_cons, Bool.and_eq_true] at all
    obtain ⟨single, all⟩ := all
    simp only [isSingle, Bool.and_eq_true, Bool.not_eq_true', decide_eq_false_iff_not] at single
    obtain ⟨⟨⟨unquoted, unopened⟩, unclosed⟩, solid⟩ := single
    refine .char unquoted unopened unclosed (fun blank => ?_) (ih all)
    rwa [blank] at solid

theorem bracket_unquoted {c : Char} (bracket : OpensBracket c ∨ ClosesBracket c) :
    ¬ IsQuote c ∧ isBlank c = false := by
  rcases bracket with (rfl | rfl) | (rfl | rfl) <;> decide

theorem level_opens {c : Char} (opens : OpensBracket c) (depth : Nat) :
    level depth c = depth + 1 := if_pos opens

theorem level_closes {c : Char} (closes : ClosesBracket c) (depth : Nat) :
    level depth c = depth - 1 := by
  have unopened : ¬ OpensBracket c := by rcases closes with rfl | rfl <;> decide
  rw [level, if_neg unopened, if_pos closes]

namespace Splitter

section
variable {depth : Nat} {current : List Char} {words : List String}

/-- A bracket is kept, and counted. -/
theorem step_bracket {c : Char} (bracket : OpensBracket c ∨ ClosesBracket c) :
    step ⟨none, depth, current, words⟩ c = ⟨none, level depth c, c :: current, words⟩ := by
  obtain ⟨unquoted, solid⟩ := bracket_unquoted bracket
  refine step_keeps rfl unquoted fun gap => ?_
  rw [solid] at gap
  cases gap.1

/-- Whatever stands between brackets that pair up goes to the word, and the depth is as before. -/
theorem foldl_bracketed {inside : Bool} {text : List Char} (bracketed : Bracketed inside text)
    (deep : inside = true → depth ≠ 0) : text.foldl step ⟨none, depth, current, words⟩ =
      ⟨none, depth, text.reverse ++ current, words⟩ := by
  induction bracketed generalizing depth current with
  | nil => rfl
  | @char inside c text unquoted unopened unclosed solid behind ih =>
    have kept : step ⟨none, depth, current, words⟩ c = ⟨none, level depth c, c :: current, words⟩ :=
      step_keeps rfl unquoted fun gap => deep (solid gap.1) gap.2
    rw [level, if_neg unopened, if_neg unclosed] at kept
    rw [List.foldl_cons, kept, ih deep, List.reverse_cons, List.append_assoc]
    rfl
  | @group inside first last inner text opens closes within behind ihWithin ihBehind =>
    -- inside of the group the depth is not zero, whatever it was in front of it
    rw [List.foldl_cons, step_bracket (.inl opens), level_opens opens, List.foldl_append,
      ihWithin fun _ => Nat.add_one_ne_zero depth, List.foldl_cons, step_bracket (.inr closes),
      level_closes closes, Nat.add_sub_cancel, ihBehind deep]
    simp

end

/-! Words in front of others. -/

/-- The splitter with words found before. -/
def under (s : Splitter) (before : List String) : Splitter := { s with words := s.words ++ before }

theorem close_under (s : Splitter) (before : List String) :
    (s.under before).close = s.close.under before := by
  by_cases empty : s.current = []
  · rw [close_of_empty empty]
    exact close_of_empty empty
  · rw [close_of_filled empty]
    exact close_of_filled empty

theorem step_under (s : Splitter) (before : List String) (c : Char) :
    (s.under before).step c = (s.step c).under before := by
  cases outside : s.quote with
  | some q =>
    have same : (s.under before).quote = some q := outside
    by_cases ends : c = q
    · subst ends
      rw [step_leaves outside, step_leaves same]
      rfl
    · rw [step_inside outside ends, step_inside same ends]
      rfl
  | none =>
    have same : (s.under before).quote = none := outside
    by_cases quote : IsQuote c
    · rw [step_enters outside quote, step_enters same quote]
      rfl
    · by_cases gap : isBlank c = true ∧ s.depth = 0
      · rw [step_separates outside gap.1 gap.2, step_separates same gap.1 gap.2, close_under]
      · rw [step_keeps outside quote gap, step_keeps same quote gap]
        rfl

theorem foldl_under (s : Splitter) (before : List String) (text : List Char) :
    text.foldl step (s.under before) = (text.foldl step s).under before := by
  induction text generalizing s with
  | nil => rfl
  | cons c text ih => rw [List.foldl_cons, step_under, ih, List.foldl_cons]

/-- White space outside of quotes and brackets ends a word, and so does the end of a line. -/
theorem close_foldl_close {back : List Char} (apart : ∀ c ∈ back.head?, isBlank c = true)
    {s : Splitter} (outside : s.quote = none) (flat : s.depth = 0) :
    (back.foldl step s).close = (back.foldl step s.close).close := by
  cases back with
  | nil => exact (close_close s).symm
  | cons c back =>
    have blank := apart c rfl
    rw [List.foldl_cons, step_separates outside blank flat, List.foldl_cons,
      step_separates ((quote_close s).trans outside) blank ((depth_close s).trans flat),
      close_close]

/-- Behind white space outside of quotes and brackets no word has begun. -/
theorem current_behind {front outside : List Char} (closed : Closed front outside)
    (flat : depthOf outside = 0) (apart : ∀ c ∈ front.getLast?, isBlank c = true) :
    (behind front).current = [] := by
  cases closed with
  | nil => rfl
  | @bare text outside c before unquoted =>
    have blank := apart c List.getLast?_concat
    obtain ⟨-, opens, closes⟩ := blank_unmarked blank
    obtain ⟨quote, depth⟩ := behind_closed before
    rw [depthOf, List.foldl_concat, level, if_neg opens, if_neg closes] at flat
    rw [behind_concat, step_separates quote blank (depth.trans flat), current_close]
  | @quoted text outside body q before quote inside =>
    exact absurd quote (blank_unmarked (apart q List.getLast?_concat)).1

end Splitter

/-- A front of a line behind which a word can begin: its quotes and brackets are closed, and white
space is its last character. -/
structure Clear (front : List Char) : Prop where
  flat : ∃ outside, Closed front outside ∧ depthOf outside = 0
  apart : ∀ c ∈ front.getLast?, isBlank c = true

theorem Clear.behind_eq {front : List Char} {before : List String} (clear : Clear front)
    (split : splitWords front = .ok before) :
    Splitter.behind front = ⟨none, 0, [], before.reverse⟩ := by
  obtain ⟨outside, closed, flat⟩ := clear.flat
  obtain ⟨quote, depth⟩ := Splitter.behind_closed closed
  have empty := Splitter.current_behind closed flat clear.apart
  have words := (splitWords_eq_ok_iff.mp split).2
  rw [Splitter.close_of_empty empty] at words
  rw [← words, List.reverse_reverse, ← quote, ← flat, ← depth, ← empty]

/-- A text whose brackets pair up around all its white space is a word, wherever white space or the
ends of the line keep it apart from others. -/
theorem splitWords_bracketed {text : List Char} (bracketed : Bracketed false text)
    (some : text ≠ []) {front back : List Char} {before after : List String} (clear : Clear front)
    (apart : ∀ c ∈ back.head?, isBlank c = true) (first : splitWords front = .ok before)
    (last : splitWords back = .ok after) :
    splitWords (front ++ text ++ back) = .ok (before ++ String.ofList text :: after) := by
  obtain ⟨quote, words⟩ := splitWords_eq_ok_iff.mp last
  have filled : text.reverse ≠ [] := mt List.reverse_eq_nil_iff.mp some
  have read : Splitter.behind (front ++ text ++ back) =
      back.foldl Splitter.step ⟨none, 0, text.reverse, before.reverse⟩ := by
    rw [Splitter.behind, List.foldl_append, List.foldl_append]
    change back.foldl _ (text.foldl _ (Splitter.behind front)) = _
    rw [clear.behind_eq first, Splitter.foldl_bracketed bracketed (absurd · Bool.false_ne_true),
      List.append_nil]
  have ended : (Splitter.mk none 0 text.reverse before.reverse).close =
      Splitter.start.under (String.ofList text :: before.reverse) := by
    rw [Splitter.close_of_filled filled, List.reverse_reverse]
    rfl
  have whole : (Splitter.behind (front ++ text ++ back)).close =
      (Splitter.behind back).close.under (String.ofList text :: before.reverse) := by
    rw [read, Splitter.close_foldl_close apart rfl rfl, ended, Splitter.foldl_under,
      Splitter.close_under]
    rfl
  rw [splitWords_eq_ok_iff, whole, ← Splitter.quote_close, whole]
  refine ⟨(Splitter.quote_close _).trans quote, ?_⟩
  rw [Splitter.under, List.reverse_append, words]
  simp

/-- A line is refused if one of its quotes is left open, and split otherwise: no word is empty, all
characters but the quotes that delimit and the white space outside of quotes and brackets are kept
in order, and two of them share a word unless such white space stands between them. So a cast, or
any text whose brackets pair up around all its white space, is one word of a line. -/
theorem splitWords_divides (text : List Char) :
    (∀ e, splitWords text = .error e ↔ e = .usage .unterminatedQuote ∧ ∃ q, Open q text) ∧
    (∀ words, splitWords text = .ok words → (∀ word ∈ words, word ≠ "") ∧
      ∃ groups, Divides text groups ∧ words = groups.map (wordAt text) ∧
        words.flatMap String.toList = letters text groups.flatten) ∧
    (Bracketed false text → text ≠ [] → ∀ front back before after, Clear front →
      (∀ c ∈ back.head?, isBlank c = true) → splitWords front = .ok before →
      splitWords back = .ok after →
      splitWords (front ++ text ++ back) = .ok (before ++ String.ofList text :: after)) := by
  refine ⟨splitWords_eq_error_iff text, fun words split => ?_, ?_⟩
  · obtain ⟨groups, divides, rfl⟩ := splitWords_groups split
    exact ⟨divides.word_ne_empty, groups, divides, rfl, letters_flatten text groups⟩
  · exact fun bracketed some _ _ _ _ => splitWords_bracketed bracketed some

/-- A quote with white space and a bracket in it, brackets of both kinds that end each other, and a
cast with brackets in its brackets between two words. -/
theorem splitWords_divides_mixed :
    splitWords "a'b) c'd [e )f".toList = .ok ["ab) cd", "[e )f"] ∧
    (∃ groups, Divides "a'b) c'd [e )f".toList groups ∧
      ["ab) cd", "[e )f"] = groups.map (wordAt "a'b) c'd [e )f".toList)) ∧
    Bracketed false "(T (f [ 2 ]) *)0x10".toList ∧
    splitWords "x (T (f [ 2 ]) *)0x10 'a b'".toList = .ok ["x", "(T (f [ 2 ]) *)0x10", "a b"] := by
  have mixed : splitWords "a'b) c'd [e )f".toList = .ok ["ab) cd", "[e )f"] := rfl
  obtain ⟨-, divided, -⟩ := splitWords_divides "a'b) c'd [e )f".toList
  obtain ⟨-, groups, divides, same, -⟩ := divided _ mixed
  have index : Bracketed true ("f ".toList ++ '[' :: (" 2 ".toList ++ [']'])) :=
    (bracketed_of_all (by decide)).append
      (.group (.inr rfl) (.inr rfl) (bracketed_of_all (by decide)) .nil)
  have type : Bracketed true ("T ".toList ++ '(' :: ("f [ 2 ]".toList ++ ')' :: " *".toList)) :=
    (bracketed_of_all (by decide)).append
      (.group (.inl rfl) (.inl rfl) index (bracketed_of_all (by decide)))
  have cast : Bracketed false ('(' :: ("T (f [ 2 ]) *".toList ++ ')' :: "0x10".toList)) :=
    .group (.inl rfl) (.inl rfl) type (bracketed_of_all (by decide))
  have clear : Clear "x ".toList :=
    ⟨⟨_, .bare (.bare .nil (c := 'x') (by decide)) (c := ' ') (by decide), rfl⟩, by
      rintro c ⟨⟩
      rfl⟩
  refine ⟨mixed, ⟨groups, divides, same⟩, cast, ?_⟩
  exact (splitWords_divides "(T (f [ 2 ]) *)0x10".toList).2.2 cast (List.cons_ne_nil _ _)
    "x ".toList " 'a b'".toList ["x"] ["a b"] clear (by rintro c ⟨⟩; rfl) rfl rfl

end HeapLens.Shell
