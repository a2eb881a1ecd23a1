import HeapLens.Shell.Words
import Mathlib.Data.List.Basic

/-!
Words as they are spelled on a prompt line. Any text can stand between single quotes, as long as
each quote of its own is put into double quotes between two pairs of single ones; a text without
quotes, brackets and white space can also stand as it is. Main statement: spelled words, joined by
single spaces, are split into the words again.
-/
namespace HeapLens.Text

/-- A text that has something other than white space at both ends. -/
structure Trimmed (cs : List Char) : Prop where
  first : ∃ c rest, cs = c :: rest ∧ isBlank c = false
  last : ∃ front c, cs = front ++ [c] ∧ isBlank c = false

theorem Trimmed.trim_eq {cs : List Char} (trimmed : Trimmed cs) : trim cs = cs := by
  have left : trimLeft cs = cs := by
    obtain ⟨c, rest, rfl, solid⟩ := trimmed.first
    exact List.dropWhile_cons_of_neg (by rw [solid]; decide)
  obtain ⟨front, c, rfl, solid⟩ := trimmed.last
  rw [trim, left, trimRight, List.reverse_append, List.reverse_singleton, List.singleton_append,
    List.dropWhile_cons_of_neg (by rw [solid]; decide), List.reverse_cons, List.reverse_reverse]

theorem Trimmed.append {cs ds : List Char} (left : Trimmed cs) (mid : List Char)
    (right : Trimmed ds) : Trimmed (cs ++ mid ++ ds) := by
  constructor
  · obtain ⟨c, rest, rfl, solid⟩ := left.first
    exact ⟨c, rest ++ mid ++ ds, by simp, solid⟩
  · obtain ⟨front, c, rfl, solid⟩ := right.last
    exact ⟨cs ++ mid ++ front, c, by simp, solid⟩

theorem trimmed_of_all {cs : List Char} (some : cs ≠ []) (solid : ∀ c ∈ cs, isBlank c = false) :
    Trimmed cs := by
  constructor
  · obtain ⟨c, rest, rfl⟩ := List.exists_cons_of_ne_nil some
    exact ⟨c, rest, rfl, solid c (List.mem_cons_self ..)⟩
  · exact ⟨cs.dropLast, cs.getLast some, (List.dropLast_append_getLast some).symm,
      solid _ (List.getLast_mem some)⟩

theorem trimmed_intercalate {mid : List Char} {parts : List (List Char)} (some : parts ≠ [])
    (trimmed : ∀ cs ∈ parts, Trimmed cs) : Trimmed (mid.intercalate parts) := by
  induction parts with
  | nil => exact absurd rfl some
  | cons cs parts ih =>
    have first := trimmed cs (List.mem_cons_self ..)
    cases parts with
    | nil => rwa [List.intercalate_singleton]
    | cons ds parts =>
      rw [List.intercalate_cons_cons]
      exact first.append mid (ih (List.cons_ne_nil _ _)
        fun es member => trimmed es (List.mem_cons_of_mem _ member))

end HeapLens.Text

namespace HeapLens.Shell
open HeapLens.Text

/-! Spellings. -/

/-- A character between single quotes; a single quote leaves them, stands between double quotes,
and enters them again. -/
def quotedChar (c : Char) : List Char :=
  if c = '\'' then ['\'', '"', '\'', '"', '\''] else [c]

def quoted (text : String) : String :=
  String.ofList ('\'' :: (text.toList.flatMap quotedChar ++ ['\'']))

example : quoted "it's [0]" = "'it'\"'\"'s [0]'" := rfl

/-- A character that means nothing but itself outside quotes. -/
def IsPlain (c : Char) : Prop := c ∉ ['"', '\'', '(', '[', ')', ']'] ∧ isBlank c = false

instance (c : Char) : Decidable (IsPlain c) := by unfold IsPlain; infer_instance

namespace Splitter

/-- Outside quotes and brackets the text puts the word behind what has been read of one. -/
def Adds (text word : List Char) : Prop :=
  ∀ s : Splitter, s.quote = none → s.depth = 0 →
    text.foldl step s = { s with current := word.reverse ++ s.current }

theorem step_plain {s : Splitter} (outside : s.quote = none) {c : Char} (plain : IsPlain c) :
    s.step c = s.keep c := by
  obtain ⟨unmarked, solid⟩ := plain
  simp only [List.mem_cons, List.not_mem_nil, or_false, not_or] at unmarked
  obtain ⟨double, single, round, square, roundEnd, squareEnd⟩ := unmarked
  unfold step
  rw [outside]
  simp [double, single, round, square, roundEnd, squareEnd, solid]

theorem adds_plain {cs : List Char} (plain : ∀ c ∈ cs, IsPlain c) : Adds cs cs := by
  intro s outside level
  induction cs generalizing s with
  | nil => rfl
  | cons c cs ih =>
    have kept := step_plain outside (plain c (List.mem_cons_self ..))
    rw [List.foldl_cons, kept,
      ih (fun d member => plain d (List.mem_cons_of_mem _ member)) (s.keep c) outside level]
    simp [keep]

/-- Between the outer quotes, however often they are left and entered again. -/
theorem foldl_quoted (cs : List Char) (s : Splitter) (inside : s.quote = some '\'') :
    (cs.flatMap quotedChar).foldl step s = { s with current := cs.reverse ++ s.current } := by
  induction cs generalizing s with
  | nil => rfl
  | cons c cs ih =>
    have one : (quotedChar c).foldl step s = s.keep c := by
      obtain ⟨quote, depth, current, words⟩ := s
      obtain rfl : quote = some '\'' := inside
      unfold quotedChar
      split
      · next same => subst same; rfl
      · next other => exact if_neg other
    rw [List.flatMap_cons, List.foldl_append, one, ih (s.keep c) inside]
    simp [keep]

theorem adds_quoted (text : String) : Adds (quoted text).toList text.toList := by
  intro s outside level
  obtain ⟨quote, depth, current, words⟩ := s
  obtain rfl : quote = none := outside
  have opened : step ⟨none, depth, current, words⟩ '\'' =
      ⟨some '\'', depth, current, words⟩ := rfl
  rw [quoted, String.toList_ofList, List.foldl_cons, opened, List.foldl_append,
    foldl_quoted _ _ rfl]
  rfl

theorem quote_close (s : Splitter) : s.close.quote = s.quote := by
  unfold close
  split <;> rfl

theorem close_word {word : String} (some : word ≠ "") (found : List String) :
    close ⟨none, 0, word.toList.reverse, found⟩ = ⟨none, 0, [], word :: found⟩ := by
  have filled : word.toList.reverse ≠ [] := by
    rwa [Ne, List.reverse_eq_nil_iff, String.toList_eq_nil_iff]
  rw [close, if_neg (by rwa [List.isEmpty_iff]), List.reverse_reverse, String.ofList_toList]

end Splitter

/-- A text that stands for a word on a line, wherever single spaces keep it apart from others. -/
structure Spells (text word : String) : Prop where
  adds : Splitter.Adds text.toList word.toList
  some : word ≠ ""
  trimmed : Trimmed text.toList

theorem spells_quoted {word : String} (some : word ≠ "") : Spells (quoted word) word where
  adds := Splitter.adds_quoted word
  some := some
  trimmed := {
    first := ⟨'\'', word.toList.flatMap quotedChar ++ ['\''], String.toList_ofList, by decide⟩
    last := ⟨'\'' :: word.toList.flatMap quotedChar, '\'', String.toList_ofList, by decide⟩ }

theorem spells_plain {word : String} (some : word ≠ "") (plain : ∀ c ∈ word.toList, IsPlain c) :
    Spells word word where
  adds := Splitter.adds_plain plain
  some := some
  trimmed := trimmed_of_all (by rwa [Ne, String.toList_eq_nil_iff]) fun c member =>
    (plain c member).2

/-! Splitting. -/

/-- The words of a line, each as it is written and as it is meant. -/
abbrev Spelling := List (String × String)

namespace Spelling

def text (l : Spelling) : String := " ".intercalate (l.map (·.1))

def words (l : Spelling) : List String := l.map (·.2)

/-- The line after a single space, or nothing if it has no words. -/
theorem close_foldl (l : Spelling) (spelled : ∀ p ∈ l, Spells p.1 p.2) (found : List String) :
    (([' '].intercalate (l.map fun p => p.1.toList)).foldl Splitter.step
      ⟨none, 0, [], found⟩).close = ⟨none, 0, [], l.words.reverse ++ found⟩ := by
  induction l generalizing found with
  | nil => rfl
  | cons p l ih =>
    have first := spelled p (List.mem_cons_self ..)
    have added := first.adds ⟨none, 0, [], found⟩ rfl rfl
    have closed := Splitter.close_word first.some found
    rw [List.append_nil] at added
    cases l with
    | nil =>
      rw [List.map_singleton, List.intercalate_singleton, added, closed]
      rfl
    | cons q l =>
      have spaced : Splitter.step ⟨none, 0, p.2.toList.reverse, found⟩ ' ' =
          ⟨none, 0, [], p.2 :: found⟩ := closed
      have rest := ih (fun r member => spelled r (List.mem_cons_of_mem _ member)) (p.2 :: found)
      rw [List.map_cons] at rest
      rw [List.map_cons, List.map_cons, List.intercalate_cons_cons, List.foldl_append,
        List.foldl_append, added, List.foldl_cons, List.foldl_nil, spaced, rest]
      simp [words]

theorem toList_text (l : Spelling) : l.text.toList = [' '].intercalate (l.map fun p => p.1.toList) := by
  rw [text, String.toList_intercalate, List.map_map]
  rfl

/-- Spelled words are split into the words. -/
theorem splitWords_text {l : Spelling} (spelled : ∀ p ∈ l, Spells p.1 p.2) :
    splitWords l.text.toList = .ok l.words := by
  have closed := l.close_foldl spelled []
  rw [← toList_text] at closed
  have balanced : (l.text.toList.foldl Splitter.step .start).quote = none := by
    rw [← Splitter.quote_close]
    exact congrArg Splitter.quote closed
  have read : (l.text.toList.foldl Splitter.step .start).close.words = l.words.reverse :=
    (congrArg Splitter.words closed).trans (List.append_nil _)
  unfold splitWords
  simp [balanced, read]

theorem trimmed_text {l : Spelling} (spelled : ∀ p ∈ l, Spells p.1 p.2) (some : l ≠ []) :
    Trimmed l.text.toList := by
  rw [toList_text]
  apply trimmed_intercalate (by rwa [Ne, List.map_eq_nil_iff])
  intro cs member
  obtain ⟨p, written, rfl⟩ := List.mem_map.mp member
  exact (spelled p written).trimmed

end Spelling
end HeapLens.Shell
