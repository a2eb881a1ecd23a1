import HeapLens.Proofs.Shell.Quotes

/-!
Where the characters of the words stand in a line. A place belongs to a word unless there is a quote
that delimits or white space outside of quotes and brackets. Main statement: the words of a line are
what stands at the places that belong to words, in groups that only such white space parts.
-/
namespace HeapLens.Shell
open HeapLens.Text

/-! Places in a text. -/

/-- The character at a place opens a quote or closes the one that is open. -/
def Delimits (text : List Char) (i : Nat) : Prop :=
  ∃ c, text[i]? = some c ∧
    (IsQuote c ∧ (∃ outside, Closed (text.take i) outside) ∨ Open c (text.take i))

/-- The character at a place is white space outside of quotes and brackets. -/
def Separates (text : List Char) (i : Nat) : Prop :=
  ∃ c outside, text[i]? = some c ∧ isBlank c = true ∧ Closed (text.take i) outside ∧
    depthOf outside = 0

/-- The character at a place belongs to a word. -/
def Kept (text : List Char) (i : Nat) : Prop :=
  i < text.length ∧ ¬ Delimits text i ∧ ¬ Separates text i

/-- Nothing between two places parts words. -/
def Joined (text : List Char) (i j : Nat) : Prop := ∀ k, i < k → k < j → ¬ Separates text k

/-- The characters at some places. -/
def letters (text : List Char) (places : List Nat) : List Char := places.filterMap (text[·]?)

def Share (groups : List (List Nat)) (i j : Nat) : Prop := ∃ g ∈ groups, i ∈ g ∧ j ∈ g

/-- The places that belong to words in order, grouped by the words that they belong to. -/
structure Divides (text : List Char) (groups : List (List Nat)) : Prop where
  filled : ∀ g ∈ groups, g ≠ []
  ordered : groups.flatten.Pairwise (· < ·)
  kept : ∀ i, i ∈ groups.flatten ↔ Kept text i
  together : ∀ i j, Kept text i → Kept text j → i < j → (Share groups i j ↔ Joined text i j)

/-! What one character does. -/

theorem kept_of_neither {text : List Char} {n : Nat} {c : Char} (here : text[n]? = some c)
    (delimits : ¬ Delimits text n) (separates : ¬ Separates text n) : Kept text n :=
  ⟨(List.getElem?_eq_some_iff.mp here).1, delimits, separates⟩

/-- A character goes to the word, is a quote that delimits, or ends the word. -/
theorem step_cases {text : List Char} {n : Nat} {c : Char} (here : text[n]? = some c)
    {s : Splitter} (state : s = .behind (text.take n)) :
    (Kept text n ∧ ∃ depth, s.step c = { s.keep c with depth := depth }) ∨
    (Delimits text n ∧ ¬ Separates text n ∧ ∃ quote, s.step c = { s with quote := quote }) ∨
    (Separates text n ∧ s.step c = s.close) := by
  subst state
  rcases closed_or_open (text.take n) with ⟨outside, closed⟩ | ⟨q, opened⟩
  · obtain ⟨flat, deep⟩ := Splitter.behind_closed closed
    by_cases quote : IsQuote c
    · refine .inr (.inl ⟨⟨c, here, .inl ⟨quote, outside, closed⟩⟩, ?_, _,
        Splitter.step_enters flat quote⟩)
      rintro ⟨d, other, there, blank, -⟩
      cases here.symm.trans there
      exact (blank_unmarked blank).1 quote
    · have delimits : ¬ Delimits text n := by
        rintro ⟨d, there, ⟨unquoted, -⟩ | opened⟩
        · cases here.symm.trans there
          exact quote unquoted
        · exact not_open_of_closed closed d opened
      by_cases gap : isBlank c = true ∧ (Splitter.behind (text.take n)).depth = 0
      · exact .inr (.inr ⟨⟨c, outside, here, gap.1, closed, deep ▸ gap.2⟩,
          Splitter.step_separates flat gap.1 gap.2⟩)
      · refine .inl ⟨kept_of_neither here delimits ?_, _, Splitter.step_keeps flat quote gap⟩
        rintro ⟨d, other, there, blank, others, low⟩
        cases here.symm.trans there
        exact gap ⟨blank, (Splitter.behind_closed others).2.trans low⟩
  · have inside := Splitter.behind_open opened
    have separates : ¬ Separates text n := by
      rintro ⟨d, outside, -, -, closed, -⟩
      exact not_open_of_closed closed q opened
    by_cases same : c = q
    · subst same
      exact .inr (.inl ⟨⟨c, here, .inr opened⟩, separates, _, Splitter.step_leaves inside⟩)
    · refine .inl ⟨kept_of_neither here ?_ separates, _, Splitter.step_inside inside same⟩
      rintro ⟨d, there, ⟨-, outside, closed⟩ | other⟩
      · exact not_open_of_closed closed q opened
      · cases here.symm.trans there
        exact same (Option.some.inj ((Splitter.behind_open other).symm.trans inside))

/-! Groups of places. -/

/-- The groups with the last one, if there is something in it. -/
def finish (found : List (List Nat)) (last : List Nat) : List (List Nat) :=
  if last = [] then found else found ++ [last]

theorem flatten_finish (found : List (List Nat)) (last : List Nat) :
    (finish found last).flatten = found.flatten ++ last := by
  unfold finish
  split
  · next none => rw [none, List.append_nil]
  · exact List.flatten_concat

theorem filled_finish {found : List (List Nat)} (filled : ∀ g ∈ found, g ≠ []) (last : List Nat) :
    ∀ g ∈ finish found last, g ≠ [] := by
  unfold finish
  split
  · exact filled
  · next some =>
    intro g member
    rcases List.mem_append.mp member with member | member
    · exact filled g member
    · rwa [List.mem_singleton.mp member]

theorem share_finish (found : List (List Nat)) (last : List Nat) (i j : Nat) :
    Share (finish found last) i j ↔ Share found i j ∨ i ∈ last ∧ j ∈ last := by
  unfold finish
  split
  · next none => simp [none]
  · simp only [Share, List.mem_append, List.mem_singleton, or_and_right, exists_or, exists_eq_left]

theorem joined_succ {text : List Char} {i n : Nat} :
    Joined text i (n + 1) ↔ Joined text i n ∧ (i < n → ¬ Separates text n) := by
  constructor
  · exact fun joined => ⟨fun k above below => joined k above (Nat.lt_succ_of_lt below),
      fun above => joined n above (Nat.lt_succ_self n)⟩
  · rintro ⟨joined, here⟩ k above below
    rcases Nat.lt_succ_iff_lt_or_eq.mp below with below | rfl
    · exact joined k above below
    · exact here above

/-- The groups in front of a place `n`; the last one goes on there. -/
structure Grouped (text : List Char) (n : Nat) (found : List (List Nat)) (last : List Nat) :
    Prop where
  filled : ∀ g ∈ found, g ≠ []
  ordered : (found.flatten ++ last).Pairwise (· < ·)
  kept : ∀ i, i ∈ found.flatten ++ last ↔ i < n ∧ Kept text i
  ended : ∀ i ∈ found.flatten, ¬ Joined text i n
  running : ∀ i ∈ last, Joined text i n
  together : ∀ i j, Kept text i → Kept text j → i < j → j < n →
    (Share found i j ∨ i ∈ last ∧ j ∈ last ↔ Joined text i j)

namespace Grouped
variable {text : List Char} {n : Nat} {found : List (List Nat)} {last : List Nat}

theorem nil (text : List Char) : Grouped text 0 [] [] where
  filled := nofun
  ordered := .nil
  kept i := by simp
  ended := nofun
  running := nofun
  together i j _ _ _ below := absurd below (Nat.not_lt_zero j)

theorem mem_found_or_last (grouped : Grouped text n found last) {i : Nat} (kept : Kept text i)
    (below : i < n) : i ∈ found.flatten ∨ i ∈ last :=
  List.mem_append.mp ((grouped.kept i).mpr ⟨below, kept⟩)

theorem mem_last_iff (grouped : Grouped text n found last) {i : Nat} (kept : Kept text i)
    (below : i < n) : i ∈ last ↔ Joined text i n := by
  refine ⟨grouped.running i, fun joined => ?_⟩
  rcases grouped.mem_found_or_last kept below with ended | running
  · exact absurd joined (grouped.ended i ended)
  · exact running

theorem lt (grouped : Grouped text n found last) {i : Nat} (member : i ∈ found.flatten ++ last) :
    i < n := ((grouped.kept i).mp member).1

theorem not_share (grouped : Grouped text n found last) (i : Nat) : ¬ Share found i n := by
  rintro ⟨g, listed, -, member⟩
  have inside := List.mem_append_left last (List.mem_flatten_of_mem listed member)
  exact absurd (grouped.lt inside) (Nat.lt_irrefl n)

/-- A character of the word that is being read. -/
theorem keep (grouped : Grouped text n found last) (kept : Kept text n) :
    Grouped text (n + 1) found (last ++ [n]) where
  filled := grouped.filled
  ordered := by
    rw [← List.append_assoc, List.pairwise_append]
    refine ⟨grouped.ordered, List.pairwise_singleton .., fun i member j single => ?_⟩
    rw [List.mem_singleton.mp single]
    exact grouped.lt member
  kept i := by
    rw [← List.append_assoc, List.mem_append, grouped.kept, List.mem_singleton,
      Nat.lt_succ_iff_lt_or_eq]
    constructor
    · rintro (⟨below, here⟩ | rfl)
      · exact ⟨.inl below, here⟩
      · exact ⟨.inr rfl, kept⟩
    · rintro ⟨below | rfl, here⟩
      · exact .inl ⟨below, here⟩
      · exact .inr rfl
  ended i member joined := grouped.ended i member (joined_succ.mp joined).1
  running i member := by
    rcases List.mem_append.mp member with member | single
    · exact joined_succ.mpr ⟨grouped.running i member, fun _ => kept.2.2⟩
    · obtain rfl := List.mem_singleton.mp single
      intro k above below
      omega
  together i j keptI keptJ less below := by
    simp only [List.mem_append, List.mem_singleton]
    rcases Nat.lt_succ_iff_lt_or_eq.mp below with below | rfl
    · have other : i ≠ n := by omega
      have later : j ≠ n := by omega
      simp only [other, later, or_false]
      exact grouped.together i j keptI keptJ less below
    · have other : i ≠ j := by omega
      simp only [other, or_false, or_true, and_true, grouped.not_share i, false_or]
      exact grouped.mem_last_iff keptI less

/-- A quote that delimits. -/
theorem skip (grouped : Grouped text n found last) (delimits : Delimits text n)
    (separates : ¬ Separates text n) : Grouped text (n + 1) found last where
  filled := grouped.filled
  ordered := grouped.ordered
  kept i := by
    rw [grouped.kept, Nat.lt_succ_iff_lt_or_eq]
    constructor
    · exact fun ⟨below, kept⟩ => ⟨.inl below, kept⟩
    · rintro ⟨below | rfl, kept⟩
      · exact ⟨below, kept⟩
      · exact absurd delimits kept.2.1
  ended i member joined := grouped.ended i member (joined_succ.mp joined).1
  running i member := joined_succ.mpr ⟨grouped.running i member, fun _ => separates⟩
  together i j keptI keptJ less below := by
    rcases Nat.lt_succ_iff_lt_or_eq.mp below with below | rfl
    · exact grouped.together i j keptI keptJ less below
    · exact absurd delimits keptJ.2.1

/-- White space that ends the word. -/
theorem part (grouped : Grouped text n found last) (separates : Separates text n) :
    Grouped text (n + 1) (finish found last) [] where
  filled := filled_finish grouped.filled last
  ordered := by
    rw [List.append_nil, flatten_finish]
    exact grouped.ordered
  kept i := by
    rw [List.append_nil, flatten_finish, grouped.kept, Nat.lt_succ_iff_lt_or_eq]
    constructor
    · exact fun ⟨below, kept⟩ => ⟨.inl below, kept⟩
    · rintro ⟨below | rfl, kept⟩
      · exact ⟨below, kept⟩
      · exact absurd separates kept.2.2
  ended i member joined := by
    rw [flatten_finish] at member
    exact (joined_succ.mp joined).2 (grouped.lt member) separates
  running := nofun
  together i j keptI keptJ less below := by
    rw [share_finish]
    rcases Nat.lt_succ_iff_lt_or_eq.mp below with below | rfl
    · simp only [List.not_mem_nil, and_self, or_false]
      exact grouped.together i j keptI keptJ less below
    · exact absurd separates keptJ.2.2

/-- Behind the last character the groups are those of the words. -/
theorem divides (grouped : Grouped text text.length found last) :
    Divides text (finish found last) where
  filled := filled_finish grouped.filled last
  ordered := by
    rw [flatten_finish]
    exact grouped.ordered
  kept i := by
    rw [flatten_finish, grouped.kept]
    exact ⟨And.right, fun kept => ⟨kept.1, kept⟩⟩
  together i j keptI keptJ less := by
    rw [share_finish]
    exact grouped.together i j keptI keptJ less keptJ.1

end Grouped

/-! The line. -/

def wordAt (text : List Char) (places : List Nat) : String := String.ofList (letters text places)

theorem letters_ne_nil {text : List Char} {places : List Nat} (some : places ≠ [])
    (within : ∀ i ∈ places, i < text.length) : letters text places ≠ [] := by
  obtain ⟨i, rest, rfl⟩ := List.exists_cons_of_ne_nil some
  have here := List.getElem?_eq_getElem (within i (.head _))
  rw [letters, List.filterMap_cons_some here]
  exact List.cons_ne_nil _ _

namespace Splitter

/-- The words found and the one being read are those at the places of the groups. -/
structure Holds (s : Splitter) (text : List Char) (found : List (List Nat)) (last : List Nat) :
    Prop where
  words : s.words.reverse = found.map (wordAt text)
  current : s.current.reverse = letters text last

theorem Holds.close {s : Splitter} {text : List Char} {found : List (List Nat)} {last : List Nat}
    (holds : s.Holds text found last) (within : ∀ i ∈ last, i < text.length) :
    s.close.Holds text (finish found last) [] := by
  refine ⟨?_, by rw [current_close]; rfl⟩
  unfold finish
  by_cases none : last = []
  · have empty : s.current = [] := by
      rw [← List.reverse_eq_nil_iff, holds.current, none]
      rfl
    rw [if_pos none, close_of_empty empty]
    exact holds.words
  · have filled : s.current ≠ [] := by
      rw [Ne, ← List.reverse_eq_nil_iff, holds.current]
      exact letters_ne_nil none within
    rw [if_neg none, close_of_filled filled, List.reverse_cons, holds.words, holds.current,
      List.map_append]
    rfl

/-- In front of every place the splitter holds the groups of the places before it. -/
theorem exists_grouped (text : List Char) {n : Nat} (within : n ≤ text.length) :
    ∃ found last, Grouped text n found last ∧ (behind (text.take n)).Holds text found last := by
  induction n with
  | zero => exact ⟨[], [], .nil text, rfl, rfl⟩
  | succ n ih =>
    obtain ⟨found, last, grouped, holds⟩ := ih (Nat.le_of_succ_le within)
    have here : text[n]? = some text[n] := List.getElem?_eq_getElem within
    have stepped : behind (text.take (n + 1)) = (behind (text.take n)).step text[n] := by
      rw [List.take_add_one, here, Option.toList_some, behind_concat]
    rw [stepped]
    rcases step_cases here rfl with ⟨kept, depth, same⟩ | ⟨delimits, apart, quote, same⟩ |
      ⟨separates, same⟩
    · refine ⟨found, last ++ [n], grouped.keep kept, ?_⟩
      rw [same]
      refine ⟨holds.words, ?_⟩
      have single : letters text [n] = [text[n]] := List.filterMap_cons_some here
      rw [letters, List.filterMap_append, ← letters, ← letters, single, ← holds.current]
      exact List.reverse_cons
    · refine ⟨found, last, grouped.skip delimits apart, ?_⟩
      rw [same]
      exact ⟨holds.words, holds.current⟩
    · refine ⟨finish found last, [], grouped.part separates, ?_⟩
      rw [same]
      refine holds.close fun i member => ?_
      have := grouped.lt (List.mem_append_right _ member)
      omega

end Splitter

/-- The words of a line are those at the places of some groups that divide it. -/
theorem splitWords_groups {text : List Char} {words : List String}
    (split : splitWords text = .ok words) :
    ∃ groups, Divides text groups ∧ words = groups.map (wordAt text) := by
  obtain ⟨-, rfl⟩ := splitWords_eq_ok_iff.mp split
  obtain ⟨found, last, grouped, holds⟩ := Splitter.exists_grouped text (Nat.le_refl _)
  rw [List.take_length] at holds
  have within : ∀ i ∈ last, i < text.length :=
    fun i member => grouped.lt (List.mem_append_right _ member)
  exact ⟨finish found last, grouped.divides, (holds.close within).words⟩

namespace Divides
variable {text : List Char} {groups : List (List Nat)}

theorem word_ne_empty (divides : Divides text groups) :
    ∀ word ∈ groups.map (wordAt text), word ≠ "" := by
  intro word member
  obtain ⟨g, listed, rfl⟩ := List.mem_map.mp member
  rw [Ne, ← String.toList_eq_nil_iff, wordAt, String.toList_ofList]
  refine letters_ne_nil (divides.filled g listed) fun i inside => ?_
  exact ((divides.kept i).mp (List.mem_flatten_of_mem listed inside)).1

end Divides

theorem letters_flatten (text : List Char) (groups : List (List Nat)) :
    (groups.map (wordAt text)).flatMap String.toList = letters text groups.flatten := by
  rw [List.flatMap_map, letters, List.filterMap_flatten, List.flatMap_def]
  congr 1
  exact List.map_congr_left fun g _ => String.toList_ofList

end HeapLens.Shell
