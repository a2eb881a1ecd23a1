import HeapLens.Layout.Standard
import HeapLens.Proofs.Expr.Grammar
import Mathlib.Data.List.DropRight

/-!
Names of pointer types. Main statement: a registered name with stars behind it, however they are
spaced, names the pointers to its layout; so does the name that such a pointer type has itself, and
the type of a cast that is written with the words of the name and as many stars.
-/
namespace HeapLens
open HeapLens.Text

namespace Registry

/-! Names and stars. -/

/-- A name and some stars behind it, with white space anywhere around and between them. -/
inductive Starred (name : List Char) : Nat → List Char → Prop where
  | bare : Starred name 0 name
  | before {stars : Nat} {text : List Char} {c : Char} (blank : isBlank c = true)
      (starred : Starred name stars text) : Starred name stars (c :: text)
  | behind {stars : Nat} {text : List Char} {c : Char} (blank : isBlank c = true)
      (starred : Starred name stars text) : Starred name stars (text ++ [c])
  | star {stars : Nat} {text : List Char} (starred : Starred name stars text) :
      Starred name (stars + 1) (text ++ ['*'])

/-- A name that white space and stars can be told apart from. -/
structure Bare (name : List Char) : Prop where
  trimmed : trim name = name
  unstarred : name.getLast? ≠ some '*'

instance (name : List Char) : Decidable (Bare name) :=
  decidable_of_iff (trim name = name ∧ name.getLast? ≠ some '*')
    ⟨fun both => ⟨both.1, both.2⟩, fun bare => ⟨bare.trimmed, bare.unstarred⟩⟩

theorem Bare.trimLeft_eq {name : List Char} (bare : Bare name) : trimLeft name = name := by
  have shorter : trim name <+: trimLeft name := List.rdropWhile_prefix isBlank (trimLeft name)
  rw [bare.trimmed] at shorter
  exact (List.dropWhile_suffix isBlank).eq_of_length_le shorter.length_le

theorem Bare.last {front : List Char} {c : Char} (bare : Bare (front ++ [c])) :
    isTail c = false := by
  have trimmed : List.rdropWhile isBlank (front ++ [c]) = front ++ [c] := by
    have whole := bare.trimmed
    rw [trim, bare.trimLeft_eq] at whole
    exact whole
  have solid := List.rdropWhile_eq_self_iff.mp trimmed
    (List.append_ne_nil_of_right_ne_nil _ (List.cons_ne_nil _ _))
  rw [List.getLast_concat] at solid
  have other : c ≠ '*' := by
    rintro rfl
    exact bare.unstarred List.getLast?_concat
  simp [isTail, solid, other]

/-! What a name is split into. -/

/-- A star or white space at the end stands behind what the rest is split into. -/
theorem splitStars_tail (text : List Char) {c : Char} (tail : isTail c = true) :
    splitStars (text ++ [c]) =
      ((splitStars text).1, (splitStars text).2 + if c = '*' then 1 else 0) := by
  unfold splitStars
  dsimp only
  rw [List.reverse_concat, List.dropWhile_cons_of_pos tail, List.takeWhile_cons_of_pos tail,
    List.count_cons]
  simp only [beq_iff_eq]

theorem splitStars_solid (text : List Char) {c : Char} (solid : isTail c = false) :
    splitStars (text ++ [c]) = (trimLeft (text ++ [c]), 0) := by
  have last := Bool.eq_false_iff.mp solid
  unfold splitStars
  dsimp only
  rw [List.reverse_concat, List.dropWhile_cons_of_neg last, List.takeWhile_cons_of_neg last,
    List.reverse_cons, List.reverse_reverse]
  rfl

theorem isTail_of_isBlank {c : Char} (blank : isBlank c = true) : isTail c = true := by
  rw [isTail, blank]
  rfl

theorem splitStars_star (text : List Char) :
    splitStars (text ++ ['*']) = ((splitStars text).1, (splitStars text).2 + 1) :=
  splitStars_tail text rfl

theorem splitStars_behind (text : List Char) {c : Char} (blank : isBlank c = true) :
    splitStars (text ++ [c]) = splitStars text := by
  have other : c ≠ '*' := by
    rintro rfl
    exact absurd blank (by decide)
  rw [splitStars_tail text (isTail_of_isBlank blank), if_neg other, Nat.add_zero]

theorem splitStars_before (text : List Char) {c : Char} (blank : isBlank c = true) :
    splitStars (c :: text) = splitStars text := by
  -- from the end, where stars are taken off; the front is trimmed only once a name is reached
  induction text using List.reverseRecOn with
  | nil => exact splitStars_behind [] blank
  | append_singleton text d ih =>
    rw [← List.cons_append]
    by_cases tail : isTail d = true
    · rw [splitStars_tail _ tail, splitStars_tail _ tail, ih]
    · have solid := Bool.eq_false_iff.mpr tail
      rw [splitStars_solid _ solid, splitStars_solid _ solid, trimLeft, List.cons_append,
        List.dropWhile_cons_of_pos blank]
      rfl

theorem splitStars_bare {name : List Char} (bare : Bare name) : splitStars name = (name, 0) := by
  rcases List.eq_nil_or_concat name with rfl | ⟨front, c, rfl⟩
  · rfl
  · rw [List.concat_eq_append] at bare ⊢
    rw [splitStars_solid _ bare.last, bare.trimLeft_eq]

/-! Lookup. -/

section
variable (r : Registry) (text : List Char)

theorem lookup_ofList : r.lookup (String.ofList text) =
    match r.get? (String.ofList (splitStars text).1) with
    | some l => .ok (pointers l (splitStars text).2)
    | none => .error (.unknownType (String.ofList (splitStars text).1)) := by
  cases found : r.get? (String.ofList (splitStars text).1) <;>
    simp only [lookup, String.toList_ofList, found]

/-- A star at the end makes the pointer type of what stands before. -/
theorem lookup_star :
    r.lookup (String.ofList (text ++ ['*'])) =
      (r.lookup (String.ofList text)).map Layout.pointerTo := by
  rw [lookup_ofList, lookup_ofList, splitStars_star]
  cases r.get? (String.ofList (splitStars text).1) <;> rfl

theorem lookup_before {c : Char} (blank : isBlank c = true) :
    r.lookup (String.ofList (c :: text)) = r.lookup (String.ofList text) := by
  rw [lookup_ofList, lookup_ofList, splitStars_before text blank]

theorem lookup_behind {c : Char} (blank : isBlank c = true) :
    r.lookup (String.ofList (text ++ [c])) = r.lookup (String.ofList text) := by
  rw [lookup_ofList, lookup_ofList, splitStars_behind text blank]

end

theorem lookup_bare {r : Registry} {name : List Char} (bare : Bare name) {l : Layout}
    (registered : r.get? (String.ofList name) = some l) :
    r.lookup (String.ofList name) = .ok l := by
  rw [lookup_ofList, splitStars_bare bare]
  dsimp only
  rw [registered]
  rfl

theorem lookup_starred {r : Registry} {name text : List Char} {l : Layout} (bare : Bare name)
    (registered : r.get? (String.ofList name) = some l) {stars : Nat}
    (starred : Starred name stars text) :
    r.lookup (String.ofList text) = .ok (pointers l stars) := by
  induction starred with
  | bare => exact lookup_bare bare registered
  | before blank starred ih => rw [lookup_before _ _ blank, ih]
  | behind blank starred ih => rw [lookup_behind _ _ blank, ih]
  | star starred ih =>
    rw [lookup_star, ih]
    rfl

/-! Registered names. -/

/-- Every layout is found under its own name. -/
def Named (r : Registry) : Prop := ∀ name l, r.get? name = some l → l.name = name

theorem named_empty : empty.Named := nofun

theorem Named.insert {r : Registry} (named : r.Named) (l : Layout) : (r.insert l).Named := by
  intro name found registered
  by_cases same : name = l.name
  · subst same
    cases registered.symm.trans (Ordered.lookup_put_self r.entries l.name l)
    rfl
  · exact named name found ((Ordered.lookup_put_of_ne r.entries l same).symm.trans registered)

/-- The registry of some layouts, later ones in the place of earlier ones of the same name. -/
def ofLayouts (layouts : List Layout) : Registry := layouts.foldl insert empty

theorem named_ofLayouts (layouts : List Layout) : (ofLayouts layouts).Named := by
  induction layouts using List.reverseRecOn with
  | nil => exact named_empty
  | append_singleton layouts l ih =>
    rw [ofLayouts, List.foldl_concat]
    exact ih.insert l

/-! Stars that are written. -/

theorem Starred.stars {name text : List Char} (starred : Starred name 0 text) (stars : Nat) :
    Starred name stars (text ++ List.replicate stars '*') := by
  induction stars with
  | zero => rwa [List.replicate_zero, List.append_nil]
  | succ stars ih =>
    rw [List.replicate_succ', ← List.append_assoc]
    exact ih.star

theorem starred_pointers (l : Layout) (stars : Nat) :
    Starred l.name.toList stars (pointers l stars).name.toList := by
  induction stars with
  | zero => exact .bare
  | succ stars ih =>
    have spaced : Starred l.name.toList stars ((pointers l stars).name.toList ++ [' ']) :=
      .behind (by decide) ih
    rw [pointers, Layout.name_pointerTo, String.toList_append,
      show " *".toList = [' '] ++ ['*'] from rfl, ← List.append_assoc]
    exact spaced.star

theorem starred_typeSpelling (words : List String) (stars : Nat) :
    Starred (" ".intercalate words).toList stars (Expr.typeSpelling words stars).toList := by
  unfold Expr.typeSpelling
  dsimp only
  split
  · next none =>
    rw [none]
    exact .bare
  · have spaced : Starred (" ".intercalate words).toList 0
        ((" ".intercalate words).toList ++ [' ']) := .behind (by decide) .bare
    rw [String.toList_append, String.toList_append, show " ".toList = [' '] from rfl,
      String.toList_ofList]
    exact spaced.stars stars

/-- The pointers to a registered layout can be looked up by its name with as many stars, however
they are spaced, by the name that they have themselves, and by the type that a cast is read with. -/
theorem lookup_pointers (layouts : List Layout) {name : String} {l : Layout}
    (registered : (ofLayouts layouts).get? name = some l) (bare : Bare name.toList) (stars : Nat) :
    (∀ text : String, Starred name.toList stars text.toList →
      (ofLayouts layouts).lookup text = .ok (pointers l stars)) ∧
    (ofLayouts layouts).lookup (pointers l stars).name = .ok (pointers l stars) ∧
    ∀ t : Expr.TypeName, " ".intercalate t.words = name → t.stars = stars → ∃ type,
      (ofLayouts layouts).lookup type = .ok (pointers l stars) ∧
      (∀ first rest, first.startsOperand = true →
        Expr.castType (t.tokens ++ .rparen :: first :: rest) = some (type, first :: rest)) ∧
      ∀ (operand : Expr.Derivation .expression) (text : String),
        Expr.Spells (.lparen :: (t.tokens ++ .rparen :: operand.tokens)) text.toList →
        Expr.parse text = .ok (.cast type operand.tree) := by
  have found {text : String} (starred : Starred name.toList stars text.toList) :
      (ofLayouts layouts).lookup text = .ok (pointers l stars) := by
    rw [← String.ofList_toList (s := name)] at registered
    rw [← String.ofList_toList (s := text)]
    exact lookup_starred bare registered starred
  refine ⟨fun _ => found, ?_, ?_⟩
  · have own : l.name = name := named_ofLayouts layouts name l registered
    exact found (own ▸ starred_pointers l stars)
  · rintro t rfl rfl
    refine ⟨t.spelling, found (starred_typeSpelling t.words t.stars),
      fun first rest operand => Expr.castType_of_operand t operand rest, ?_⟩
    intro operand text written
    rw [Expr.parse, Expr.tokenize_spelled written]
    exact Expr.ofTokens_derivation (.cast t operand)

/-- Two stars behind a name of two words, spaced in three ways. -/
theorem lookup_string_pointers :
    (ofLayouts [.value, .string]).get? "struct RString" = some .string ∧
    Bare "struct RString".toList ∧
    (ofLayouts [.value, .string]).lookup "\tstruct RString* *\n" = .ok (pointers .string 2) ∧
    (ofLayouts [.value, .string]).lookup "struct RString * *" = .ok (pointers .string 2) ∧
    ∃ type, (ofLayouts [.value, .string]).lookup type = .ok (pointers .string 2) ∧
      Expr.parse "(struct RString**) x" = .ok (.cast type (.symbol "x")) := by
  have registered : (ofLayouts [.value, .string]).get? "struct RString" = some .string := rfl
  have bare : Bare "struct RString".toList := by decide
  obtain ⟨texts, own, casts⟩ := lookup_pointers _ registered bare 2
  refine ⟨registered, bare, texts _ ?_, own, ?_⟩
  · exact .behind (c := '\n') (by decide) (.star (.behind (c := ' ') (by decide) (.star
      (.before (c := '\t') (by decide) .bare))))
  · obtain ⟨type, named, -, parsed⟩ :=
      casts ⟨["struct", "RString"], 2, List.cons_ne_nil _ _, by decide⟩ rfl rfl
    refine ⟨type, named, parsed (.suffixed (.name "x") []) _ ?_⟩
    have struct : (Expr.Token.name "struct").Written "struct".toList :=
      ⟨⟨'s', _, rfl, rfl, List.all_eq_true.mp rfl⟩, rfl⟩
    have string : (Expr.Token.name "RString").Written "RString".toList :=
      ⟨⟨'R', _, rfl, rfl, List.all_eq_true.mp rfl⟩, rfl⟩
    have operand : (Expr.Token.name "x").Written "x".toList := ⟨⟨'x', [], rfl, rfl, nofun⟩, rfl⟩
    have last := Expr.Spells.nil.word operand Expr.noWord_nil
    have closed := Expr.Spells.mark (.blank (c := ' ') (by decide) last) .rparen [')'] rfl rfl
    have starred := (closed.stars 2).word string (Expr.noWord_mark rfl _)
    exact (starred.spaced struct).mark .lparen ['('] rfl rfl

end Registry
end HeapLens
