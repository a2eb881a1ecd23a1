import HeapLens.Proofs.Expr.Grammar

/-!
Printing an expression and reading it back. Stars and casts are printed in front of their operand,
indices and members behind their base, and a base that is itself a star or a cast stands in
parentheses. Main statement: what is printed of a well-formed expression, with any blanks between
its tokens, is read as that expression, and nothing but well-formed expressions is ever read.
-/
namespace HeapLens.Expr
open HeapLens.Text

/-! Well-formed expressions. -/

def IsPlainName (text : String) : Prop := IsName text ∧ '$' ∉ text.toList

def IsType (type : String) : Prop :=
  ∃ words stars, words ≠ [] ∧ (∀ word ∈ words, IsPlainName word) ∧ type = typeSpelling words stars

def WellFormed : Expr → Prop
  | .number _ => True
  | .symbol name => IsName name
  | .deref operand => operand.WellFormed
  | .cast type operand => IsType type ∧ operand.WellFormed
  | .index base position => base.WellFormed ∧
      -0x7fffffffffffffff ≤ position.toInt ∧ position.toInt ≤ 0x7fffffffffffffff
  | .member base field _ => base.WellFormed ∧ IsPlainName field

/-! Printing. -/

def isPrefixed : Expr → Bool
  | .deref _ | .cast _ _ => true
  | _ => false

/-- A base that is a star or a cast stands in parentheses. -/
def textAsBase (base : Expr) (text : String) : String :=
  if base.isPrefixed then "(" ++ text ++ ")" else text

/-- The printed expression. -/
def text : Expr → String
  | .number value => toString value.toNat
  | .symbol name => name
  | .deref operand => "*" ++ operand.text
  | .cast type operand => "(" ++ type ++ ")" ++ operand.text
  | .index base position => base.textAsBase base.text ++ "[" ++ toString position.toInt ++ "]"
  | .member base field arrow =>
    base.textAsBase base.text ++ (if arrow then "->" else ".") ++ field

def tokensAsBase (base : Expr) (tokens : List Token) : List Token :=
  if base.isPrefixed then .lparen :: (tokens ++ [.rparen]) else tokens

/-- A word, or the stars at the end, of a type. -/
def partTokens (part : List Char) : List Token :=
  if part.all (· == '*') then part.map fun _ => .star else [.name (String.ofList part)]

def typeTokens (type : String) : List Token :=
  (type.toList.splitOn ' ').flatMap partTokens

def indexTokens (position : Int64) : List Token :=
  .lbracket :: ((if position.toInt < 0 then [.minus] else []) ++
    [.number (UInt64.ofNat position.toInt.natAbs), .rbracket])

/-- The tokens of the printed expression. -/
def tokens : Expr → List Token
  | .number value => [.number value]
  | .symbol name => [.name name]
  | .deref operand => .star :: operand.tokens
  | .cast type operand => .lparen :: (typeTokens type ++ .rparen :: operand.tokens)
  | .index base position => base.tokensAsBase base.tokens ++ indexTokens position
  | .member base field arrow =>
    base.tokensAsBase base.tokens ++ [if arrow then .arrow else .dot, .name field]

/-! Names. -/

theorem isPlainName_iff {text : String} :
    IsPlainName text ↔ IsName text ∧ isDollarName text = false := by
  constructor
  · rintro ⟨name, plain⟩
    refine ⟨name, Bool.eq_false_iff.mpr fun dollar => plain ?_⟩
    exact List.mem_of_head? (beq_iff_eq.mp dollar)
  · rintro ⟨⟨first, more, split, starts, all⟩, plain⟩
    refine ⟨⟨first, more, split, starts, all⟩, fun dollar => ?_⟩
    rw [split] at dollar
    rcases List.mem_cons.mp dollar with rfl | dollar
    · rw [isDollarName, split, List.head?_cons, beq_self_eq_true] at plain
      cases plain
    · exact absurd (all '$' dollar) (by decide)

theorem IsName.apart {text : String} (name : IsName text) :
    ' ' ∉ text.toList ∧ text.toList.all (· == '*') = false := by
  obtain ⟨first, more, split, starts, all⟩ := name
  rw [split]
  constructor
  · intro space
    rcases List.mem_cons.mp space with rfl | space
    · exact absurd starts (by decide)
    · exact absurd (all ' ' space) (by decide)
  · refine Bool.eq_false_iff.mpr fun stars => ?_
    obtain rfl : first = '*' := by simpa using List.all_eq_true.mp stars first (.head _)
    exact absurd starts (by decide)

/-! Types. -/

/-- The parts of a type between its spaces. -/
def typeParts (words : List String) (stars : Nat) : List String :=
  words ++ if stars = 0 then [] else [String.ofList (List.replicate stars '*')]

theorem typeSpelling_eq {words : List String} (named : words ≠ []) (stars : Nat) :
    typeSpelling words stars = " ".intercalate (typeParts words stars) := by
  unfold typeSpelling typeParts
  split
  · rw [List.append_nil]
  · rw [String.intercalate_append_of_ne_nil named (List.cons_ne_nil _ _),
      String.intercalate_singleton]

theorem typeSpelling_cons (word : String) {words : List String} (named : words ≠ [])
    (stars : Nat) :
    typeSpelling (word :: words) stars = word ++ " " ++ typeSpelling words stars := by
  unfold typeSpelling
  rw [String.intercalate_cons_of_ne_nil named]
  split
  · rfl
  · simp only [String.append_assoc]

theorem partTokens_name {word : String} (name : IsName word) :
    partTokens word.toList = [.name word] := by
  rw [partTokens, if_neg (Bool.eq_false_iff.mp name.apart.2), String.ofList_toList]

theorem partTokens_stars (stars : Nat) :
    partTokens (List.replicate stars '*') = List.replicate stars .star := by
  rw [partTokens, if_pos, List.map_replicate]
  exact List.all_eq_true.mpr fun c mem => beq_iff_eq.mpr (List.eq_of_mem_replicate mem)

theorem typeTokens_spelling {words : List String} (named : words ≠ [])
    (names : ∀ word ∈ words, IsName word) (stars : Nat) :
    typeTokens (typeSpelling words stars) = words.map .name ++ List.replicate stars .star := by
  have spaced : ∀ part ∈ (typeParts words stars).map String.toList, ' ' ∉ part := by
    intro part mem
    obtain ⟨one, among, rfl⟩ := List.mem_map.mp mem
    rcases List.mem_append.mp among with word | run
    · exact (names one word).apart.1
    · split at run
      · cases run
      · rw [List.mem_singleton.mp run, String.toList_ofList]
        exact fun space => absurd (List.eq_of_mem_replicate space) (by decide)
  have some : (typeParts words stars).map String.toList ≠ [] := by
    simpa [typeParts] using fun none => absurd none named
  have parts : typeTokens (typeSpelling words stars) =
      ((typeParts words stars).map String.toList).flatMap partTokens := by
    rw [typeTokens, typeSpelling_eq named, String.toList_intercalate]
    exact congrArg (List.flatMap partTokens) (List.splitOn_intercalate ' ' spaced some)
  have wordParts : (words.map String.toList).flatMap partTokens = words.map .name := by
    rw [List.flatMap_map, List.map_eq_flatMap, List.flatMap_def, List.flatMap_def]
    exact congrArg List.flatten (List.map_congr_left fun word mem =>
      partTokens_name (names word mem))
  rw [parts, typeParts, List.map_append, List.flatMap_append, wordParts]
  congr 1
  split
  · next none =>
    rw [none]
    rfl
  · rw [List.map_singleton, List.flatMap_singleton, String.toList_ofList, partTokens_stars]

theorem toInt_toInt64 {m : UInt64} (small : m < 0x8000000000000000) :
    m.toInt64.toInt = m.toNat ∧ (-m.toInt64).toInt = -m.toNat := by
  have bound : m.toNat < 2 ^ 63 := UInt64.lt_iff_toNat_lt.mp small
  have plain : m.toInt64.toInt = m.toNat := by
    change m.toBitVec.toInt = m.toNat
    rw [BitVec.toInt_eq_toNat_bmod, Int.bmod_eq_of_le]
    · rfl
    · omega
    · change ((m.toNat : Nat) : Int) < _
      omega
  refine ⟨plain, ?_⟩
  rw [Int64.toInt_neg, plain, Int.bmod_eq_of_le] <;> omega

theorem toNat_natAbs {position : Int64} (low : -0x7fffffffffffffff ≤ position.toInt) :
    (UInt64.ofNat position.toInt.natAbs).toNat = position.toInt.natAbs := by
  have high : position.toInt < 2 ^ 63 := position.toInt_lt
  refine UInt64.toNat_ofNat_of_lt' ?_
  simp only [UInt64.size]
  omega

/-! Derivations. -/

theorem exists_index {position : Int64} (low : -0x7fffffffffffffff ≤ position.toInt) :
    ∃ s : Suffix, s.tokens = indexTokens position ∧
      ∀ base, s.apply base = .index base position := by
  have high : position.toInt < 2 ^ 63 := position.toInt_lt
  have size := toNat_natAbs low
  have small : UInt64.ofNat position.toInt.natAbs < 0x8000000000000000 := by
    rw [UInt64.lt_iff_toNat_lt, size]
    change _ < 2 ^ 63
    omega
  obtain ⟨plus, minus⟩ := toInt_toInt64 small
  refine ⟨.index (decide (position.toInt < 0)) _ small, ?_,
    fun base => congrArg (Expr.index base) ?_⟩
  · simp only [Suffix.tokens, indexTokens, decide_eq_true_eq]
  · apply Int64.toInt_inj.mp
    split
    · next negative =>
      rw [minus, size]
      have := of_decide_eq_true negative
      omega
    · next negative =>
      rw [plus, size]
      have := of_decide_eq_false (Bool.eq_false_iff.mpr negative)
      omega

/-- A suffix goes behind the suffixes that are there, or behind a group. -/
theorem exists_suffixed (d : Derivation .expression) (s : Suffix) :
    ∃ d' : Derivation .expression, d'.tokens = d.tree.tokensAsBase d.tokens ++ s.tokens ∧
      d'.tree = s.apply d.tree := by
  by_cases prefixed : d.tree.isPrefixed = true
  · refine ⟨.suffixed (.group d) [s], ?_, rfl⟩
    rw [tokensAsBase, if_pos prefixed, Derivation.tokens, List.flatMap_singleton, Derivation.tokens]
  · cases d with
    | deref operand => exact absurd rfl prefixed
    | cast type operand => exact absurd rfl prefixed
    | suffixed base behind =>
      refine ⟨.suffixed base (behind ++ [s]), ?_, ?_⟩
      · rw [tokensAsBase, if_neg prefixed, Derivation.tokens, Derivation.tokens,
          List.flatMap_append, List.flatMap_singleton, List.append_assoc]
      · rw [Derivation.tree, Derivation.tree, List.foldl_append]
        rfl

theorem exists_derivation {e : Expr} (formed : e.WellFormed) :
    ∃ d : Derivation .expression, d.tokens = e.tokens ∧ d.tree = e := by
  induction e with
  | number value => exact ⟨.suffixed (.number value) [], rfl, rfl⟩
  | symbol name => exact ⟨.suffixed (.name name) [], rfl, rfl⟩
  | deref operand ih =>
    obtain ⟨d, derives, tree⟩ := ih formed
    exact ⟨.deref d, congrArg (Token.star :: ·) derives, congrArg Expr.deref tree⟩
  | cast type operand ih =>
    obtain ⟨⟨words, stars, named, plain, rfl⟩, formed⟩ := formed
    obtain ⟨d, derives, tree⟩ := ih formed
    refine ⟨.cast ⟨words, stars, named, fun word mem => (isPlainName_iff.mp (plain word mem)).2⟩ d,
      ?_, congrArg (Expr.cast _) tree⟩
    rw [tokens, typeTokens_spelling named fun word mem => (plain word mem).1, ← derives]
    rfl
  | index base position ih =>
    obtain ⟨d, derives, rfl⟩ := ih formed.1
    obtain ⟨s, shown, apply⟩ := exists_index formed.2.1
    obtain ⟨d', derives', tree⟩ := exists_suffixed d s
    exact ⟨d', by rw [derives', tokens, derives, shown], tree.trans (apply _)⟩
  | member base field arrow ih =>
    obtain ⟨d, derives, rfl⟩ := ih formed.1
    obtain ⟨d', derives', tree⟩ :=
      exists_suffixed d (.member field arrow (isPlainName_iff.mp formed.2).2)
    exact ⟨d', by rw [derives', tokens, derives]; rfl, tree⟩

theorem Suffix.wellFormed {base : Expr} (formed : base.WellFormed) (s : Suffix)
    (names : ∀ name, .name name ∈ s.tokens → IsName name) : (s.apply base).WellFormed := by
  cases s with
  | index negative magnitude small =>
    refine ⟨formed, ?_⟩
    have bound : magnitude.toNat < 2 ^ 63 := UInt64.lt_iff_toNat_lt.mp small
    obtain ⟨plus, minus⟩ := toInt_toInt64 small
    cases negative with
    | true =>
      change _ ≤ (-magnitude.toInt64).toInt ∧ (-magnitude.toInt64).toInt ≤ _
      rw [minus]
      omega
    | false =>
      change _ ≤ magnitude.toInt64.toInt ∧ magnitude.toInt64.toInt ≤ _
      rw [plus]
      omega
  | member field arrow plain =>
    exact ⟨formed, isPlainName_iff.mpr ⟨names field (.tail _ (.head _)), plain⟩⟩

theorem suffixes_wellFormed {base : Expr} (formed : base.WellFormed) {behind : List Suffix}
    (names : ∀ name, .name name ∈ behind.flatMap Suffix.tokens → IsName name) :
    (behind.foldl Suffix.apply base).WellFormed := by
  induction behind generalizing base with
  | nil => exact formed
  | cons s behind ih =>
    rw [List.flatMap_cons] at names
    exact ih (s.wellFormed formed fun name mem => names name (List.mem_append_left _ mem))
      fun name mem => names name (List.mem_append_right _ mem)

theorem Derivation.wellFormed {c : Category} (d : Derivation c)
    (names : ∀ name, .name name ∈ d.tokens → IsName name) : d.tree.WellFormed := by
  induction d with
  | deref operand ih => exact ih fun name mem => names name (.tail _ mem)
  | cast type operand ih =>
    refine ⟨⟨type.words, type.stars, type.named, fun word mem => ?_, rfl⟩, ih fun name mem => ?_⟩
    · have inside : .name word ∈ type.tokens :=
        List.mem_append_left _ (List.mem_map_of_mem mem)
      exact isPlainName_iff.mpr
        ⟨names word (.tail _ (List.mem_append_left _ inside)), type.plain word mem⟩
    · exact names name (.tail _ (List.mem_append_right _ (.tail _ mem)))
  | suffixed base behind ih =>
    exact suffixes_wellFormed (ih fun name mem => names name (List.mem_append_left _ mem))
      fun name mem => names name (List.mem_append_right _ mem)
  | number value => trivial
  | name text => exact names text (.head _)
  | group inner ih => exact ih fun name mem => names name (.tail _ (List.mem_append_left _ mem))

theorem wellFormed_of_parse {text : String} {e : Expr} (read : parse text = .ok e) :
    e.WellFormed := by
  obtain ⟨ts, tokenized, parsed⟩ := bind_eq_ok read
  obtain ⟨d, rfl, rfl⟩ := derivation_of_ofTokens parsed
  exact d.wellFormed (isName_of_tokenize tokenized)

/-! The printed text. -/

section
variable {rest : List Token} {behind : List Char}

theorem spells_type {words : List String} (named : words ≠ [])
    (names : ∀ word ∈ words, IsName word) (stars : Nat) (spelled : Spells rest behind)
    (apart : NoWord rest) :
    Spells (words.map .name ++ (List.replicate stars .star ++ rest))
      ((typeSpelling words stars).toList ++ behind) := by
  induction words with
  | nil => exact absurd rfl named
  | cons word words ih =>
    have written : (Token.name word).Written word.toList := ⟨names word (.head _), rfl⟩
    cases words with
    | nil =>
      cases stars with
      | zero => exact spelled.word written apart
      | succ stars =>
        have split : (typeSpelling [word] (stars + 1)).toList =
            word.toList ++ ' ' :: List.replicate (stars + 1) '*' := by
          simp [typeSpelling]
        rw [split, List.append_assoc]
        exact (spelled.stars (stars + 1)).spaced written
    | cons next words =>
      have split : (typeSpelling (word :: next :: words) stars).toList =
          word.toList ++ ' ' :: (typeSpelling (next :: words) stars).toList := by
        rw [typeSpelling_cons word (List.cons_ne_nil _ _), String.toList_append,
          String.toList_append, List.append_assoc]
        rfl
      rw [split, List.append_assoc]
      exact (ih (List.cons_ne_nil _ _) fun w mem => names w (.tail _ mem)).spaced written

theorem spells_index {position : Int64} (low : -0x7fffffffffffffff ≤ position.toInt)
    (spelled : Spells rest behind) :
    Spells (indexTokens position ++ rest)
      ('[' :: ((toString position.toInt).toList ++ ']' :: behind)) := by
  have closed := spelled.mark .rbracket [']'] rfl rfl
  have size := toNat_natAbs low
  have written : (Token.number (UInt64.ofNat position.toInt.natAbs)).Written
      (toString position.toInt.natAbs).toList := .inl (by rw [size]; exact numeral_toString _)
  have number := closed.word written (noWord_mark rfl _)
  unfold indexTokens
  split
  · next negative =>
    have shown : (toString position.toInt).toList =
        '-' :: (toString position.toInt.natAbs).toList := by
      rw [Int.toString_eq_repr, Int.repr_eq_if, if_neg (Int.not_le.mpr negative),
        show (-position.toInt).toNat = position.toInt.natAbs by omega, Nat.toString_eq_repr,
        String.toList_append]
      rfl
    rw [shown]
    exact (number.mark .minus ['-'] rfl rfl).mark .lbracket ['['] rfl rfl
  · next negative =>
    have shown : toString position.toInt = toString position.toInt.natAbs := by
      rw [Int.toString_eq_repr, Int.repr_eq_if, if_pos (Int.not_lt.mp negative),
        show position.toInt.toNat = position.toInt.natAbs by omega, Nat.toString_eq_repr]
    rw [shown]
    exact number.mark .lbracket ['['] rfl rfl

theorem spells_base {base : Expr}
    (plain : ∀ {rest behind}, Spells rest behind → NoWord rest →
      Spells (base.tokens ++ rest) (base.text.toList ++ behind))
    (spelled : Spells rest behind) (apart : NoWord rest) :
    Spells (base.tokensAsBase base.tokens ++ rest)
      ((base.textAsBase base.text).toList ++ behind) := by
  unfold tokensAsBase textAsBase
  split
  · have closed := spelled.mark .rparen [')'] rfl rfl
    have opened := (plain closed (noWord_mark rfl _)).mark .lparen ['('] rfl rfl
    simpa using opened
  · exact plain spelled apart

theorem spells_text {e : Expr} (formed : e.WellFormed) (spelled : Spells rest behind)
    (apart : NoWord rest) :
    Spells (e.tokens ++ rest) (e.text.toList ++ behind) := by
  induction e generalizing rest behind with
  | number value => exact spelled.word (.inl (numeral_toString _)) apart
  | symbol name => exact spelled.word ⟨formed, rfl⟩ apart
  | deref operand ih =>
    rw [text, String.toList_append]
    exact (ih formed spelled apart).mark .star ['*'] rfl rfl
  | cast type operand ih =>
    obtain ⟨⟨words, stars, named, plain, rfl⟩, formed⟩ := formed
    have names : ∀ word ∈ words, IsName word := fun word mem => (plain word mem).1
    have closed := (ih formed spelled apart).mark .rparen [')'] rfl rfl
    have typed := spells_type named names stars closed (noWord_mark rfl _)
    have opened := typed.mark .lparen ['('] rfl rfl
    rw [tokens, typeTokens_spelling named names]
    simpa [text] using opened
  | index base position ih =>
    have indexed := spells_index formed.2.1 spelled
    have whole := spells_base (ih formed.1) indexed (noWord_mark rfl _)
    rw [tokens, List.append_assoc]
    simpa [text] using whole
  | member base field arrow ih =>
    have written : (Token.name field).Written field.toList := ⟨formed.2.1, rfl⟩
    have named := spelled.word written apart
    rw [tokens, List.append_assoc]
    cases arrow with
    | true =>
      have reached := named.mark .arrow ['-', '>'] rfl rfl
      have whole := spells_base (ih formed.1) reached (noWord_mark rfl _)
      simpa [text] using whole
    | false =>
      have reached := named.mark .dot ['.'] rfl rfl
      have whole := spells_base (ih formed.1) reached (noWord_mark rfl _)
      simpa [text] using whole

end

theorem parse_spelled {e : Expr} (formed : e.WellFormed) {text : String}
    (spelled : Spells e.tokens text.toList) : parse text = .ok e := by
  obtain ⟨d, derives, rfl⟩ := exists_derivation formed
  rw [parse, tokenize_spelled spelled, ← derives]
  exact ofTokens_derivation d

theorem spells_printed {e : Expr} (formed : e.WellFormed) : Spells e.tokens e.text.toList := by
  have spelled := spells_text formed .nil noWord_nil
  rwa [List.append_nil, List.append_nil] at spelled

theorem parse_inverts_text :
    (∀ e : Expr, e.WellFormed → Spells e.tokens e.text.toList ∧
      ∀ text : String, Spells e.tokens text.toList → parse text = .ok e) ∧
    ∀ (text : String) (e : Expr), parse text = .ok e → e.WellFormed ∧ parse e.text = .ok e := by
  refine ⟨fun e formed => ⟨spells_printed formed, fun text => parse_spelled formed⟩,
    fun text e read => ?_⟩
  have formed := wellFormed_of_parse read
  exact ⟨formed, parse_spelled formed (spells_printed formed)⟩

/-- A member behind an index of a pointer that a cast gives. -/
def pointed : Expr :=
  .member (.index (.deref (.cast "struct RString *" (.number 16))) (-3)) "as" true

theorem pointed_wellFormed : pointed.WellFormed := by
  have struct : IsPlainName "struct" :=
    ⟨⟨'s', ['t', 'r', 'u', 'c', 't'], rfl, rfl, List.all_eq_true.mp rfl⟩, by decide⟩
  have string : IsPlainName "RString" :=
    ⟨⟨'R', ['S', 't', 'r', 'i', 'n', 'g'], rfl, rfl, List.all_eq_true.mp rfl⟩, by decide⟩
  have type : IsType "struct RString *" :=
    ⟨["struct", "RString"], 1, nofun, by simp [struct, string], by decide⟩
  have field : IsPlainName "as" := ⟨⟨'a', ['s'], rfl, rfl, List.all_eq_true.mp rfl⟩, by decide⟩
  exact ⟨⟨⟨type, trivial⟩, by decide, by decide⟩, field⟩

theorem pointed_inverts_text : pointed.text = "(*(struct RString *)16)[-3]->as" ∧
    parse "(*(struct RString *)16)[-3]->as" = .ok pointed := by
  have shown : pointed.text = "(*(struct RString *)16)[-3]->as" := by decide
  have inverse := parse_inverts_text.1 pointed pointed_wellFormed
  exact ⟨shown, inverse.2 _ (shown ▸ inverse.1)⟩

end HeapLens.Expr
