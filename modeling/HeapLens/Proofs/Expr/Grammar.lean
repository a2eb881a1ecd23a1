import HeapLens.Expr.Parser
import HeapLens.Proofs.Expr.Spelling

/-!
The grammar of expressions. A derivation is a tree of rule applications with the tokens that it
derives and the expression that it stands for. Main statement: parsing succeeds on a list of tokens
exactly if some derivation derives it, gives the expression of that derivation, and there is no
other one; what is read ahead to tell a cast from a group never decides wrong.
-/
namespace HeapLens.Expr

/-- The type of a cast: its words, none of them with a dollar sign, and the stars behind them. -/
@[ext]
structure TypeName where
  words : List String
  stars : Nat
  named : words ≠ []
  plain : ∀ word ∈ words, isDollarName word = false

def TypeName.tokens (t : TypeName) : List Token :=
  t.words.map .name ++ List.replicate t.stars .star

def TypeName.spelling (t : TypeName) : String := typeSpelling t.words t.stars

inductive Suffix where
  | index (negative : Bool) (magnitude : UInt64) (small : magnitude < 0x8000000000000000)
  | member (field : String) (arrow : Bool) (plain : isDollarName field = false)

namespace Suffix

def tokens : Suffix → List Token
  | .index negative magnitude _ =>
    .lbracket :: ((if negative then [.minus] else []) ++ [.number magnitude, .rbracket])
  | .member field arrow _ => [if arrow then .arrow else .dot, .name field]

def apply (base : Expr) : Suffix → Expr
  | .index negative magnitude _ =>
    .index base (if negative then -magnitude.toInt64 else magnitude.toInt64)
  | .member field arrow _ => .member base field arrow

end Suffix

inductive Category where
  | expression
  | primary

/-- One constructor for each rule: stars and casts stand before an expression, any number of
suffixes stand behind a primary one. -/
inductive Derivation : Category → Type where
  | deref (operand : Derivation .expression) : Derivation .expression
  | cast (type : TypeName) (operand : Derivation .expression) : Derivation .expression
  | suffixed (base : Derivation .primary) (behind : List Suffix) : Derivation .expression
  | number (value : UInt64) : Derivation .primary
  | name (text : String) : Derivation .primary
  | group (inner : Derivation .expression) : Derivation .primary

namespace Derivation

def tokens {c : Category} : Derivation c → List Token
  | .deref operand => .star :: operand.tokens
  | .cast type operand => .lparen :: (type.tokens ++ .rparen :: operand.tokens)
  | .suffixed base behind => base.tokens ++ behind.flatMap Suffix.tokens
  | .number value => [.number value]
  | .name text => [.name text]
  | .group inner => .lparen :: (inner.tokens ++ [.rparen])

def tree {c : Category} : Derivation c → Expr
  | .deref operand => .deref operand.tree
  | .cast type operand => .cast type.spelling operand.tree
  | .suffixed base behind => behind.foldl Suffix.apply base.tree
  | .number value => .number value
  | .name text => .symbol text
  | .group inner => inner.tree

end Derivation

/-! What can follow. -/

def Token.startsSuffix : Token → Bool
  | .lbracket | .dot | .arrow => true
  | _ => false

theorem Token.not_startsOperand {t : Token} (h : t.startsSuffix = true) :
    t.startsOperand = false := by
  cases t with
  | lbracket | dot | arrow => rfl
  | _ => cases h

def NoOperand (rest : List Token) : Prop := ∀ t ∈ rest.head?, t.startsOperand = false

def NoSuffix (rest : List Token) : Prop := ∀ t ∈ rest.head?, t.startsSuffix = false

/-- What stands behind a derivation, so that it does not go on there; suffixes can stand behind a
primary expression. -/
def Follows (c : Category) (rest : List Token) : Prop :=
  NoOperand rest ∧ (c = .expression → NoSuffix rest)

theorem follows_nil (c : Category) : Follows c [] := ⟨nofun, fun _ => nofun⟩

theorem follows_rparen (c : Category) (rest : List Token) : Follows c (.rparen :: rest) :=
  ⟨fun t found => by cases found; rfl, fun _ t found => by cases found; rfl⟩

/-! Suffixes. -/

theorem Suffix.tokens_head (s : Suffix) :
    ∃ t more, s.tokens = t :: more ∧ t.startsSuffix = true := by
  cases s with
  | index negative magnitude small => exact ⟨_, _, rfl, rfl⟩
  | member field arrow plain => cases arrow <;> exact ⟨_, _, rfl, rfl⟩

theorem indexValue_number {magnitude : UInt64} (small : magnitude < 0x8000000000000000)
    (negative : Bool) (rest : List Token) :
    indexValue negative (.number magnitude :: .rbracket :: rest) =
      .ok (if negative then -magnitude.toInt64 else magnitude.toInt64, rest) := if_pos small

theorem indexValue_ok {negative : Bool} {tokens rest : List Token} {i : Int64}
    (h : indexValue negative tokens = .ok (i, rest)) :
    ∃ magnitude, magnitude < 0x8000000000000000 ∧
      tokens = .number magnitude :: .rbracket :: rest ∧
      i = if negative then -magnitude.toInt64 else magnitude.toInt64 := by
  unfold indexValue at h
  split at h
  · next magnitude behind =>
    split at h
    · next small =>
      split at h
      · cases h
        exact ⟨magnitude, small, rfl, rfl⟩
      · cases h
    · cases h
  · cases h

theorem suffixes_step (base : Expr) (s : Suffix) (rest : List Token) :
    suffixes base (s.tokens ++ rest) = suffixes (s.apply base) rest := by
  cases s with
  | index negative magnitude small =>
    have read := indexValue_number small negative rest
    cases negative with
    | true =>
      change suffixes base (.lbracket :: .minus :: .number magnitude :: .rbracket :: rest) = _
      rw [suffixes.eq_def]
      dsimp only
      split
      · next found => rw [read] at found; cases found; rfl
      · next found => rw [read] at found; cases found
    | false =>
      change suffixes base (.lbracket :: .number magnitude :: .rbracket :: rest) = _
      rw [suffixes.eq_def]
      dsimp only
      split
      · next found => rw [read] at found; cases found; rfl
      · next found => rw [read] at found; cases found
  | member field arrow plain =>
    have named : ¬ isDollarName field = true := Bool.eq_false_iff.mp plain
    cases arrow with
    | true =>
      change suffixes base (.arrow :: .name field :: rest) = _
      rw [suffixes, if_neg named]
      rfl
    | false =>
      change suffixes base (.dot :: .name field :: rest) = _
      rw [suffixes, if_neg named]
      rfl

theorem suffixes_all (base : Expr) (behind : List Suffix) (rest : List Token) :
    suffixes base (behind.flatMap Suffix.tokens ++ rest) =
      suffixes (behind.foldl Suffix.apply base) rest := by
  induction behind generalizing base with
  | nil => rfl
  | cons s behind ih =>
    rw [List.flatMap_cons, List.append_assoc, suffixes_step, ih, List.foldl_cons]

theorem suffixes_done (base : Expr) {rest : List Token} (none : NoSuffix rest) :
    suffixes base rest = .ok (base, rest) := by
  rw [suffixes.eq_def]
  split
  case h_7 => rfl
  all_goals cases none _ rfl

theorem suffixes_ok {base e : Expr} {tokens rest : List Token}
    (h : suffixes base tokens = .ok (e, rest)) :
    tokens = rest ∧ e = base ∨
      ∃ (s : Suffix) (more : List Token), tokens = s.tokens ++ more ∧
        suffixes (s.apply base) more = .ok (e, rest) := by
  rw [suffixes.eq_def] at h
  -- a negative index, another index, a member behind a dot, behind an arrow, and the rest
  split at h
  · split at h
    · next i more found =>
      obtain ⟨magnitude, small, rfl, rfl⟩ := indexValue_ok found
      exact .inr ⟨.index true magnitude small, more, rfl, h⟩
    · cases h
  · split at h
    · next i more found =>
      obtain ⟨magnitude, small, rfl, rfl⟩ := indexValue_ok found
      exact .inr ⟨.index false magnitude small, more, rfl, h⟩
    · cases h
  · next field more =>
    split at h
    · cases h
    · next plain => exact .inr ⟨.member field false (Bool.eq_false_iff.mpr plain), more, rfl, h⟩
  · next field more =>
    split at h
    · cases h
    · next plain => exact .inr ⟨.member field true (Bool.eq_false_iff.mpr plain), more, rfl, h⟩
  · cases h
  · cases h
  · cases h
    exact .inl ⟨rfl, rfl⟩

theorem suffixes_sound {base e : Expr} {tokens rest : List Token}
    (h : suffixes base tokens = .ok (e, rest)) :
    ∃ behind : List Suffix, tokens = behind.flatMap Suffix.tokens ++ rest ∧
      e = behind.foldl Suffix.apply base := by
  rcases suffixes_ok h with ⟨rfl, rfl⟩ | ⟨s, more, rfl, later⟩
  · exact ⟨[], rfl, rfl⟩
  · have shorter : more.length < (s.tokens ++ more).length := by
      obtain ⟨t, others, head, -⟩ := s.tokens_head
      simp only [head, List.length_append, List.length_cons]
      omega
    obtain ⟨behind, rfl, rfl⟩ := suffixes_sound later
    exact ⟨s :: behind, by rw [List.flatMap_cons, List.append_assoc], rfl⟩
termination_by tokens.length

theorem Suffix.unique {s u : Suffix} {rest rest' : List Token}
    (same : s.tokens ++ rest = u.tokens ++ rest') : s = u ∧ rest = rest' := by
  cases s with
  | index negative magnitude small =>
    cases u with
    | index negative' magnitude' small' =>
      cases negative <;> cases negative' <;> cases same <;> exact ⟨rfl, rfl⟩
    | member field arrow plain => cases arrow <;> cases same
  | member field arrow plain =>
    cases u with
    | index negative magnitude small => cases arrow <;> cases same
    | member field' arrow' plain' =>
      cases arrow <;> cases arrow' <;> cases same <;> exact ⟨rfl, rfl⟩

theorem Suffix.not_noSuffix (s : Suffix) (rest : List Token) : ¬ NoSuffix (s.tokens ++ rest) := by
  obtain ⟨t, more, head, starts⟩ := s.tokens_head
  rw [head]
  exact fun none => Bool.eq_false_iff.mp (none t rfl) starts

theorem suffixes_unique {left right : List Suffix} {rest rest' : List Token}
    (none : NoSuffix rest) (none' : NoSuffix rest')
    (same : left.flatMap Suffix.tokens ++ rest = right.flatMap Suffix.tokens ++ rest') :
    left = right ∧ rest = rest' := by
  induction left generalizing right with
  | nil =>
    cases right with
    | nil => exact ⟨rfl, same⟩
    | cons u right =>
      rw [List.flatMap_nil, List.nil_append, List.flatMap_cons, List.append_assoc] at same
      rw [same] at none
      exact absurd none (u.not_noSuffix _)
  | cons s left ih =>
    cases right with
    | nil =>
      rw [List.flatMap_nil, List.nil_append, List.flatMap_cons, List.append_assoc] at same
      rw [← same] at none'
      exact absurd none' (s.not_noSuffix _)
    | cons u right =>
      rw [List.flatMap_cons, List.flatMap_cons, List.append_assoc, List.append_assoc] at same
      obtain ⟨rfl, later⟩ := Suffix.unique same
      obtain ⟨rfl, rfl⟩ := ih later
      exact ⟨rfl, rfl⟩

theorem noOperand_suffixes (behind : List Suffix) {rest : List Token} (none : NoOperand rest) :
    NoOperand (behind.flatMap Suffix.tokens ++ rest) := by
  cases behind with
  | nil => exact none
  | cons s behind =>
    obtain ⟨t, more, head, starts⟩ := s.tokens_head
    rw [List.flatMap_cons, head]
    intro first found
    cases found
    exact Token.not_startsOperand starts

/-! Types. -/

theorem typeWords_append {words : List String} (plain : ∀ word ∈ words, isDollarName word = false)
    (rest : List Token) :
    typeWords (words.map .name ++ rest) =
      (words ++ (typeWords rest).1, (typeWords rest).2) := by
  induction words with
  | nil => rfl
  | cons word words ih =>
    have first : ¬ isDollarName word = true := Bool.eq_false_iff.mp (plain word (.head _))
    have later := ih fun w mem => plain w (.tail _ mem)
    rw [List.map_cons, List.cons_append, typeWords, if_neg first, later]
    rfl

theorem leadingStars_replicate (n : Nat) (rest : List Token) :
    leadingStars (List.replicate n .star ++ rest) =
      (n + (leadingStars rest).1, (leadingStars rest).2) := by
  induction n with
  | zero => rw [Nat.zero_add]; rfl
  | succ n ih =>
    rw [List.replicate_succ, List.cons_append, leadingStars, ih]
    simp only [Nat.add_right_comm]

theorem typeWords_sound (tokens : List Token) :
    tokens = (typeWords tokens).1.map .name ++ (typeWords tokens).2 ∧
      ∀ word ∈ (typeWords tokens).1, isDollarName word = false := by
  induction tokens using typeWords.induct with
  | case1 word rest dollar =>
    rw [typeWords, if_pos dollar]
    exact ⟨rfl, nofun⟩
  | case2 word rest plain words behind found ih =>
    rw [found] at ih
    rw [typeWords, if_neg plain, found]
    obtain ⟨split, others⟩ := ih
    refine ⟨congrArg (Token.name word :: ·) split, fun w mem => ?_⟩
    rcases List.mem_cons.mp mem with rfl | mem
    · exact Bool.eq_false_iff.mpr plain
    · exact others w mem
  | case3 rest other =>
    rw [typeWords]
    · exact ⟨rfl, nofun⟩
    · exact other

theorem leadingStars_sound (tokens : List Token) :
    tokens = List.replicate (leadingStars tokens).1 .star ++ (leadingStars tokens).2 := by
  induction tokens using leadingStars.induct with
  | case1 rest count behind found ih =>
    rw [found] at ih
    rw [leadingStars, found]
    exact congrArg (Token.star :: ·) ih
  | case2 rest other =>
    rw [leadingStars]
    · rfl
    · exact other

theorem typeWords_type (t : TypeName) (rest : List Token) :
    typeWords (t.tokens ++ .rparen :: rest) =
      (t.words, List.replicate t.stars .star ++ .rparen :: rest) := by
  have stop : typeWords (List.replicate t.stars .star ++ .rparen :: rest) =
      ([], List.replicate t.stars .star ++ .rparen :: rest) := by
    cases t.stars <;> rfl
  rw [TypeName.tokens, List.append_assoc, typeWords_append t.plain, stop, List.append_nil]

theorem leadingStars_type (n : Nat) (rest : List Token) :
    leadingStars (List.replicate n .star ++ .rparen :: rest) = (n, .rparen :: rest) :=
  leadingStars_replicate n (.rparen :: rest)

theorem TypeName.unique {t u : TypeName} {rest rest' : List Token}
    (same : t.tokens ++ .rparen :: rest = u.tokens ++ .rparen :: rest') : t = u ∧ rest = rest' := by
  have words := congrArg typeWords same
  rw [typeWords_type, typeWords_type] at words
  obtain ⟨words, behind⟩ := Prod.mk.inj words
  have stars := congrArg leadingStars behind
  rw [leadingStars_type, leadingStars_type] at stars
  obtain ⟨stars, behind⟩ := Prod.mk.inj stars
  exact ⟨TypeName.ext words stars, List.tail_eq_of_cons_eq behind⟩

theorem castType_of_operand (t : TypeName) {first : Token} (operand : first.startsOperand = true)
    (rest : List Token) :
    castType (t.tokens ++ .rparen :: first :: rest) = some (t.spelling, first :: rest) := by
  have named := t.named
  unfold castType
  simp only [typeWords_type, leadingStars_type]
  cases words : t.words with
  | nil => exact absurd words named
  | cons word others =>
    rw [TypeName.spelling, words]
    exact if_pos operand

theorem castType_ok {tokens rest : List Token} {type : String}
    (h : castType tokens = some (type, rest)) :
    ∃ t : TypeName, tokens = t.tokens ++ .rparen :: rest ∧ type = t.spelling ∧
      ¬ NoOperand rest := by
  obtain ⟨wordsFirst, plain⟩ := typeWords_sound tokens
  have starsNext := leadingStars_sound (typeWords tokens).2
  unfold castType at h
  simp only at h
  split at h
  · next word others first behind words closing =>
    split at h
    · next operand =>
      cases h
      refine ⟨⟨(typeWords tokens).1, (leadingStars (typeWords tokens).2).1, ?_, plain⟩, ?_, rfl,
        fun none => Bool.eq_false_iff.mp (none first rfl) operand⟩
      · rw [words]
        nofun
      · rw [TypeName.tokens, List.append_assoc, ← closing, ← starsNext]
        exact wordsFirst
    · cases h
  · cases h

/-! Groups. -/

theorem Derivation.tokens_head {c : Category} (d : Derivation c) :
    ∃ t more, d.tokens = t :: more ∧ t.startsOperand = true := by
  induction d with
  | suffixed base behind ih =>
    obtain ⟨t, more, head, starts⟩ := ih
    exact ⟨t, more ++ behind.flatMap Suffix.tokens, by rw [tokens, head]; rfl, starts⟩
  | _ => exact ⟨_, _, rfl, rfl⟩

theorem Derivation.not_noOperand {c : Category} (d : Derivation c) (rest : List Token) :
    ¬ NoOperand (d.tokens ++ rest) := by
  obtain ⟨t, more, head, starts⟩ := d.tokens_head
  rw [head]
  exact fun none => Bool.eq_false_iff.mp (none t rfl) starts

theorem TypeName.tokens_head (t : TypeName) (rest : List Token) :
    ∃ word more, t.tokens ++ .rparen :: rest = .name word :: more ∧ NoSuffix more ∧
      ∀ rest', more = .rparen :: rest' → rest' = rest := by
  obtain ⟨words, stars, named, plain⟩ := t
  cases words with
  | nil => exact absurd rfl named
  | cons word others =>
    refine ⟨word, others.map .name ++ (List.replicate stars .star ++ .rparen :: rest), ?_, ?_, ?_⟩
    · simp only [tokens, List.map_cons, List.cons_append, List.append_assoc]
    · intro t found
      cases others with
      | cons other others => cases found; rfl
      | nil => cases stars <;> cases found <;> rfl
    · intro rest' same
      cases others with
      | cons other others => cases same
      | nil =>
        cases stars with
        | zero => cases same; rfl
        | succ stars => cases same

/-- Behind the first word of a type there are words, stars and the parenthesis, so an expression
that reads like a type is a name in parentheses. -/
theorem Derivation.closes_type (inner : Derivation .expression) (t : TypeName)
    {rest rest' : List Token}
    (same : inner.tokens ++ .rparen :: rest = t.tokens ++ .rparen :: rest') : rest = rest' := by
  obtain ⟨word, more, head, none, closing⟩ := t.tokens_head rest'
  rw [head] at same
  cases inner with
  | deref operand => cases same
  | cast type operand => cases same
  | suffixed base behind =>
    cases base with
    | number value => cases same
    | group inner => cases same
    | name text =>
      have later : behind.flatMap Suffix.tokens ++ .rparen :: rest = more :=
        List.tail_eq_of_cons_eq same
      cases behind with
      | nil => exact closing rest later.symm
      | cons s behind =>
        rw [List.flatMap_cons, List.append_assoc] at later
        rw [← later] at none
        exact absurd none (s.not_noSuffix _)

theorem castType_group (inner : Derivation .expression) {rest : List Token}
    (none : NoOperand rest) : castType (inner.tokens ++ .rparen :: rest) = .none := by
  cases found : castType (inner.tokens ++ .rparen :: rest) with
  | none => rfl
  | some read =>
    obtain ⟨type, behind⟩ := read
    obtain ⟨t, same, -, operand⟩ := castType_ok found
    obtain rfl := inner.closes_type t same
    exact absurd none operand

/-! The parser and the grammar. -/

section
variable {steps : Nat} {tokens rest : List Token} {e : Expr}

theorem parseFrom_star (read : parseFrom steps tokens = .ok (e, rest)) :
    parseFrom (steps + 1) (.star :: tokens) = .ok (.deref e, rest) := by
  rw [parseFrom, read]
  rfl

theorem parseFrom_cast {type : String} {operand : List Token}
    (found : castType tokens = some (type, operand))
    (read : parseFrom steps operand = .ok (e, rest)) :
    parseFrom (steps + 1) (.lparen :: tokens) = .ok (.cast type e, rest) := by
  simp only [parseFrom, found, read]
  rfl

theorem parseFrom_group (found : castType tokens = none)
    (read : parseFrom steps tokens = .ok (e, .rparen :: rest)) :
    parseFrom (steps + 1) (.lparen :: tokens) = suffixes e rest := by
  simp only [parseFrom, found, read]
  rfl

end

/-- A rule that takes a step derives a token of its own, so its parts get by with a step less. -/
theorem exists_step {t : Token} {ts : List Token} {steps : Nat}
    (enough : (t :: ts).length ≤ steps) : ∃ left, steps = left + 1 ∧ ts.length ≤ left := by
  cases steps with
  | zero => cases enough
  | succ left => exact ⟨left, rfl, Nat.le_of_succ_le_succ enough⟩

/-- Suffixes behind a primary expression are still to be read. Behind an expression there are none,
so there the right side is its tree. -/
theorem parseFrom_complete {c : Category} (d : Derivation c) {steps : Nat} {rest : List Token}
    (enough : d.tokens.length ≤ steps) (follows : Follows c rest) :
    parseFrom steps (d.tokens ++ rest) = suffixes d.tree rest := by
  induction d generalizing steps rest with
  | deref operand ih =>
    obtain ⟨left, rfl, short⟩ := exists_step enough
    have read := ih short follows
    rw [suffixes_done _ (follows.2 rfl)] at read ⊢
    exact parseFrom_star read
  | cast type operand ih =>
    obtain ⟨left, rfl, short⟩ := exists_step enough
    rw [List.length_append, List.length_cons] at short
    have read := ih (show operand.tokens.length ≤ left by omega) follows
    rw [suffixes_done _ (follows.2 rfl)] at read ⊢
    have found : castType ((type.tokens ++ .rparen :: operand.tokens) ++ rest) =
        some (type.spelling, operand.tokens ++ rest) := by
      obtain ⟨t, more, head, starts⟩ := operand.tokens_head
      rw [head, List.append_assoc]
      exact castType_of_operand type starts (more ++ rest)
    exact parseFrom_cast found read
  | suffixed base behind ih =>
    rw [Derivation.tokens, List.length_append] at enough
    have read := ih (show base.tokens.length ≤ steps by omega)
      ⟨noOperand_suffixes behind follows.1, nofun⟩
    rw [Derivation.tokens, List.append_assoc, read, suffixes_all]
    rfl
  | number value =>
    obtain ⟨left, rfl, -⟩ := exists_step enough
    rfl
  | name text =>
    obtain ⟨left, rfl, -⟩ := exists_step enough
    rfl
  | group inner ih =>
    obtain ⟨left, rfl, short⟩ := exists_step enough
    rw [List.length_append] at short
    have closing := follows_rparen .expression rest
    have read := ih (show inner.tokens.length ≤ left by omega) closing
    rw [suffixes_done _ (closing.2 rfl)] at read
    have split : (Derivation.group inner).tokens ++ rest =
        .lparen :: (inner.tokens ++ .rparen :: rest) := by
      rw [Derivation.tokens, List.cons_append, List.append_assoc, List.singleton_append]
    rw [split]
    exact parseFrom_group (castType_group inner follows.1) read

theorem parseFrom_sound {steps : Nat} {tokens rest : List Token} {e : Expr}
    (h : parseFrom steps tokens = .ok (e, rest)) :
    ∃ d : Derivation .expression, tokens = d.tokens ++ rest ∧ e = d.tree := by
  induction steps generalizing tokens rest e with
  | zero => cases h
  | succ steps ih =>
    unfold parseFrom at h
    split at h
    · next behind =>
      obtain ⟨read, first, same⟩ := bind_eq_ok h
      cases same
      obtain ⟨operand, rfl, tree⟩ := ih first
      exact ⟨.deref operand, rfl, congrArg Expr.deref tree⟩
    · next behind =>
      split at h
      · next type after cast =>
        obtain ⟨t, rfl, rfl, -⟩ := castType_ok cast
        obtain ⟨read, first, same⟩ := bind_eq_ok h
        cases same
        obtain ⟨operand, rfl, tree⟩ := ih first
        refine ⟨.cast t operand, ?_, congrArg (Expr.cast t.spelling) tree⟩
        rw [Derivation.tokens, List.cons_append, List.append_assoc, List.cons_append]
      · obtain ⟨⟨tree, closing⟩, first, h⟩ := bind_eq_ok h
        obtain ⟨inner, rfl, rfl⟩ := ih first
        simp only at h
        split at h
        · obtain ⟨suffix, rfl, rfl⟩ := suffixes_sound h
          refine ⟨.suffixed (.group inner) suffix, ?_, rfl⟩
          simp only [Derivation.tokens, List.cons_append, List.append_assoc, List.nil_append]
        · cases h
    · next value behind =>
      obtain ⟨suffix, rfl, rfl⟩ := suffixes_sound h
      exact ⟨.suffixed (.number value) suffix, rfl, rfl⟩
    · next name behind =>
      obtain ⟨suffix, rfl, rfl⟩ := suffixes_sound h
      exact ⟨.suffixed (.name name) suffix, rfl, rfl⟩
    · cases h
    · cases h

theorem Derivation.cast_ne_suffixed {type : TypeName} {operand : Derivation .expression}
    {base : Derivation .primary} {behind : List Suffix} {rest rest' : List Token}
    (none : NoOperand rest') :
    (Derivation.cast type operand).tokens ++ rest ≠
      (Derivation.suffixed base behind).tokens ++ rest' := by
  intro same
  cases base with
  | number value => cases same
  | name text => cases same
  | group inner =>
    simp only [tokens, List.cons_append, List.append_assoc, List.nil_append, List.cons.injEq,
      true_and] at same
    have after := inner.closes_type type same.symm
    have others := noOperand_suffixes behind none
    rw [after] at others
    exact operand.not_noOperand rest others

/-- No two derivations begin a list of tokens, when none of them goes on behind its end. -/
theorem Derivation.unique {c : Category} {d d' : Derivation c} {rest rest' : List Token}
    (follows : Follows c rest) (follows' : Follows c rest')
    (same : d.tokens ++ rest = d'.tokens ++ rest') : d = d' ∧ rest = rest' := by
  induction d generalizing rest rest' with
  | deref operand ih =>
    cases d' with
    | deref operand' =>
      obtain ⟨rfl, rfl⟩ := ih follows follows' (List.tail_eq_of_cons_eq same)
      exact ⟨rfl, rfl⟩
    | cast type operand' => cases same
    | suffixed base behind => cases base <;> cases same
  | cast type operand ih =>
    cases d' with
    | deref operand' => cases same
    | cast type' operand' =>
      simp only [tokens, List.cons_append, List.append_assoc, List.cons.injEq, true_and] at same
      obtain ⟨rfl, later⟩ := TypeName.unique same
      obtain ⟨rfl, rfl⟩ := ih follows follows' later
      exact ⟨rfl, rfl⟩
    | suffixed base behind => exact absurd same (cast_ne_suffixed follows'.1)
  | suffixed base behind ih =>
    cases d' with
    | deref operand' => cases base <;> cases same
    | cast type operand' => exact absurd same.symm (cast_ne_suffixed follows.1)
    | suffixed base' behind' =>
      rw [tokens, tokens, List.append_assoc, List.append_assoc] at same
      obtain ⟨rfl, later⟩ := ih ⟨noOperand_suffixes behind follows.1, nofun⟩
        ⟨noOperand_suffixes behind' follows'.1, nofun⟩ same
      obtain ⟨rfl, rfl⟩ := suffixes_unique (follows.2 rfl) (follows'.2 rfl) later
      exact ⟨rfl, rfl⟩
  | number value => cases d' <;> cases same <;> exact ⟨rfl, rfl⟩
  | name text => cases d' <;> cases same <;> exact ⟨rfl, rfl⟩
  | group inner ih =>
    cases d' with
    | number value => cases same
    | name text => cases same
    | group inner' =>
      simp only [tokens, List.cons_append, List.append_assoc, List.nil_append, List.cons.injEq,
        true_and] at same
      obtain ⟨rfl, later⟩ := ih (follows_rparen _ _) (follows_rparen _ _) same
      exact ⟨rfl, List.tail_eq_of_cons_eq later⟩

theorem ofTokens_derivation (d : Derivation .expression) : ofTokens d.tokens = .ok d.tree := by
  have read := parseFrom_complete d (Nat.le_succ _) (follows_nil .expression)
  rw [List.append_nil, suffixes_done _ ((follows_nil .expression).2 rfl)] at read
  obtain ⟨t, more, head, -⟩ := d.tokens_head
  unfold ofTokens
  rw [read, head]
  rfl

theorem derivation_of_ofTokens {tokens : List Token} {e : Expr} (h : ofTokens tokens = .ok e) :
    ∃ d : Derivation .expression, d.tokens = tokens ∧ d.tree = e := by
  unfold ofTokens at h
  split at h
  · cases h
  · obtain ⟨⟨tree, rest⟩, read, h⟩ := bind_eq_ok h
    obtain ⟨d, split, rfl⟩ := parseFrom_sound read
    cases rest with
    | nil =>
      cases h
      exact ⟨d, (split.trans (List.append_nil _)).symm, rfl⟩
    | cons t rest => cases h

theorem ofTokens_iff_derivation (tokens : List Token) :
    (∀ e, ofTokens tokens = .ok e ↔ ∃ d : Derivation .expression, d.tokens = tokens ∧ d.tree = e) ∧
      ∀ d d' : Derivation .expression, d.tokens = tokens → d'.tokens = tokens → d = d' := by
  refine ⟨fun e => ⟨derivation_of_ofTokens, ?_⟩, fun d d' derives derives' => ?_⟩
  · rintro ⟨d, rfl, rfl⟩
    exact ofTokens_derivation d
  · have same : d.tokens ++ [] = d'.tokens ++ [] := by rw [derives, derives']
    exact (Derivation.unique (follows_nil _) (follows_nil _) same).1

/-- A name in parentheses with an index behind it is no cast. -/
theorem group_iff_derivation :
    ofTokens [.lparen, .name "x", .rparen, .lbracket, .number 0, .rbracket] =
      .ok (.index (.symbol "x") 0) :=
  ((ofTokens_iff_derivation _).1 _).mpr
    ⟨.suffixed (.group (.suffixed (.name "x") [])) [.index false 0 (by decide)], rfl, rfl⟩

end HeapLens.Expr
