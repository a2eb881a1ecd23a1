import HeapLens.Expr.Token
import HeapLens.Proofs.Run
import HeapLens.Proofs.Text.Numeral

/-!
The texts of a list of tokens. A word, that is a number or a name, needs a blank before the next
word; elsewhere blanks can stand or not. Main statements: every text that spells a list of tokens
is read as that list, and all names that are read from any text are names.
-/
namespace HeapLens.Text

/-- The code points of white space. -/
def blankCodes : List Nat :=
  [9, 10, 11, 12, 13, 0x20, 0x85, 0xa0, 0x1680, 0x2000, 0x2001, 0x2002, 0x2003, 0x2004, 0x2005,
    0x2006, 0x2007, 0x2008, 0x2009, 0x200a, 0x2028, 0x2029, 0x202f, 0x205f, 0x3000]

theorem mem_blankCodes {c : Char} (blank : isBlank c = true) : c.toNat ∈ blankCodes := by
  simp only [isBlank, Bool.or_eq_true, Bool.and_eq_true, decide_eq_true_eq, beq_iff_eq] at blank
  simp only [blankCodes, List.mem_cons, List.not_mem_nil]
  omega

end HeapLens.Text

namespace HeapLens.Expr
open HeapLens.Text

def IsName (text : String) : Prop :=
  ∃ first more, text.toList = first :: more ∧ startsName first = true ∧
    ∀ c ∈ more, continuesName c = true

namespace Token

def isWord : Token → Bool
  | .number _ | .name _ => true
  | _ => false

/-- How a token is written: a number in decimal or hexadecimal, anything else in one way. -/
def Written : Token → List Char → Prop
  | .number value, cs => Numeral 10 value.toNat cs ∨
      ∃ digits, Numeral 16 value.toNat digits ∧ cs = '0' :: 'x' :: digits
  | .name text, cs => IsName text ∧ cs = text.toList
  | .star, cs => cs = ['*']
  | .minus, cs => cs = ['-']
  | .lparen, cs => cs = ['(']
  | .rparen, cs => cs = [')']
  | .lbracket, cs => cs = ['[']
  | .rbracket, cs => cs = [']']
  | .dot, cs => cs = ['.']
  | .arrow, cs => cs = ['-', '>']

end Token

inductive Spells : List Token → List Char → Prop where
  | nil : Spells [] []
  | blank {c : Char} {ts : List Token} {cs : List Char} (is : isBlank c = true)
      (behind : Spells ts cs) : Spells ts (c :: cs)
  | token {t : Token} {ts : List Token} {text cs : List Char} (written : t.Written text)
      (behind : Spells ts cs)
      (apart : t.isWord = true → ∀ next ∈ ts.head?, next.isWord = true →
        ∃ c ∈ cs.head?, isBlank c = true) : Spells (t :: ts) (text ++ cs)

/-! Spelling from the back. -/

def NoWord (rest : List Token) : Prop := ∀ t ∈ rest.head?, t.isWord = false

theorem noWord_nil : NoWord [] := nofun

theorem noWord_mark {t : Token} (mark : t.isWord = false) (rest : List Token) :
    NoWord (t :: rest) := by
  intro u first
  cases first
  exact mark

section
variable {rest : List Token} {behind : List Char}

/-- A token that is no word needs no blank behind it. -/
theorem Spells.mark (spelled : Spells rest behind) (t : Token) (chars : List Char)
    (written : t.Written chars) (mark : t.isWord = false) :
    Spells (t :: rest) (chars ++ behind) :=
  .token written spelled fun word => absurd word (Bool.eq_false_iff.mp mark)

/-- A word needs no blank before a token that is no word. -/
theorem Spells.word (spelled : Spells rest behind) {t : Token} {chars : List Char}
    (written : t.Written chars) (apart : NoWord rest) :
    Spells (t :: rest) (chars ++ behind) :=
  .token written spelled fun _ next first word =>
    absurd word (Bool.eq_false_iff.mp (apart next first))

/-- A word needs one blank before any token. -/
theorem Spells.spaced (spelled : Spells rest behind) {t : Token} {chars : List Char}
    (written : t.Written chars) : Spells (t :: rest) (chars ++ ' ' :: behind) :=
  .token written (.blank (by decide) spelled) fun _ _ _ _ => ⟨' ', rfl, by decide⟩

theorem Spells.stars (spelled : Spells rest behind) (n : Nat) :
    Spells (List.replicate n .star ++ rest) (List.replicate n '*' ++ behind) := by
  induction n with
  | zero => exact spelled
  | succ n ih => exact ih.mark .star ['*'] rfl rfl

end

/-! Characters at the start of a token and behind a word. -/

def marks : List Char := ['*', '(', ')', '[', ']', '.', '-']

def endsWord (c : Char) : Bool := !continuesName c && !continuesNumber c

def Token.Begins : Token → Char → Prop
  | .number _, c => c.isDigit = true
  | .name _, c => startsName c = true
  | _, c => c ∈ marks

theorem mark_apart : ∀ c ∈ marks, isBlank c = false ∧ c.isDigit = false ∧ startsName c = false ∧
    endsWord c = true ∧ c ≠ '>' := by
  intro c mem
  simp only [marks, List.mem_cons, List.not_mem_nil, or_false] at mem
  rcases mem with rfl | rfl | rfl | rfl | rfl | rfl | rfl <;> decide

theorem blank_apart {c : Char} (blank : isBlank c = true) :
    c.isDigit = false ∧ startsName c = false ∧ endsWord c = true ∧ c ≠ '>' := by
  have all : ∀ n ∈ blankCodes, (Char.ofNat n).isDigit = false ∧ startsName (Char.ofNat n) = false ∧
      endsWord (Char.ofNat n) = true ∧ Char.ofNat n ≠ '>' := by
    decide +kernel
  have found := all c.toNat (mem_blankCodes blank)
  rwa [Char.ofNat_toNat] at found

theorem digit_apart {c : Char} (digit : c.isDigit = true) : startsName c = false := by
  have codes : 48 ≤ c.toNat ∧ c.toNat ≤ 57 := by
    simpa [Char.isDigit, UInt32.le_iff_toNat_le] using digit
  have all : ∀ k < 10, startsName (Char.ofNat (48 + k)) = false := by decide
  have found := all (c.toNat - 48) (by omega)
  rwa [show 48 + (c.toNat - 48) = c.toNat by omega, Char.ofNat_toNat] at found

theorem Token.Written.begins {t : Token} {text : List Char} (written : t.Written text) :
    ∃ c more, text = c :: more ∧ t.Begins c := by
  cases t with
  | number value =>
    rcases written with decimal | ⟨digits, hex, rfl⟩
    · obtain ⟨c, more, rfl⟩ := List.exists_cons_of_ne_nil decimal.ne_nil
      exact ⟨c, more, rfl, decimal.all isDigit_digitChar c (.head _)⟩
    · exact ⟨'0', 'x' :: digits, rfl, rfl⟩
  | name text =>
    obtain ⟨⟨first, more, split, starts, -⟩, rfl⟩ := written
    exact ⟨first, more, split, starts⟩
  | _ =>
    subst written
    exact ⟨_, _, rfl, (by decide : _ ∈ marks)⟩

theorem Spells.head {ts : List Token} {cs : List Char} (spelled : Spells ts cs) :
    ∀ c ∈ cs.head?, isBlank c = true ∨ ∃ t ∈ ts.head?, t.Begins c := by
  cases spelled with
  | nil => nofun
  | blank is behind =>
    intro c found
    cases found
    exact .inl is
  | token written behind apart =>
    obtain ⟨first, more, rfl, begins⟩ := written.begins
    intro c found
    cases found
    exact .inr ⟨_, rfl, begins⟩

/-- No text begins with the second half of an arrow. -/
theorem Token.Begins.ne {t : Token} {c : Char} (begins : t.Begins c) : c ≠ '>' := by
  rintro rfl
  cases t with
  | number => exact absurd (show '>'.isDigit = true from begins) (by decide)
  | name => exact absurd (show startsName '>' = true from begins) (by decide)
  | _ => exact absurd (show '>' ∈ marks from begins) (by decide)

theorem Token.Begins.endsWord {t : Token} {c : Char} (other : t.isWord = false)
    (begins : t.Begins c) : endsWord c = true := by
  cases t with
  | number | name => cases other
  | _ => exact (mark_apart c begins).2.2.2.1

theorem Spells.head_ne {ts : List Token} {cs : List Char} (spelled : Spells ts cs) :
    ∀ c ∈ cs.head?, c ≠ '>' := by
  intro c found
  rcases spelled.head c found with blank | ⟨t, -, begins⟩
  · exact (blank_apart blank).2.2.2
  · exact begins.ne

theorem Spells.head_endsWord {ts : List Token} {cs : List Char} (spelled : Spells ts cs)
    (apart : ∀ next ∈ ts.head?, next.isWord = true → ∃ c ∈ cs.head?, isBlank c = true) :
    ∀ c ∈ cs.head?, endsWord c = true := by
  intro c found
  rcases spelled.head c found with blank | ⟨t, first, begins⟩
  · exact (blank_apart blank).2.2.1
  · cases word : t.isWord with
    | true =>
      obtain ⟨c', found', blank⟩ := apart t first word
      cases found.symm.trans found'
      exact (blank_apart blank).2.2.1
    | false => exact begins.endsWord word

/-! Reading. -/

section
variable {ts : List Token} {cs : List Char}

theorem tokenize_nil : tokenize [] = .ok [] := by rw [tokenize.eq_def]

theorem tokenize_cons {c : Char} (dash : c = '-' → ∀ d ∈ cs.head?, d ≠ '>') :
    tokenize (c :: cs) =
      if isBlank c then tokenize cs
      else if c.isDigit then do
        let value ← numberValue (c :: cs.takeWhile continuesNumber)
        return .number value :: (← tokenize (cs.dropWhile continuesNumber))
      else if startsName c then
        return .name (String.ofList (c :: cs.takeWhile continuesName)) ::
          (← tokenize (cs.dropWhile continuesName))
      else if c = '-' then return .minus :: (← tokenize cs)
      else
        match punctuation c with
        | some token => return token :: (← tokenize cs)
        | none => .error (.unexpectedCharacter c) := by
  rw [tokenize.eq_def]
  split
  · next found => cases found
  · next rest found =>
    cases found
    exact absurd rfl (dash rfl '>' rfl)
  · next found =>
    cases found
    rfl

theorem tokenize_blank {c : Char} (blank : isBlank c = true) :
    tokenize (c :: cs) = tokenize cs := by
  rw [tokenize_cons, if_pos blank]
  rintro rfl
  exact absurd blank (by decide)

theorem takeWhile_word {p : Char → Bool} {word : List Char} (all : ∀ c ∈ word, p c = true)
    (ends : ∀ c ∈ cs.head?, p c = false) :
    (word ++ cs).takeWhile p = word ∧ (word ++ cs).dropWhile p = cs := by
  rw [List.takeWhile_append_of_pos all, List.dropWhile_append_of_pos all]
  cases cs with
  | nil => exact ⟨List.append_nil _, rfl⟩
  | cons c cs =>
    have stop := Bool.eq_false_iff.mp (ends c rfl)
    rw [List.takeWhile_cons_of_neg stop, List.dropWhile_cons_of_neg stop]
    exact ⟨List.append_nil _, rfl⟩

theorem tokenize_number {first : Char} {more : List Char} {value : UInt64}
    (digit : first.isDigit = true) (all : ∀ c ∈ more, continuesNumber c = true)
    (ends : ∀ c ∈ cs.head?, continuesNumber c = false)
    (read : numberValue (first :: more) = .ok value) (others : tokenize cs = .ok ts) :
    tokenize (first :: more ++ cs) = .ok (.number value :: ts) := by
  obtain ⟨taken, dropped⟩ := takeWhile_word all ends
  have blank : ¬ isBlank first = true := fun blank =>
    Bool.eq_false_iff.mp (blank_apart blank).1 digit
  rw [List.cons_append, tokenize_cons, if_neg blank, if_pos digit, taken, dropped, read, others]
  · rfl
  · rintro rfl
    exact absurd digit (by decide)

theorem tokenize_name {text : String} (name : IsName text)
    (ends : ∀ c ∈ cs.head?, continuesName c = false) (others : tokenize cs = .ok ts) :
    tokenize (text.toList ++ cs) = .ok (.name text :: ts) := by
  obtain ⟨first, more, split, starts, all⟩ := name
  obtain ⟨taken, dropped⟩ := takeWhile_word all ends
  have blank : ¬ isBlank first = true := fun blank =>
    Bool.eq_false_iff.mp (blank_apart blank).2.1 starts
  have digit : ¬ first.isDigit = true := fun digit =>
    Bool.eq_false_iff.mp (digit_apart digit) starts
  rw [split, List.cons_append, tokenize_cons, if_neg blank, if_neg digit, if_pos starts, taken,
    dropped, others, ← split, String.ofList_toList]
  · rfl
  · rintro rfl
    exact absurd starts (by decide)

theorem tokenize_mark {c : Char} {t : Token} (mark : c ∈ marks) (is : punctuation c = some t)
    (others : tokenize cs = .ok ts) : tokenize (c :: cs) = .ok (t :: ts) := by
  obtain ⟨blank, digit, name, -, -⟩ := mark_apart c mark
  have dash : c ≠ '-' := by
    rintro rfl
    cases is
  rw [tokenize_cons, if_neg (Bool.eq_false_iff.mp blank), if_neg (Bool.eq_false_iff.mp digit),
    if_neg (Bool.eq_false_iff.mp name), if_neg dash]
  · simp only [is, others]
    rfl
  · exact fun same => absurd same dash

theorem tokenize_minus (ends : ∀ c ∈ cs.head?, c ≠ '>') (others : tokenize cs = .ok ts) :
    tokenize ('-' :: cs) = .ok (.minus :: ts) := by
  obtain ⟨blank, digit, name, -, -⟩ := mark_apart '-' (by decide)
  rw [tokenize_cons, if_neg (Bool.eq_false_iff.mp blank), if_neg (Bool.eq_false_iff.mp digit),
    if_neg (Bool.eq_false_iff.mp name), if_pos rfl, others]
  · rfl
  · exact fun _ => ends

theorem tokenize_arrow (others : tokenize cs = .ok ts) :
    tokenize ('-' :: '>' :: cs) = .ok (.arrow :: ts) := by
  rw [tokenize.eq_def]
  simp only [others]
  rfl

end

theorem numberValue_ok {value : UInt64} {text : List Char} (all : ∀ c ∈ text, c.isAlphanum = true)
    (read : readLiteral text = some value) : numberValue text = .ok value := by
  have filter : text.filter (· != '_') = text := by
    refine List.filter_eq_self.mpr fun c mem => ?_
    have other : c ≠ '_' := by
      rintro rfl
      exact absurd (all '_' mem) (by decide)
    exact bne_iff_ne.mpr other
  simp only [numberValue, filter, read]

theorem endsWord_iff {c : Char} :
    endsWord c = true ↔ continuesName c = false ∧ continuesNumber c = false := by
  simp only [endsWord, Bool.and_eq_true, Bool.not_eq_true']

theorem Token.Written.number_ok {value : UInt64} {text : List Char}
    (written : (Token.number value).Written text) :
    ∃ first more, text = first :: more ∧ first.isDigit = true ∧
      (∀ c ∈ more, continuesNumber c = true) ∧ numberValue text = .ok value := by
  have read : readLiteral text = some value ∧ ∀ c ∈ text, c.isAlphanum = true := by
    rcases written with decimal | ⟨digits, hex, rfl⟩
    · exact ⟨readLiteral_decimal decimal, decimal.all fun d small =>
        isAlphanum_digitChar d (Nat.lt_trans small (by decide))⟩
    · refine ⟨hex.readWord_eq (Nat.le_refl 16), fun c mem => ?_⟩
      rcases List.mem_cons.mp mem with rfl | mem
      · rfl
      · rcases List.mem_cons.mp mem with rfl | mem
        · rfl
        · exact hex.all isAlphanum_digitChar c mem
  obtain ⟨first, more, rfl, digit⟩ := written.begins
  refine ⟨first, more, rfl, digit, fun c mem => ?_, numberValue_ok read.2 read.1⟩
  rw [continuesNumber, read.2 c (.tail _ mem), Bool.true_or]

/-- Every token is read off on its own when what follows is no part of it. -/
theorem tokenize_written {t : Token} {text cs : List Char} {ts : List Token}
    (written : t.Written text) (arrow : ∀ c ∈ cs.head?, c ≠ '>')
    (ends : t.isWord = true → ∀ c ∈ cs.head?, endsWord c = true) (others : tokenize cs = .ok ts) :
    tokenize (text ++ cs) = .ok (t :: ts) := by
  cases t with
  | number value =>
    obtain ⟨first, more, rfl, digit, all, read⟩ := written.number_ok
    exact tokenize_number digit all (fun c found => (endsWord_iff.mp (ends rfl c found)).2) read
      others
  | name text =>
    obtain ⟨name, rfl⟩ := written
    exact tokenize_name name (fun c found => (endsWord_iff.mp (ends rfl c found)).1) others
  | minus =>
    subst written
    exact tokenize_minus arrow others
  | arrow =>
    subst written
    exact tokenize_arrow others
  | _ =>
    subst written
    exact tokenize_mark (by decide) rfl others

theorem tokenize_spelled {ts : List Token} {cs : List Char} (spelled : Spells ts cs) :
    tokenize cs = .ok ts := by
  induction spelled with
  | nil => exact tokenize_nil
  | blank is behind ih => rw [tokenize_blank is, ih]
  | token written behind apart ih =>
    exact tokenize_written written behind.head_ne (fun word => behind.head_endsWord (apart word)) ih

theorem punctuation_ne_name (c : Char) (text : String) : punctuation c ≠ some (.name text) := by
  unfold punctuation
  split <;> nofun

theorem isName_ofList {first : Char} (starts : startsName first = true) (cs : List Char) :
    IsName (String.ofList (first :: cs.takeWhile continuesName)) :=
  ⟨first, cs.takeWhile continuesName, String.toList_ofList, starts,
    List.all_eq_true.mp List.all_takeWhile⟩

/-- A text that is read has a shorter rest that is read, and at most one token before it. -/
theorem tokenize_ok {c : Char} {cs : List Char} {ts : List Token}
    (read : tokenize (c :: cs) = .ok ts) :
    ∃ (behind : List Char) (others : List Token), behind.length ≤ cs.length ∧
      tokenize behind = .ok others ∧
      (ts = others ∨ ∃ t, ts = t :: others ∧ ∀ text, t = .name text → IsName text) := by
  rw [tokenize.eq_def] at read
  split at read
  · next found => cases found
  · next rest found =>
    cases found
    obtain ⟨others, later, same⟩ := bind_eq_ok read
    cases same
    exact ⟨rest, others, Nat.le_succ _, later, .inr ⟨_, rfl, fun _ same => by cases same⟩⟩
  · next found =>
    cases found
    split at read
    · exact ⟨cs, ts, Nat.le_refl _, read, .inl rfl⟩
    split at read
    · obtain ⟨value, -, read⟩ := bind_eq_ok read
      obtain ⟨others, later, same⟩ := bind_eq_ok read
      cases same
      exact ⟨_, others, length_dropWhile_le _ cs, later, .inr ⟨_, rfl, fun _ same => by cases same⟩⟩
    split at read
    · next starts =>
      obtain ⟨others, later, same⟩ := bind_eq_ok read
      cases same
      refine ⟨_, others, length_dropWhile_le _ cs, later, .inr ⟨_, rfl, fun text same => ?_⟩⟩
      cases same
      exact isName_ofList starts cs
    split at read
    · obtain ⟨others, later, same⟩ := bind_eq_ok read
      cases same
      exact ⟨cs, others, Nat.le_refl _, later, .inr ⟨_, rfl, fun _ same => by cases same⟩⟩
    split at read
    · next token mark =>
      obtain ⟨others, later, same⟩ := bind_eq_ok read
      cases same
      refine ⟨cs, others, Nat.le_refl _, later, .inr ⟨_, rfl, ?_⟩⟩
      rintro text rfl
      exact absurd mark (punctuation_ne_name c text)
    · cases read

theorem isName_of_tokenize {cs : List Char} {ts : List Token} (read : tokenize cs = .ok ts) :
    ∀ text, .name text ∈ ts → IsName text := by
  induction length : cs.length using Nat.strongRecOn generalizing cs ts with
  | ind n ih =>
    intro text mem
    cases cs with
    | nil =>
      rw [tokenize_nil] at read
      cases read
      cases mem
    | cons c cs =>
      obtain ⟨behind, others, shorter, later, none | ⟨t, one, named⟩⟩ := tokenize_ok read
      all_goals
        subst ts
        have less : behind.length < n := length ▸ Nat.lt_succ_of_le shorter
        have inside := ih _ less later rfl text
      · exact inside mem
      · rcases List.mem_cons.mp mem with first | mem
        · exact named text first.symm
        · exact inside mem

end HeapLens.Expr
