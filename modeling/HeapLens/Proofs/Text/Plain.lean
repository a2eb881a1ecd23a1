import HeapLens.Decimal.Double
import HeapLens.Decimal.Magnitude
import HeapLens.Proofs.Text.Numeral
import HeapLens.Text.Escape

/-!
Texts without control characters. Numbers of every kind are written without any, and so are
target bytes once they are escaped, whether they are well-formed or not. Between double quotes
escaped bytes end where they should: no quote among them stands for itself.
-/
namespace HeapLens.Text

/-- A text that has no control character, so that it cannot break the line it is put on. -/
def Plain (s : String) : Prop := ∀ c ∈ s.toList, isControl c = false

instance (s : String) : Decidable (Plain s) := List.decidableBAll _ s.toList

theorem plain_ofList {cs : List Char} (plain : ∀ c ∈ cs, isControl c = false) :
    Plain (String.ofList cs) := by
  rwa [Plain, String.toList_ofList]

theorem plain_append {s t : String} (left : Plain s) (right : Plain t) : Plain (s ++ t) := by
  intro c member
  rw [String.toList_append] at member
  exact (List.mem_append.mp member).elim (left c) (right c)

theorem plain_join {parts : List String} (plain : ∀ s ∈ parts, Plain s) :
    Plain (String.join parts) := by
  induction parts with
  | nil => exact fun c member => absurd member List.not_mem_nil
  | cons s parts ih =>
    rw [String.join_cons]
    exact plain_append (plain s (List.mem_cons_self ..))
      (ih fun t member => plain t (List.mem_cons_of_mem _ member))

theorem plain_intercalate {mid : String} {parts : List String} (between : Plain mid)
    (plain : ∀ s ∈ parts, Plain s) : Plain (mid.intercalate parts) := by
  induction parts with
  | nil => exact fun c member => absurd member List.not_mem_nil
  | cons s parts ih =>
    have first := plain s (List.mem_cons_self ..)
    have rest := ih fun t member => plain t (List.mem_cons_of_mem _ member)
    cases parts with
    | nil => rwa [String.intercalate_singleton]
    | cons t parts =>
      rw [String.intercalate_cons_cons]
      exact plain_append (plain_append first between) rest

theorem isControl_of_isAlphanum {c : Char} (letter : c.isAlphanum = true) :
    isControl c = false := by
  have ranges : c.isAlphanum = (('A'.val ≤ c.val ∧ c.val ≤ 'Z'.val ||
      ('a'.val ≤ c.val && c.val ≤ 'z'.val)) || ('0'.val ≤ c.val && c.val ≤ '9'.val)) := rfl
  simp only [ranges, Bool.or_eq_true, Bool.and_eq_true, decide_eq_true_eq,
    UInt32.le_iff_toNat_le, Char.reduceVal, UInt32.reduceToNat] at letter
  have code : c.val.toNat = c.toNat := rfl
  simp only [isControl, Bool.or_eq_false_iff, Bool.and_eq_false_iff, decide_eq_false_iff_not]
  omega

/-! Numbers. -/

theorem isAlphanum_toDigits {base : Nat} (two : 1 < base) (top : base ≤ 16) (n : Nat) :
    ∀ c ∈ Nat.toDigits base n, c.isAlphanum = true :=
  (numeral_toDigits two n).all fun d small => isAlphanum_digitChar d (by omega)

theorem isAlphanum_hexUpper (n : Nat) : ∀ c ∈ hexUpper n, c.isAlphanum = true := by
  have digits : ∀ d < 16, d.digitChar.toUpper.isAlphanum = true ∧
      d.digitChar.toUpper.toUpper.isAlphanum = true := by decide
  intro c member
  rcases List.mem_append.mp member with zero | digit
  · rw [List.eq_of_mem_replicate zero]
    decide
  · obtain ⟨d, shown, rfl⟩ := List.mem_map.mp digit
    exact (numeral_toDigits (by decide) n).all (p := fun c => c.toUpper.isAlphanum) digits d shown

theorem plain_toDigits {base : Nat} (two : 1 < base) (top : base ≤ 16) (n : Nat) :
    ∀ c ∈ Nat.toDigits base n, isControl c = false := fun c member =>
  isControl_of_isAlphanum (isAlphanum_toDigits two top n c member)

theorem plain_nat (n : Nat) : Plain (toString n) := by
  rw [Nat.toString_eq_repr]
  intro c member
  rw [Nat.toList_repr] at member
  exact plain_toDigits (by decide) (by decide) n c member

theorem plain_int (n : Int) : Plain (toString n) := by
  cases n with
  | ofNat n => exact plain_nat n
  | negSucc n => exact plain_append (s := "-") (by decide) (plain_nat _)

theorem plain_bool (b : Bool) : Plain (toString b) := by
  cases b <;> decide

theorem plain_hex (w : UInt64) : Plain (hex w) :=
  plain_append (by decide) (plain_ofList (plain_toDigits (by decide) (by decide) _))

/-- Digits with zeros before or behind them. -/
theorem plain_padded (n : Nat) : ∀ c ∈ Magnitude.padded n, isControl c = false := by
  intro c member
  rcases List.mem_append.mp member with zero | digit
  · rw [List.eq_of_mem_replicate zero]
    decide
  · exact plain_toDigits (by decide) (by decide) n c digit

theorem plain_decimal (limbs : List UInt64) : Plain (Magnitude.decimal limbs) := by
  apply plain_ofList
  intro c member
  unfold Magnitude.numeral at member
  split at member
  · rw [List.mem_singleton.mp member]
    decide
  · next first rest _ =>
    rcases List.mem_append.mp member with head | tail
    · exact plain_toDigits (by decide) (by decide) first c head
    · obtain ⟨n, -, digit⟩ := List.mem_flatMap.mp tail
      exact plain_padded n c digit

theorem plain_withPoint {digits : List Char} (plain : ∀ c ∈ digits, isControl c = false)
    (leading : Int) : ∀ c ∈ Double.withPoint digits leading, isControl c = false := by
  have zeros (count : Nat) : ∀ c ∈ List.replicate count '0', isControl c = false := by
    intro c member
    rw [List.eq_of_mem_replicate member]
    decide
  intro c member
  unfold Double.withPoint at member
  split at member
  · rcases List.mem_cons.mp member with rfl | member
    · decide
    rcases List.mem_cons.mp member with rfl | member
    · decide
    exact (List.mem_append.mp member).elim (zeros _ c) (plain c)
  · have padded : ∀ c ∈ digits ++ List.replicate (leading.toNat + 1 - digits.length) '0',
        isControl c = false := fun c shown =>
      (List.mem_append.mp shown).elim (plain c) (zeros _ c)
    rcases List.mem_append.mp member with whole | member
    · exact padded c (List.mem_of_mem_take whole)
    rcases List.mem_cons.mp member with rfl | member
    · decide
    split at member
    · rw [List.mem_singleton.mp member]
      decide
    · exact padded c (List.mem_of_mem_drop member)

theorem plain_withExponent {digits : List Char} (plain : ∀ c ∈ digits, isControl c = false)
    (leading : Int) : ∀ c ∈ Double.withExponent digits leading, isControl c = false := by
  intro c member
  rcases List.mem_append.mp member with member | member
  · rcases List.mem_append.mp member with first | member
    · exact plain c (List.mem_of_mem_take first)
    split at member
    · exact absurd member List.not_mem_nil
    rcases List.mem_cons.mp member with rfl | member
    · decide
    · exact plain c (List.mem_of_mem_drop member)
  rcases List.mem_cons.mp member with rfl | member
  · decide
  · exact plain_int leading c member

theorem plain_double (d : Double) : Plain d.text := by
  have magnitude : ∀ c ∈ d.magnitudeText, isControl c = false := by
    intro c member
    unfold Double.magnitudeText at member
    split at member
    · exact (by decide : Plain "0.0") c member
    · have digits : ∀ c ∈ Nat.toDigits 10 d.span.shortest.normal.coefficient,
          isControl c = false := plain_toDigits (by decide) (by decide) _
      dsimp only at member
      split at member
      · exact plain_withPoint digits _ c member
      · exact plain_withExponent digits _ c member
  unfold Double.text
  split
  · decide
  split
  · split <;> decide
  apply plain_ofList
  split
  · intro c member
    rcases List.mem_cons.mp member with rfl | member
    · decide
    · exact magnitude c member
  · exact magnitude

/-! Target bytes. -/

/-- What a character or a byte is turned into: a name or a code behind a backslash, or a character
that stands for itself. -/
inductive EscapeUnit : List Char → Prop where
  | name {c : Char} (listed : c ∈ ['"', '\\', 'n', 't', 'r', '0', 'e']) : EscapeUnit ['\\', c]
  | code (n : Nat) : EscapeUnit ('\\' :: 'x' :: hexUpper n)
  | self {c : Char} (plain : isControl c = false) (quote : c ≠ '"') (slash : c ≠ '\\') :
      EscapeUnit [c]

theorem escapeUnit_char (c : Char) : EscapeUnit (escapeChar c) := by
  unfold escapeChar
  split
  · exact .name (by decide)
  next quote =>
  split
  · exact .name (by decide)
  next slash =>
  split
  · exact .name (by decide)
  split
  · exact .name (by decide)
  split
  · exact .name (by decide)
  split
  · exact .name (by decide)
  split
  · exact .name (by decide)
  split
  · exact .code _
  next plain => exact .self (Bool.eq_false_iff.mpr plain) quote slash

theorem escapeUnit_byte (b : UInt8) : EscapeUnit (escapeByte b) := by
  unfold escapeByte
  split
  · exact escapeUnit_char _
  · exact .code _

/-- Well-formed or not, bytes are turned into units one after the other. -/
theorem escape_units (bytes : List UInt8) :
    ∃ units : List (List Char), (∀ u ∈ units, EscapeUnit u) ∧ escape bytes = units.flatten := by
  unfold escape
  split
  · next text _ =>
    refine ⟨text.map escapeChar, fun u member => ?_, rfl⟩
    obtain ⟨c, -, rfl⟩ := List.mem_map.mp member
    exact escapeUnit_char c
  · refine ⟨bytes.map escapeByte, fun u member => ?_, rfl⟩
    obtain ⟨b, -, rfl⟩ := List.mem_map.mp member
    exact escapeUnit_byte b

theorem EscapeUnit.plain {u : List Char} (unit : EscapeUnit u) :
    ∀ c ∈ u, isControl c = false := by
  intro c member
  cases unit with
  | @name d listed =>
    have names : ['"', '\\', 'n', 't', 'r', '0', 'e'].all (isControl · == false) = true := by
      decide
    rcases List.mem_cons.mp member with rfl | member
    · decide
    · exact beq_iff_eq.mp (List.all_eq_true.mp names c (List.mem_singleton.mp member ▸ listed))
  | code n =>
    rcases List.mem_cons.mp member with rfl | member
    · decide
    rcases List.mem_cons.mp member with rfl | member
    · decide
    · exact isControl_of_isAlphanum (isAlphanum_hexUpper n c member)
  | self plain quote slash =>
    rw [List.mem_singleton.mp member]
    exact plain

theorem plain_escaped (bytes : List UInt8) : Plain (escaped bytes) := by
  obtain ⟨units, made, shown⟩ := escape_units bytes
  apply plain_ofList
  intro c member
  rw [shown, List.mem_flatten] at member
  obtain ⟨u, listed, member⟩ := member
  exact (made u listed).plain c member

/-- The text up to the first double quote that no backslash stands for, and the text behind it. A
backslash takes the character after it along. -/
def closeQuote : List Char → Option (List Char × List Char)
  | [] => none
  | '\\' :: c :: rest => (closeQuote rest).map fun p => ('\\' :: c :: p.1, p.2)
  | c :: rest =>
    if c = '"' then some ([], rest) else (closeQuote rest).map fun p => (c :: p.1, p.2)

theorem closeQuote_cons {c : Char} (quote : c ≠ '"') (slash : c ≠ '\\') (rest : List Char) :
    closeQuote (c :: rest) = (closeQuote rest).map fun p => (c :: p.1, p.2) := by
  rw [closeQuote, if_neg quote]
  rintro d ds rfl
  exact absurd rfl slash

theorem closeQuote_append {cs : List Char} (ordinary : ∀ c ∈ cs, c.isAlphanum = true)
    (rest : List Char) :
    closeQuote (cs ++ rest) = (closeQuote rest).map fun p => (cs ++ p.1, p.2) := by
  induction cs with
  | nil => exact Option.map_id'.symm
  | cons c cs ih =>
    have letter := ordinary c (List.mem_cons_self ..)
    have quote : c ≠ '"' := by rintro rfl; cases letter
    have slash : c ≠ '\\' := by rintro rfl; cases letter
    rw [List.cons_append, closeQuote_cons quote slash,
      ih fun d member => ordinary d (List.mem_cons_of_mem _ member), Option.map_map]
    rfl

theorem EscapeUnit.closeQuote_append {u : List Char} (unit : EscapeUnit u) (rest : List Char) :
    closeQuote (u ++ rest) = (closeQuote rest).map fun p => (u ++ p.1, p.2) := by
  cases unit with
  | name listed => rfl
  | code n =>
    change (closeQuote (hexUpper n ++ rest)).map _ = _
    rw [Text.closeQuote_append (isAlphanum_hexUpper n), Option.map_map]
    rfl
  | self plain quote slash => exact closeQuote_cons quote slash rest

/-- A quote put behind escaped bytes is the one that closes them. -/
theorem closeQuote_escape (bytes : List UInt8) (rest : List Char) :
    closeQuote (escape bytes ++ '"' :: rest) = some (escape bytes, rest) := by
  obtain ⟨units, made, shown⟩ := escape_units bytes
  rw [shown]
  clear shown
  induction units with
  | nil => rfl
  | cons u units ih =>
    rw [List.flatten_cons, List.append_assoc,
      (made u (List.mem_cons_self ..)).closeQuote_append,
      ih fun v member => made v (List.mem_cons_of_mem _ member)]
    rfl

end HeapLens.Text
