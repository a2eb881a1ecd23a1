import HeapLens.Text.Numeral
import Mathlib.Data.List.Induction

/-!
The numerals of a number in a base up to sixteen, in either case and with leading zeros or without.
Every numeral of a word is read as that word.
-/
namespace HeapLens.Text

/-- A digit in lower or upper case. -/
def IsDigitOf (d : Nat) (c : Char) : Prop := c = d.digitChar ∨ c = d.digitChar.toUpper

/-- The numerals of a number, leading zeros allowed. -/
inductive Numeral (base : Nat) : Nat → List Char → Prop where
  | digit {d : Nat} {c : Char} (small : d < base) (shown : IsDigitOf d c) : Numeral base d [c]
  | more {n d : Nat} {cs : List Char} {c : Char} (front : Numeral base n cs) (small : d < base)
      (shown : IsDigitOf d c) : Numeral base (base * n + d) (cs ++ [c])

theorem digitValue_digitChar : ∀ d < 16, digitValue d.digitChar = some d ∧
    digitValue d.digitChar.toUpper = some d := by
  decide

theorem digitValue_of_isDigitOf {d : Nat} {c : Char} (small : d < 16) (shown : IsDigitOf d c) :
    digitValue c = some d := by
  rcases shown with rfl | rfl
  · exact (digitValue_digitChar d small).1
  · exact (digitValue_digitChar d small).2

/-- A character that counts as a digit is one. -/
theorem isDigitOf_of_digitValue {d : Nat} {c : Char} (read : digitValue c = some d) :
    IsDigitOf d c := by
  have digits : ∀ n < 103, (digitValue (Char.ofNat n)).all fun d =>
      Char.ofNat n == d.digitChar || Char.ofNat n == d.digitChar.toUpper := by decide
  have small : c.toNat < 103 := by
    have below {top : Char} (inside : c ≤ top) (last : top.toNat < 103) : c.toNat < 103 :=
      Nat.lt_of_le_of_lt (UInt32.le_iff_toNat_le.mp inside) last
    unfold digitValue at read
    split at read
    · next decimal => exact below decimal.2 (by decide)
    split at read
    · next lower => exact below lower.2 (by decide)
    split at read
    · next upper => exact below upper.2 (by decide)
    · cases read
  have shown := digits c.toNat small
  rw [Char.ofNat_toNat, read] at shown
  simpa [IsDigitOf] using shown

theorem readDigits_append (base value : Nat) (cs ds : List Char) :
    readDigits base value (cs ++ ds) =
      (readDigits base value cs).bind fun value => readDigits base value ds := by
  induction cs generalizing value with
  | nil => rfl
  | cons c cs ih =>
    rw [List.cons_append, readDigits, readDigits]
    split
    · split
      · exact ih _
      · rfl
    · rfl

theorem readDigits_one {base value d : Nat} {c : Char} (read : digitValue c = some d)
    (small : d < base) : readDigits base value [c] = some (value * base + d) := by
  simp only [readDigits, read, if_pos small]

theorem Numeral.ne_nil {base n : Nat} {cs : List Char} (h : Numeral base n cs) : cs ≠ [] := by
  cases h with
  | digit small shown => exact List.cons_ne_nil _ _
  | more front small shown => exact List.append_ne_nil_of_right_ne_nil _ (List.cons_ne_nil _ _)

theorem Numeral.readDigits_eq {base n : Nat} {cs : List Char} (top : base ≤ 16)
    (h : Numeral base n cs) : readDigits base 0 cs = some n := by
  induction h with
  | digit small shown =>
    rw [readDigits_one (digitValue_of_isDigitOf (Nat.lt_of_lt_of_le small top) shown) small,
      Nat.zero_mul, Nat.zero_add]
  | more front small shown ih =>
    rw [readDigits_append, ih, Option.bind_some,
      readDigits_one (digitValue_of_isDigitOf (Nat.lt_of_lt_of_le small top) shown) small,
      Nat.mul_comm]

theorem Numeral.readNat_eq {base n : Nat} {cs : List Char} (top : base ≤ 16)
    (h : Numeral base n cs) : readNat base cs = some n := by
  unfold readNat
  rw [if_neg (by simpa using h.ne_nil), h.readDigits_eq top]

/-- What is read as a number is a numeral of it. -/
theorem numeral_of_readDigits {base n : Nat} {cs : List Char} (filled : cs ≠ [])
    (read : readDigits base 0 cs = some n) : Numeral base n cs := by
  induction cs using List.reverseRecOn generalizing n with
  | nil => exact absurd rfl filled
  | append_singleton front c ih =>
    rw [readDigits_append] at read
    obtain ⟨value, before, last⟩ := Option.bind_eq_some_iff.mp read
    cases digit : digitValue c with
    | none => simp [readDigits, digit] at last
    | some d =>
      have small : d < base := by
        refine Decidable.byContradiction fun large => ?_
        simp [readDigits, digit, large] at last
      rw [readDigits_one digit small] at last
      cases last
      have shown := isDigitOf_of_digitValue digit
      by_cases alone : front = []
      · subst alone
        cases before
        rw [Nat.zero_mul, Nat.zero_add]
        exact .digit small shown
      · rw [Nat.mul_comm]
        exact .more (ih alone before) small shown

theorem readNat_eq_iff {base n : Nat} {cs : List Char} (top : base ≤ 16) :
    readNat base cs = some n ↔ Numeral base n cs := by
  refine ⟨fun read => ?_, fun h => h.readNat_eq top⟩
  unfold readNat at read
  split at read
  · cases read
  · next filled => exact numeral_of_readDigits (by simpa using filled) read

theorem numeral_toDigits {base : Nat} (two : 1 < base) (n : Nat) :
    Numeral base n (Nat.toDigits base n) := by
  induction n using Nat.base_induction base two with
  | single d small =>
    rw [Nat.toDigits_of_lt_base small]
    exact .digit small (.inl rfl)
  | digit n d small pos ih =>
    rw [← Nat.toDigits_append_toDigits two pos small, Nat.toDigits_of_lt_base small]
    exact .more ih small (.inl rfl)

theorem numeral_toString (n : Nat) : Numeral 10 n (toString n).toList := by
  rw [Nat.toString_eq_repr, Nat.toList_repr]
  exact numeral_toDigits (by decide) n

theorem isAlphanum_digitChar : ∀ d < 16, d.digitChar.isAlphanum = true ∧
    d.digitChar.toUpper.isAlphanum = true := by
  decide

theorem isDigit_digitChar : ∀ d < 10, d.digitChar.isDigit = true ∧
    d.digitChar.toUpper.isDigit = true := by
  decide

theorem Numeral.all {base n : Nat} {cs : List Char} {p : Char → Bool}
    (digits : ∀ d < base, p d.digitChar = true ∧ p d.digitChar.toUpper = true)
    (h : Numeral base n cs) : ∀ c ∈ cs, p c = true := by
  have one {d : Nat} {c : Char} (small : d < base) (shown : IsDigitOf d c) : p c = true := by
    rcases shown with rfl | rfl
    · exact (digits d small).1
    · exact (digits d small).2
  induction h with
  | digit small shown =>
    intro c mem
    rw [List.mem_singleton.mp mem]
    exact one small shown
  | more front small shown ih =>
    intro c mem
    rcases List.mem_append.mp mem with mem | mem
    · exact ih c mem
    · rw [List.mem_singleton.mp mem]
      exact one small shown

theorem Numeral.readWord_eq {base : Nat} {value : UInt64} {cs : List Char} (top : base ≤ 16)
    (h : Numeral base value.toNat cs) : readWord base cs = some value := by
  have plus : dropPlus cs = cs := by
    unfold dropPlus
    split
    · have bad := h.all (fun d small => isAlphanum_digitChar d (by omega)) '+' (.head _)
      exact absurd bad (by decide)
    · rfl
  unfold readWord
  simp only [plus, h.readNat_eq top, UInt64.toNat_lt_size, if_true, UInt64.ofNat_toNat]

/-- A word is read from the numerals of its number, with a plus sign or without one. -/
theorem readWord_eq_iff {base : Nat} {value : UInt64} {cs : List Char} (top : base ≤ 16) :
    readWord base cs = some value ↔
      ∃ digits, Numeral base value.toNat digits ∧ (cs = digits ∨ cs = '+' :: digits) := by
  constructor
  · intro read
    obtain ⟨n, number, rfl⟩ := readWord_lt read
    refine ⟨dropPlus cs, (readNat_eq_iff top).mp number, ?_⟩
    unfold dropPlus
    split
    · exact .inr rfl
    · exact .inl rfl
  · rintro ⟨digits, numeral, rfl | rfl⟩
    · exact numeral.readWord_eq top
    · have plus : dropPlus ('+' :: digits) = digits := rfl
      unfold readWord
      simp only [plus, numeral.readNat_eq top, UInt64.toNat_lt_size, if_true, UInt64.ofNat_toNat]

theorem readLiteral_decimal {value : UInt64} {cs : List Char} (h : Numeral 10 value.toNat cs) :
    readLiteral cs = some value := by
  have digits := h.all isDigit_digitChar
  unfold readLiteral
  split
  · exact absurd (digits 'x' (.tail _ (.head _))) (by decide)
  · exact absurd (digits 'X' (.tail _ (.head _))) (by decide)
  · exact h.readWord_eq (by decide)

end HeapLens.Text
