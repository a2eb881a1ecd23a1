import HeapLens.Decimal.Magnitude
import Mathlib.Data.Nat.Digits.Lemmas

/-!
Numerals of magnitudes. The remainders of the repeated division are the digits of the number in base
ten to the nineteenth, the lowest first, and nineteen decimal digits of each of them but the highest
make the numeral. Main statement: the numeral is the decimal one of the number that the limbs stand
for, without leading zeros, and on the way to it no step of a division needs more than two words.
-/
namespace HeapLens.Magnitude

/-! Decimal digits. -/

/-- The last decimal digits of a number, as many of them as are asked for. -/
def lastDigits : Nat → Nat → List Char
  | 0, _ => []
  | width + 1, n => lastDigits width (n / 10) ++ [(n % 10).digitChar]

theorem toDigits_append_lastDigits {n r width : Nat} (positive : 0 < n) (small : r < 10 ^ width) :
    Nat.toDigits 10 n ++ lastDigits width r = Nat.toDigits 10 (r + 10 ^ width * n) := by
  induction width generalizing r with
  | zero =>
    obtain rfl : r = 0 := by omega
    simp [lastDigits]
  | succ width ih =>
    have last : r % 10 < 10 := Nat.mod_lt r (by decide)
    have front : 0 < r / 10 + 10 ^ width * n := by positivity
    have whole : r + 10 ^ (width + 1) * n = 10 * (r / 10 + 10 ^ width * n) + r % 10 := by
      rw [Nat.pow_succ', Nat.mul_assoc]
      omega
    calc Nat.toDigits 10 n ++ lastDigits (width + 1) r
      _ = Nat.toDigits 10 (r / 10 + 10 ^ width * n) ++ [(r % 10).digitChar] := by
        rw [lastDigits, ← List.append_assoc, ih (by omega)]
      _ = Nat.toDigits 10 (r + 10 ^ (width + 1) * n) := by
        rw [whole, ← Nat.toDigits_append_toDigits (by decide) front last,
          Nat.toDigits_of_lt_base last]

theorem lastDigits_eq_leftpad {n width : Nat} (small : n < 10 ^ (width + 1)) :
    lastDigits (width + 1) n = (Nat.toDigits 10 n).leftpad (width + 1) '0' := by
  induction width generalizing n with
  | zero =>
    have one : n < 10 := small
    rw [lastDigits, Nat.mod_eq_of_lt one, Nat.toDigits_of_lt_base one]
    rfl
  | succ width ih =>
    have last : n % 10 < 10 := Nat.mod_lt n (by decide)
    rw [lastDigits, ih (by omega)]
    by_cases one : n < 10
    · rw [Nat.div_eq_of_lt one, Nat.mod_eq_of_lt one, Nat.toDigits_of_lt_base one]
      simp [List.leftpad, List.replicate_succ']
    · have front : 0 < n / 10 := by omega
      have split := Nat.toDigits_append_toDigits (by decide) front last
      rw [Nat.div_add_mod, Nat.toDigits_of_lt_base last] at split
      rw [← split]
      simp [List.leftpad]

theorem chunk_eq : chunk = 10 ^ 19 := rfl

theorem toDigits_append_padded {n c : Nat} (positive : 0 < n) (small : c < chunk) :
    Nat.toDigits 10 n ++ padded c = Nat.toDigits 10 (c + chunk * n) := by
  have filled : padded c = lastDigits 19 c := (lastDigits_eq_leftpad small).symm
  rw [filled, toDigits_append_lastDigits positive small, chunk_eq]

/-- The highest chunk as it is, and nineteen digits for every other one. -/
theorem toDigits_append_flatMap {n : Nat} {cs : List Nat} (positive : 0 < n)
    (small : ∀ c ∈ cs, c < chunk) :
    Nat.toDigits 10 n ++ cs.flatMap padded =
      Nat.toDigits 10 (cs.foldl (fun n c => c + chunk * n) n) := by
  induction cs generalizing n with
  | nil => simp
  | cons c cs ih =>
    have higher : 0 < chunk * n := Nat.mul_pos (by decide) positive
    rw [List.flatMap_cons, ← List.append_assoc, toDigits_append_padded positive (small c (by simp)),
      ih (by omega) fun c mem => small c (List.mem_cons_of_mem _ mem), List.foldl_cons]

theorem head?_toDigits_iff (n : Nat) : (Nat.toDigits 10 n).head? = some '0' ↔ n = 0 := by
  induction n using Nat.base_induction 10 (by decide) with
  | single d small =>
    rw [Nat.toDigits_of_lt_base small, List.head?_cons, Option.some_inj, Nat.digitChar_eq_zero]
  | digit n d small positive ih =>
    rw [← Nat.toDigits_append_toDigits (by decide) positive small,
      List.head?_append_of_ne_nil _ Nat.toDigits_ne_nil, ih]
    omega

/-! Chunks. -/

theorem chunks_eq_digits (limbs : List UInt64) :
    chunks limbs = Nat.digits chunk (value limbs) := by
  induction limbs using chunks.induct with
  | case1 limbs zero => rw [chunks, if_pos zero, isZero_iff.mp zero, Nat.digits_zero]
  | case2 limbs rest d ih =>
    have exact := divide_value limbs
    have positive : value limbs ≠ 0 := mt isZero_iff.mpr rest
    rw [chunks, if_neg rest, ← exact, Nat.add_comm,
      Nat.digits_add chunk (by decide) _ _ (divide_remainder_lt limbs) (by
        by_contra none
        simp only [not_or, not_not] at none
        rw [none.1, none.2] at exact
        exact positive exact.symm)]
    exact congrArg _ ih

theorem numeral_eq_toDigits (limbs : List UInt64) :
    numeral limbs = Nat.toDigits 10 (value limbs) := by
  have digits := chunks_eq_digits limbs
  unfold numeral
  cases falling : (chunks limbs).reverse with
  | nil =>
    rw [List.reverse_eq_nil_iff, digits, Nat.digits_eq_nil_iff_eq_zero] at falling
    rw [falling]
    rfl
  | cons first rest =>
    have rising : Nat.digits chunk (value limbs) = (first :: rest).reverse := by
      rw [← falling, List.reverse_reverse, digits]
    have nonzero : value limbs ≠ 0 := by
      rw [← Nat.digits_ne_nil_iff_ne_zero (b := chunk), rising]
      simp
    have top : first ≠ 0 := by
      have last := Nat.getLast_digit_ne_zero chunk nonzero
      simpa [rising] using last
    have small : ∀ c ∈ rest, c < chunk := fun c mem =>
      Nat.digits_lt_base (b := chunk) (m := value limbs) (by decide) (by simp [rising, mem])
    have total : value limbs = rest.foldl (fun n c => c + chunk * n) first := by
      have sum := Nat.ofDigits_digits chunk (value limbs)
      rw [rising, Nat.ofDigits_eq_foldr, List.foldr_reverse] at sum
      simpa using sum.symm
    rw [total]
    exact toDigits_append_flatMap (Nat.pos_of_ne_zero top) small

theorem toList_decimal (limbs : List UInt64) :
    (decimal limbs).toList = Nat.toDigits 10 (value limbs) := by
  rw [decimal, String.toList_ofList, numeral_eq_toDigits]

/-! The steps of a division. -/

/-- What a division has before it at each limb, the lowest first: the remainder of the limbs above
and the limb itself. -/
def steps : List UInt64 → List (Nat × UInt64)
  | [] => []
  | limb :: limbs => ((divide limbs).2, limb) :: steps limbs

/-- The number that a step divides, the remainder in one word and the limb in the next. -/
def current (s : Nat × UInt64) : Nat := s.1 <<< 64 ||| s.2.toNat

theorem current_eq (s : Nat × UInt64) : current s = s.1 * UInt64.size + s.2.toNat := by
  rw [current, ← Nat.shiftLeft_add_eq_or_of_lt s.2.toNat_lt, Nat.shiftLeft_eq]

theorem step_fits {s : Nat × UInt64} (small : s.1 < chunk) :
    current s < 2 ^ 128 ∧ current s / chunk < 2 ^ 64 := by
  have limb := s.2.toNat_lt
  have quotient := current_div_lt small s.2
  rw [current_eq]
  refine ⟨?_, quotient⟩
  simp only [chunk, UInt64.size] at small ⊢
  omega

theorem steps_fit (limbs : List UInt64) :
    ∀ s ∈ steps limbs, current s < 2 ^ 128 ∧ current s / chunk < 2 ^ 64 := by
  induction limbs with
  | nil => simp [steps]
  | cons limb limbs ih =>
    rw [steps, List.forall_mem_cons]
    exact ⟨step_fits (divide_remainder_lt limbs), ih⟩

/-- The quotient of each step is kept as a limb, and nothing of it is lost. -/
theorem divide_quotients (limbs : List UInt64) :
    (divide limbs).1.map UInt64.toNat = (steps limbs).map fun s => current s / chunk := by
  induction limbs with
  | nil => rfl
  | cons limb limbs ih =>
    have fits := current_div_lt (divide_remainder_lt limbs) limb
    rw [divide, steps, List.map_cons, List.map_cons, ih, current_eq,
      UInt64.toNat_ofNat_of_lt' fits]

/-- The limbs that are left after a number of divisions. -/
def quotient (limbs : List UInt64) : Nat → List UInt64
  | 0 => limbs
  | n + 1 => (divide (quotient limbs n)).1

theorem value_divide (limbs : List UInt64) : value (divide limbs).1 = value limbs / chunk := by
  rw [← divide_value limbs, Nat.mul_add_div (by decide),
    Nat.div_eq_of_lt (divide_remainder_lt limbs), Nat.add_zero]

theorem value_quotient (limbs : List UInt64) (n : Nat) :
    value (quotient limbs n) = value limbs / chunk ^ n := by
  induction n with
  | zero => rw [quotient, Nat.pow_zero, Nat.div_one]
  | succ n ih => rw [quotient, value_divide, ih, Nat.div_div_eq_div_mul, Nat.pow_succ]

/-- The divisions end, after one for each chunk. -/
theorem isZero_quotient_iff (limbs : List UInt64) (n : Nat) :
    isZero (quotient limbs n) = true ↔ (chunks limbs).length ≤ n := by
  rw [isZero_iff, value_quotient, chunks_eq_digits, Nat.digits_length_le_iff (by decide),
    Nat.div_eq_zero_iff_lt (Nat.pow_pos (by decide))]

/-- The numeral of the number, exact and without leading zeros, by divisions that fit the words they
are made in and come to an end. -/
theorem decimal_exact (limbs : List UInt64) :
    decimal limbs = toString (value limbs) ∧
    ((decimal limbs).toList.head? = some '0' ↔ value limbs = 0) ∧
    (∀ n, ∀ s ∈ steps (quotient limbs n),
      current s < 2 ^ 128 ∧ current s / chunk < 2 ^ 64) ∧
    (∀ n, (quotient limbs (n + 1)).map UInt64.toNat =
      (steps (quotient limbs n)).map fun s => current s / chunk) ∧
    ∀ n, isZero (quotient limbs n) = true ↔ (chunks limbs).length ≤ n := by
  have digits := toList_decimal limbs
  refine ⟨?_, ?_, ?_, ?_, ?_⟩
  · rw [← String.toList_inj, digits, Nat.toString_eq_repr, Nat.toList_repr]
  · rw [digits, head?_toDigits_iff]
  · exact fun n => steps_fit (quotient limbs n)
  · exact fun n => divide_quotients (quotient limbs n)
  · exact isZero_quotient_iff limbs

/-- The limbs of 10 ^ 38 + 7, three chunks with leading zeros in the lower two, and a limb of
zero. -/
def sparse : List UInt64 := [687399551400673287, 5421010862427522170, 0]

theorem sparse_exact : decimal sparse = "100000000000000000000000000000000000007" ∧
    ∃ s ∈ steps (quotient sparse 0), 2 ^ 126 < current s ∧ current s < 2 ^ 128 := by
  obtain ⟨exact, -, fits, -, -⟩ := decimal_exact sparse
  have first : (5421010862427522170, 687399551400673287) ∈ steps (quotient sparse 0) := by
    decide
  exact ⟨exact, _, first, by decide, (fits 0 _ first).1⟩

end HeapLens.Magnitude
