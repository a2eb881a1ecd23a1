/-!
Decimal numerals of magnitudes given as little-endian 64-bit limbs. The magnitude is divided by
ten to the nineteenth, limb by limb from the top, until nothing is left; the remainders, in
reverse, are the chunks of the numeral. A division is exact, so each quotient is smaller than the
number divided and the divisions end.
-/
namespace HeapLens.Magnitude

/-- The number that little-endian limbs stand for. -/
def value : List UInt64 → Nat
  | [] => 0
  | limb :: limbs => limb.toNat + UInt64.size * value limbs

/-- The largest power of ten that a limb can hold. -/
def chunk : Nat := 10000000000000000000

def isZero (limbs : List UInt64) : Bool := limbs.all (· == 0)

/-- Quotient limbs and remainder of a division by `chunk`, least significant limb first. The
remainder of the higher limbs stands above each limb as it is divided. -/
def divide : List UInt64 → List UInt64 × Nat
  | [] => ([], 0)
  | limb :: limbs =>
    let (quotient, remainder) := divide limbs
    let current := remainder * UInt64.size + limb.toNat
    (UInt64.ofNat (current / chunk) :: quotient, current % chunk)

theorem isZero_iff {limbs : List UInt64} : isZero limbs = true ↔ value limbs = 0 := by
  induction limbs with
  | nil => simp [isZero, value]
  | cons limb limbs ih =>
    have size : 0 < UInt64.size := by decide
    have zero : limb = 0 ↔ limb.toNat = 0 := by rw [← UInt64.toNat_inj]; rfl
    simp only [isZero, List.all_cons, Bool.and_eq_true, beq_iff_eq, value, Nat.add_eq_zero_iff,
      Nat.mul_eq_zero, Nat.pos_iff_ne_zero.mp size, false_or, zero]
    exact and_congr_right fun _ => ih

theorem divide_remainder_lt (limbs : List UInt64) : (divide limbs).2 < chunk := by
  cases limbs with
  | nil => decide
  | cons limb limbs => exact Nat.mod_lt _ (by decide)

/-- The quotient of a limb with the remainder of the higher limbs above it fits a limb. -/
theorem current_div_lt {remainder : Nat} (small : remainder < chunk) (limb : UInt64) :
    (remainder * UInt64.size + limb.toNat) / chunk < UInt64.size := by
  have bound := limb.toNat_lt
  simp only [chunk, UInt64.size] at small ⊢
  omega

theorem divide_value (limbs : List UInt64) :
    chunk * value (divide limbs).1 + (divide limbs).2 = value limbs := by
  induction limbs with
  | nil => rfl
  | cons limb limbs ih =>
    have fits := current_div_lt (divide_remainder_lt limbs) limb
    have split := Nat.div_add_mod ((divide limbs).2 * UInt64.size + limb.toNat) chunk
    simp only [divide, value, UInt64.toNat_ofNat_of_lt' fits]
    rw [Nat.mul_add, Nat.mul_left_comm, Nat.add_right_comm, split, ← ih, Nat.mul_add,
      Nat.mul_comm UInt64.size (divide limbs).2]
    omega

/-- Remainders of repeated division, least significant first. -/
def chunks (limbs : List UInt64) : List Nat :=
  if isZero limbs then []
  else
    let d := divide limbs
    d.2 :: chunks d.1
termination_by value limbs
decreasing_by
  have exact := divide_value limbs
  have positive : value limbs ≠ 0 := mt isZero_iff.mpr ‹_›
  simp only [chunk] at exact
  omega

/-- A chunk below the first, with its leading zeros. -/
def padded (n : Nat) : List Char :=
  let digits := Nat.toDigits 10 n
  List.replicate (19 - digits.length) '0' ++ digits

def numeral (limbs : List UInt64) : List Char :=
  match (chunks limbs).reverse with
  | [] => ['0']
  | first :: rest => Nat.toDigits 10 first ++ rest.flatMap padded

def decimal (limbs : List UInt64) : String := String.ofList (numeral limbs)

end HeapLens.Magnitude
