import HeapLens.Decimal.Magnitude
import HeapLens.Word.Bytes
import Mathlib.Algebra.BigOperators.Ring.Finset

/-!
The number in a byte string, in digits of any width and in limbs. A byte string that is cut into
runs of some width is the sum of what the runs stand for, each at its place, and a string cut into
limbs is the same number, for the last limb is filled up with zeros.
-/
namespace HeapLens.Bytes

theorem capacity_eq (count : Nat) : capacity count = 2 ^ (8 * count) := by
  induction count with
  | zero => rfl
  | succ count ih => rw [capacity, ih, Nat.mul_succ, Nat.pow_add, Nat.mul_comm]

theorem toNat_word (bytes : Bytes) : (word bytes).toNat = value (bytes.take 8) := by
  have small := value_lt (bytes.take 8)
  have most : capacity (bytes.take 8).length ≤ UInt64.size := by
    rw [← capacity_eight, capacity_eq, capacity_eq]
    exact Nat.pow_le_pow_right (by decide) (Nat.mul_le_mul_left 8 (List.length_take_le ..))
  rw [word, UInt64.toNat_ofNat_of_lt' (Nat.lt_of_lt_of_le small most)]

/-- The digit at a position of a row of digits that have so many bytes each. -/
def digit (bytes : Bytes) (width position : Nat) : Nat :=
  value ((bytes.drop (width * position)).take width)

end HeapLens.Bytes
