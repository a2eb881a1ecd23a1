/-!
Byte strings and the little-endian words they hold. A byte string is a list of bytes; its value
is a `Nat`, and a word is that value taken from at most eight bytes. `words` cuts a byte string
into whole words and drops what is left over, `limbs` keeps the rest as a last, padded word.
-/
namespace HeapLens

abbrev Bytes := List UInt8

namespace Bytes

/-- The bytes as digits of base 256, least significant first. -/
def value : Bytes → Nat
  | [] => 0
  | b :: bs => b.toNat + 256 * value bs

/-- The low `count` digits of base 256. -/
def ofNat : Nat → Nat → Bytes
  | 0, _ => []
  | count + 1, n => UInt8.ofNat n :: ofNat count (n / 256)

def ofWord (w : UInt64) : Bytes := ofNat 8 w.toNat

/-- The first eight bytes as a word, with zeros for those that are missing. -/
def word (bs : Bytes) : UInt64 := UInt64.ofNat (value (bs.take 8))

def wordAt (bs : Bytes) (offset : Nat) : UInt64 := word (bs.drop offset)

def words : Bytes → List UInt64
  | a :: b :: c :: d :: e :: f :: g :: h :: rest => word [a, b, c, d, e, f, g, h] :: words rest
  | _ => []

def limbs : Bytes → List UInt64
  | a :: b :: c :: d :: e :: f :: g :: h :: rest => word [a, b, c, d, e, f, g, h] :: limbs rest
  | [] => []
  | rest => [word rest]

/-- `count` bytes from `start`, when all of them are there. -/
def slice? (bs : Bytes) (start count : Nat) : Option Bytes :=
  if start + count ≤ bs.length then some ((bs.drop start).take count) else none

/-- Consecutive runs of exactly `stride` bytes; a shorter rest is dropped. -/
def runs (stride : Nat) (bs : Bytes) : List Bytes :=
  if _ : 0 < stride ∧ stride ≤ bs.length then
    bs.take stride :: runs stride (bs.drop stride)
  else []
termination_by bs.length
decreasing_by simp only [List.length_drop]; omega

/-- How many values a number of bytes can take. -/
def capacity : Nat → Nat
  | 0 => 1
  | count + 1 => 256 * capacity count

theorem capacity_eight : capacity 8 = UInt64.size := rfl

@[simp] theorem length_ofNat (count n : Nat) : (ofNat count n).length = count := by
  induction count generalizing n with
  | zero => rfl
  | succ count ih => simp [ofNat, ih]

theorem value_ofNat (count n : Nat) : value (ofNat count n) = n % capacity count := by
  induction count generalizing n with
  | zero => simp [ofNat, value, capacity, Nat.mod_one]
  | succ count ih =>
    rw [ofNat, value, ih, capacity, UInt8.toNat_ofNat']
    exact Nat.mod_mul.symm

theorem value_lt (bs : Bytes) : value bs < capacity bs.length := by
  induction bs with
  | nil => simp [value, capacity]
  | cons b bs ih =>
    have small := b.toNat_lt
    simp only [value, capacity, List.length_cons]
    omega

@[simp] theorem word_ofWord (w : UInt64) : word (ofWord w) = w := by
  unfold word ofWord
  rw [List.take_of_length_le (by simp), value_ofNat, capacity_eight]
  exact UInt64.toNat_inj.mp (by simp)

theorem length_slice? {bs part : Bytes} {start count : Nat}
    (h : slice? bs start count = some part) : part.length = count := by
  unfold slice? at h
  split at h
  · cases h; simp only [List.length_take, List.length_drop]; omega
  · cases h

end Bytes
end HeapLens
