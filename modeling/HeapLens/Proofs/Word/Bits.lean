import Mathlib.Algebra.Group.Nat.Defs

/-!
Bits of words. Where a mask is a run of low bits, the operations are division and remainder; for
masks of any shape the module says which bits can be prescribed together.
-/
namespace HeapLens

theorem or_and_distrib (a b c : UInt64) : (a ||| b) &&& c = (a &&& c) ||| (b &&& c) :=
  UInt64.toNat_inj.mp (by simp [Nat.and_or_distrib_right])

theorem or_and_absorb (a b : UInt64) : a ||| (a &&& b) = a := by
  apply UInt64.toNat_inj.mp
  apply Nat.eq_of_testBit_eq
  intro bit
  cases h : a.toNat.testBit bit <;> simp [h]

/-! Low bits. -/

theorem toNat_and_low {m : UInt64} {n : Nat} (low : m.toNat = 2 ^ n - 1) (w : UInt64) :
    (w &&& m).toNat = w.toNat % 2 ^ n := by
  rw [UInt64.toNat_and, low, Nat.and_two_pow_sub_one_eq_mod]

theorem toNat_and_not_low {m : UInt64} {n : Nat} (low : m.toNat = 2 ^ n - 1) (w : UInt64) :
    (w &&& ~~~m).toNat = w.toNat / 2 ^ n * 2 ^ n := by
  have bound := m.toNat_lt
  have complement : (~~~m).toNat = 2 ^ 64 - (m.toNat + 1) := by
    rw [UInt64.toNat_not, UInt64.size]
    omega
  apply Nat.eq_of_testBit_eq
  intro bit
  rw [UInt64.toNat_and, Nat.testBit_and, complement, Nat.testBit_two_pow_sub_succ bound, low,
    Nat.testBit_two_pow_sub_one, Nat.testBit_mul_two_pow, Nat.testBit_div_two_pow]
  by_cases below : bit < n
  · simp [below, Nat.not_le.mpr below]
  · have above : n ≤ bit := Nat.not_lt.mp below
    by_cases inside : bit < 64
    · simp [inside, above, Nat.sub_add_cancel above]
    · have clear : w.toNat.testBit bit = false := by
        apply Nat.testBit_lt_two_pow
        exact Nat.lt_of_lt_of_le w.toNat_lt (Nat.pow_le_pow_right (by decide) (by omega))
      simp [clear, Nat.sub_add_cancel above]

/-- Two bits put where a word has none. -/
theorem toNat_or_low {x t : UInt64} (clear : x.toNat % 4 = 0) (small : t.toNat < 4) :
    (x ||| t).toNat = x.toNat + t.toNat := by
  have shifted : x.toNat = (x.toNat / 4) <<< 2 := by rw [Nat.shiftLeft_eq]; omega
  rw [UInt64.toNat_or, shifted, ← Nat.shiftLeft_add_eq_or_of_lt small]

/-! Words of which some bits are prescribed. -/

/-- Every bit of `a` is a bit of `m`. -/
def Within (m a : UInt64) : Prop := a &&& m = a

instance (m a : UInt64) : Decidable (Within m a) := by unfold Within; infer_instance

theorem within_of_masked {m g w : UInt64} (masked : w &&& m = g) : Within m g := by
  rw [Within, ← masked, UInt64.and_assoc, UInt64.and_self]

theorem within_of_outside {m a : UInt64} (outside : ~~~m &&& a = 0) : Within m a := by
  calc a &&& m = m &&& a ||| ~~~m &&& a := by rw [outside, UInt64.or_zero, UInt64.and_comm]
    _ = a := by rw [← or_and_distrib, UInt64.or_not_self, UInt64.neg_one_and]

/-- Bits prescribed under a mask leave a flag free exactly when it does not lie under the mask. -/
theorem exists_masked_flagged {m g f : UInt64} (apart : g &&& f = 0) :
    (∃ w, w &&& m = g ∧ w &&& f ≠ 0) ↔ Within m g ∧ ¬ Within m f := by
  constructor
  · rintro ⟨w, masked, flagged⟩
    refine ⟨within_of_masked masked, fun inside => flagged ?_⟩
    calc w &&& f = w &&& m &&& f := by rw [UInt64.and_assoc, UInt64.and_comm m, inside]
      _ = 0 := by rw [masked, apart]
  · rintro ⟨inside, free⟩
    refine ⟨g ||| ~~~m, ?_, fun unflagged => free (within_of_outside ?_)⟩
    · rw [or_and_distrib, inside, UInt64.not_and_self, UInt64.or_zero]
    · rwa [or_and_distrib, apart, UInt64.zero_or] at unflagged

/-- Bits prescribed under two masks can be had together when they agree where the masks meet. -/
theorem exists_masked_twice {m g n y : UInt64} :
    (∃ w, w &&& m = g ∧ w &&& n = y) ↔ Within m g ∧ Within n y ∧ g &&& n = y &&& m := by
  constructor
  · rintro ⟨w, left, right⟩
    refine ⟨within_of_masked left, within_of_masked right, ?_⟩
    rw [← left, ← right, UInt64.and_assoc, UInt64.and_assoc, UInt64.and_comm m]
  · rintro ⟨left, right, meet⟩
    refine ⟨g ||| y, ?_, ?_⟩
    · rw [or_and_distrib, left, ← meet, or_and_absorb]
    · rw [or_and_distrib, right, meet, UInt64.or_comm, or_and_absorb]

end HeapLens
