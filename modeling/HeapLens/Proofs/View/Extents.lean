import HeapLens.Proofs.View.Children

/-!
Sizes that are computed from what memory says. Each count is cut to the limit, or to what a layout
has room for, before it becomes a size, and where a size wraps around it is smaller than it should
be, never larger.
-/
namespace HeapLens

theorem toNat_add_le (a b : UInt64) : (a + b).toNat ≤ a.toNat + b.toNat := by
  rw [UInt64.toNat_add]
  exact Nat.mod_le _ _

theorem toNat_mul_le (a b : UInt64) : (a * b).toNat ≤ a.toNat * b.toNat := by
  rw [UInt64.toNat_mul]
  exact Nat.mod_le _ _

theorem toNat_mul_eq_iff (a b : UInt64) :
    (a * b).toNat = a.toNat * b.toNat ↔ a.toNat * b.toNat < UInt64.size := by
  constructor
  · intro whole
    rw [← whole]
    exact (a * b).toNat_lt
  · intro small
    rw [UInt64.toNat_mul]
    exact Nat.mod_eq_of_lt small

theorem toNat_max_le {a b : UInt64} {bound : Nat} (left : a.toNat ≤ bound)
    (right : b.toNat ≤ bound) : (max a b).toNat ≤ bound := by
  have larger : max a b = if a ≤ b then b else a := rfl
  rw [larger]
  split
  · exact right
  · exact left

theorem words_le {count limit : UInt64} (few : count ≤ limit) :
    (count * 8).toNat ≤ 8 * limit.toNat := by
  have fewer := UInt64.le_iff_toNat_le.mp few
  have product : (count * 8).toNat ≤ count.toNat * 8 := toNat_mul_le count 8
  omega

theorem row_le {count limit : UInt64} (few : count ≤ limit) :
    (16 + count * 8).toNat ≤ 16 + 8 * limit.toNat :=
  Nat.le_trans (toNat_add_le 16 _) (Nat.add_le_add_left (words_le few) 16)

theorem EntryRange.Plausible.slots_le {r : EntryRange} (possible : r.Plausible) :
    r.bound.toNat - r.start.toNat ≤ 0x800000000000 := by
  obtain ⟨ordered, power, fits, -, -⟩ := possible
  have shift : r.power.toNat < 48 := UInt64.lt_iff_toNat_lt.mp power
  have capacity : 2 ^ r.power.toNat ≤ 2 ^ 47 := Nat.pow_le_pow_right (by decide) (by omega)
  have allocated : ((1 : UInt64) <<< r.power).toNat = 2 ^ r.power.toNat := by
    simp only [UInt64.toNat_shiftLeft, UInt64.reduceToNat, Nat.one_shiftLeft,
      Nat.mod_eq_of_lt (show r.power.toNat < 64 by omega)]
    exact Nat.mod_eq_of_lt (by omega)
  have slots := UInt64.le_iff_toNat_le.mp fits
  rw [UInt64.toNat_sub_of_le _ _ ordered, allocated] at slots
  exact Nat.le_trans slots capacity

namespace Inspector
variable {i : Inspector}

theorem arrayExtent_le (flags : UInt64) :
    (i.arrayExtent 16 flags).toNat ≤ 16 + 8 * i.limit.toNat := by
  unfold arrayExtent
  split
  · exact row_le Std.min_le_right
  · exact Nat.zero_le _

theorem recordExtent_le (flags : UInt64) :
    (i.recordExtent 16 flags).toNat ≤ 16 + 8 * i.limit.toNat := by
  unfold recordExtent
  dsimp only
  split
  · exact Nat.zero_le _
  · exact row_le Std.min_le_right

theorem bignumExtent_le (flags : UInt64) :
    (i.bignumExtent 16 8 flags).toNat ≤ 16 + 8 * i.limit.toNat := by
  unfold bignumExtent
  dsimp only
  split
  · next inside =>
    rw [Bool.and_eq_true] at inside
    exact row_le (of_decide_eq_true inside.2)
  · exact Nat.zero_le _

theorem stringExtent_le {fields : Value} {header : Header} {needed : UInt64}
    (sized : i.stringExtent 24 fields header = .ok needed) : needed.toNat ≤ 280 := by
  unfold stringExtent at sized
  split at sized
  · cases counted : fields.signedMember "len" with
    | error e => rw [counted] at sized; cases sized
    | ok length =>
      rw [counted] at sized
      cases sized
      have preview := min_limit_le (if length < 0 then 0 else length.toUInt64) previewBytes
      exact Nat.le_trans (toNat_add_le 24 _) (Nat.add_le_add_left preview 24)
  · cases sized
    exact Nat.zero_le _

theorem pairCounts_ok {p : PairLayout} {address flags size bound : UInt64}
    (counted : i.pairCounts p address flags = .ok (size, bound)) :
    size = i.constants.field flags .hashSizeMask .hashSizeShift ∧
      bound = i.constants.field flags .hashBoundMask .hashBoundShift ∧ bound ≤ p.capacity := by
  unfold pairCounts at counted
  dsimp only at counted
  split at counted
  · cases counted
  · next few =>
    cases counted
    exact ⟨rfl, rfl, UInt64.not_lt.mp fun more => few (.inr more)⟩

theorem hashExtent_le {address flags needed : UInt64}
    (sized : i.hashExtent ⟨8, 16, 0, 8, 8⟩ 24 56 address flags = .ok needed) :
    needed.toNat ≤ 160 := by
  unfold hashExtent at sized
  split at sized
  · cases sized
    exact Nat.le_of_ble_eq_true rfl
  · cases counted : i.pairCounts ⟨8, 16, 0, 8, 8⟩ address flags with
    | error e => rw [counted] at sized; cases sized
    | ok counts =>
      rw [counted] at sized
      cases sized
      have few : counts.2.toNat ≤ 8 := UInt64.le_iff_toNat_le.mp (pairCounts_ok counted).2.2
      have product : (counts.2 * 16).toNat ≤ counts.2.toNat * 16 := toNat_mul_le counts.2 16
      have sum : (32 + counts.2 * 16).toNat ≤ 32 + (counts.2 * 16).toNat := toNat_add_le 32 _
      exact Nat.le_trans sum (by omega)

end Inspector
end HeapLens
