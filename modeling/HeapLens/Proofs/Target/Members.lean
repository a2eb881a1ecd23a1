import HeapLens.Heap.Classify
import HeapLens.Layout.Standard

/-!
Members of records in the bytes that were read. A member of eight bytes is the word at its offset
as long as the record was read that far, whatever follows.
-/
namespace HeapLens

/-! Records that the standard registry knows. A lookup compares names and is evaluated only here. -/

namespace Registry

theorem lookup_array : standard.lookup "struct RArray" = .ok .array := rfl

theorem lookup_struct : standard.lookup "struct RStruct" = .ok .struct := rfl

theorem lookup_string : standard.lookup "struct RString" = .ok .string := rfl

theorem lookup_bignum : standard.lookup "struct RBignum" = .ok .bignum := rfl

theorem lookup_bigDigit : standard.lookup "BDIGIT" = .ok .bigDigit := rfl

theorem lookup_symbol : standard.lookup "struct RSymbol" = .ok .symbol := rfl

theorem lookup_hash : standard.lookup "struct RHash" = .ok .hash := rfl

theorem lookup_table : standard.lookup "st_table" = .ok .table := rfl

end Registry

namespace Bytes

theorem slice?_inside {bytes : Bytes} {start count : Nat} (inside : start + count ≤ bytes.length) :
    bytes.slice? start count = some ((bytes.drop start).take count) := if_pos inside

theorem word_take (bytes : Bytes) {count : Nat} (whole : 8 ≤ count) :
    word (bytes.take count) = word bytes := by
  rw [word, word, List.take_take, Nat.min_eq_left whole]

end Bytes

namespace Value
variable {v : Value} {field : String} {offset : UInt64} {l : Layout}

theorem member_inside (placed : v.type.member? field = some (offset, l))
    (inside : offset.toNat + l.size.toNat ≤ v.bytes.length) :
    v.member field = .ok ⟨l, (v.bytes.drop offset.toNat).take l.size.toNat,
      v.address.map (· + offset)⟩ := by
  unfold member
  rw [placed]
  dsimp only
  rw [Bytes.slice?_inside inside]

theorem unsignedMember_inside (placed : v.type.member? field = some (offset, l))
    (size : l.size = 8) (inside : offset.toNat + 8 ≤ v.bytes.length) :
    v.unsignedMember field = .ok (v.bytes.wordAt offset.toNat) := by
  have eight : l.size.toNat = 8 := by rw [size]; rfl
  rw [unsignedMember, member_inside placed (by rwa [eight]), eight]
  exact congrArg Except.ok (Bytes.word_take _ (Nat.le_refl 8))

theorem signedMember_inside (placed : v.type.member? field = some (offset, l))
    (size : l.size = 8) (inside : offset.toNat + 8 ≤ v.bytes.length) :
    v.signedMember field = .ok (v.bytes.wordAt offset.toNat).toInt64 := by
  have eight : l.size.toNat = 8 := by rw [size]; rfl
  have whole : ((v.bytes.drop offset.toNat).take 8).length = 8 := by
    rw [List.length_take, List.length_drop]
    omega
  have unshifted (w : UInt64) : (w <<< UInt64.ofNat 0).toInt64 >>> (UInt64.ofNat 0).toInt64 =
      w.toInt64 := by
    simp
  rw [signedMember, member_inside placed (by rwa [eight]), eight]
  refine congrArg Except.ok ?_
  unfold signed unsigned
  dsimp only
  rw [whole, Bytes.word_take _ (Nat.le_refl 8)]
  exact unshifted _

end Value

/-- A header is parsed from the first sixteen bytes. -/
theorem Header.ofValue_front {l : Layout} {bytes : Bytes} {address : UInt64}
    (flags : l.member? "basic.flags" = some (0, .value))
    (klass : l.member? "basic.klass" = some (8, .value)) (long : 16 ≤ bytes.length) :
    Header.ofValue ⟨l, bytes, some address⟩ = .ok ⟨address, bytes.wordAt 0, bytes.wordAt 8⟩ := by
  have early : (0 : UInt64).toNat + 8 ≤ bytes.length := Nat.le_trans (by decide) long
  have late : (8 : UInt64).toNat + 8 ≤ bytes.length := long
  unfold Header.ofValue
  rw [Value.unsignedMember_inside (v := ⟨l, bytes, some address⟩) flags rfl early,
    Value.unsignedMember_inside (v := ⟨l, bytes, some address⟩) klass rfl late]
  rfl

end HeapLens
