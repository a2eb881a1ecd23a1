import HeapLens.Proofs.Word.Bits
import HeapLens.Word.Flonum

/-!
Flonum words as numbers. A double that has an encoding consists of a sign, one bit that decides the
top of its exponent, and 60 bits that follow; the tagged word has the same three parts in another
order. Main statement: the words with the tag and the doubles with an encoding, which are zero and
those in range but for one, stand for each other.
-/
namespace HeapLens.Flonum

theorem toNat_rotateLeft (w : UInt64) :
    (rotateLeft w 3).toNat = w.toNat % 2 ^ 61 * 2 ^ 3 + w.toNat / 2 ^ 61 := by
  have bound := w.toNat_lt
  have high : w.toNat / 2 ^ 61 < 2 ^ 3 := by omega
  have low : (w <<< 3).toNat = (w.toNat % 2 ^ 61) <<< 3 := by
    rw [UInt64.toNat_shiftLeft, show (3 : UInt64).toNat % 64 = 3 from rfl]
    simp only [Nat.shiftLeft_eq]
    omega
  rw [rotateLeft, UInt64.toNat_or, low, UInt64.toNat_shiftRight,
    show (64 - 3 : UInt64).toNat % 64 = 61 from rfl, Nat.shiftRight_eq_div_pow,
    ← Nat.shiftLeft_add_eq_or_of_lt high, Nat.shiftLeft_eq]

theorem toNat_rotateRight (w : UInt64) :
    (rotateRight w 3).toNat = w.toNat % 2 ^ 3 * 2 ^ 61 + w.toNat / 2 ^ 3 := by
  have bound := w.toNat_lt
  have low : w.toNat / 2 ^ 3 < 2 ^ 61 := by omega
  have high : (w <<< (64 - 3)).toNat = (w.toNat % 2 ^ 3) <<< 61 := by
    rw [UInt64.toNat_shiftLeft, show (64 - 3 : UInt64).toNat % 64 = 61 from rfl]
    simp only [Nat.shiftLeft_eq]
    omega
  rw [rotateRight, UInt64.or_comm, UInt64.toNat_or, high, UInt64.toNat_shiftRight,
    show (3 : UInt64).toNat % 64 = 3 from rfl, Nat.shiftRight_eq_div_pow,
    ← Nat.shiftLeft_add_eq_or_of_lt low, Nat.shiftLeft_eq]

/-- The word with the tag in place of its two lowest bits. -/
theorem toNat_tagged (w : UInt64) : ((w &&& ~~~1) ||| 2).toNat = w.toNat / 4 * 4 + 2 := by
  have split : w &&& ~~~1 = (w &&& ~~~3) ||| (2 &&& w) := by
    rw [UInt64.and_comm w, UInt64.and_comm w, ← or_and_distrib]
    rfl
  have cleared : (w &&& ~~~3).toNat = w.toNat / 4 * 4 := toNat_and_not_low (n := 2) rfl w
  rw [split, UInt64.or_assoc, UInt64.or_comm (2 &&& w), or_and_absorb,
    toNat_or_low (by omega) (by decide), cleared]
  rfl

/-- What a tagged word and the double that it stands for have in common. -/
structure Parts where
  sign : Nat
  top : Nat
  rest : Nat
  bounds : sign < 2 ∧ top < 2 ∧ rest < 2 ^ 60

namespace Parts

def word (p : Parts) : Nat := p.top * 2 ^ 63 + p.rest * 8 + p.sign * 4 + 2

/-- The exponent starts with `100` or with `011`. -/
def double (p : Parts) : Nat := p.sign * 2 ^ 63 + (2 - p.top) * 2 ^ 61 + p.top * 2 ^ 60 + p.rest

/-- The special word is the one that would stand for the one double without an encoding. -/
theorem word_eq_zero_iff (p : Parts) :
    p.word = zero.toNat ↔ p.double = (0x3000000000000000 : UInt64).toNat := by
  obtain ⟨sign_lt, top_lt, rest_lt⟩ := p.bounds
  rw [show zero.toNat = 2 ^ 63 + 2 from rfl,
    show (0x3000000000000000 : UInt64).toNat = 3 * 2 ^ 60 from rfl, word, double]
  omega

end Parts

theorem tagged_iff (w : UInt64) : w &&& 3 = 2 ↔ w.toNat % 4 = 2 := by
  rw [← UInt64.toNat_inj, toNat_and_low (n := 2) rfl]
  rfl

theorem tagged_iff_parts (w : UInt64) : w &&& 3 = 2 ↔ ∃ p : Parts, w.toNat = p.word := by
  have bound := w.toNat_lt
  rw [tagged_iff]
  constructor
  · intro tagged
    refine ⟨⟨w.toNat / 4 % 2, w.toNat / 2 ^ 63, w.toNat / 8 % 2 ^ 60, ?_⟩, ?_⟩
    · omega
    · simp only [Parts.word]
      omega
  · rintro ⟨p, parts⟩
    rw [parts, Parts.word]
    omega

theorem inRange_iff (bits : UInt64) :
    InRange bits ↔ bits.toNat / 2 ^ 60 % 8 = 3 ∨ bits.toNat / 2 ^ 60 % 8 = 4 := by
  have field : ((bits >>> 60) &&& 7).toNat = bits.toNat / 2 ^ 60 % 8 := by
    rw [toNat_and_low (n := 3) rfl, UInt64.toNat_shiftRight, Nat.shiftRight_eq_div_pow]
    rfl
  unfold InRange
  rw [← UInt64.toNat_inj, ← UInt64.toNat_inj, field]
  rfl

theorem inRange_iff_parts (bits : UInt64) :
    InRange bits ↔ ∃ p : Parts, bits.toNat = p.double := by
  have bound := bits.toNat_lt
  rw [inRange_iff]
  constructor
  · intro range
    refine ⟨⟨bits.toNat / 2 ^ 63, bits.toNat / 2 ^ 60 % 2, bits.toNat % 2 ^ 60, ?_⟩, ?_⟩
    · omega
    · simp only [Parts.double]
      omega
  · rintro ⟨p, parts⟩
    obtain ⟨sign_lt, top_lt, rest_lt⟩ := p.bounds
    rw [parts, Parts.double]
    omega

theorem toNat_decode {w : UInt64} (other : w ≠ zero) {p : Parts} (parts : w.toNat = p.word) :
    (decode w).toNat = p.double := by
  obtain ⟨sign_lt, top_lt, rest_lt⟩ := p.bounds
  rw [Parts.word] at parts
  have high : (w >>> 63).toNat = p.top := by
    rw [UInt64.toNat_shiftRight, Nat.shiftRight_eq_div_pow,
      show (63 : UInt64).toNat % 64 = 63 from rfl]
    omega
  have exponent : ((2 : UInt64) - (w >>> 63)).toNat = 2 - p.top := by
    rw [UInt64.toNat_sub_of_le, high]
    · rfl
    · rw [UInt64.le_iff_toNat_le, high]
      exact Nat.le_of_lt top_lt
  have cleared : (w &&& ~~~3).toNat = w.toNat / 4 * 4 := toNat_and_not_low (n := 2) rfl w
  rw [decode, if_neg other, toNat_rotateRight, UInt64.or_comm,
    toNat_or_low (by omega) (by omega), cleared, exponent, parts, Parts.double]
  omega

theorem toNat_encoded {bits : UInt64} {p : Parts} (parts : bits.toNat = p.double) :
    ((rotateLeft bits 3 &&& ~~~1) ||| 2).toNat = p.word := by
  obtain ⟨sign_lt, top_lt, rest_lt⟩ := p.bounds
  rw [toNat_tagged, toNat_rotateLeft, parts, Parts.double, Parts.word]
  omega

theorem decode_of_encode {bits w : UInt64} (encoded : encode bits = some w) :
    w &&& 3 = 2 ∧ decode w = bits := by
  unfold encode at encoded
  split at encoded
  · next plain =>
    cases encoded
    obtain ⟨p, parts⟩ := (inRange_iff_parts bits).mp plain.2
    have word := toNat_encoded parts
    have other : (rotateLeft bits 3 &&& ~~~1) ||| 2 ≠ zero := by
      rw [Ne, ← UInt64.toNat_inj, word, p.word_eq_zero_iff, ← parts, UInt64.toNat_inj]
      exact plain.1
    refine ⟨(tagged_iff_parts _).mpr ⟨p, word⟩, ?_⟩
    rw [← UInt64.toNat_inj, toNat_decode other word, parts]
  · split at encoded
    · next none =>
      cases encoded
      subst none
      exact ⟨rfl, rfl⟩
    · cases encoded

theorem encode_decode {w : UInt64} (tagged : w &&& 3 = 2) : encode (decode w) = some w := by
  by_cases special : w = zero
  · subst special
    exact encode_zero
  · obtain ⟨p, parts⟩ := (tagged_iff_parts w).mp tagged
    have double := toNat_decode special parts
    have plain : decode w ≠ 0x3000000000000000 := by
      rw [Ne, ← UInt64.toNat_inj, double, ← p.word_eq_zero_iff, ← parts, UInt64.toNat_inj]
      exact special
    rw [encode, if_pos ⟨plain, (inRange_iff_parts _).mpr ⟨p, double⟩⟩]
    congr 1
    rw [← UInt64.toNat_inj, toNat_encoded double, parts]

/-- Encoding and decoding undo each other. -/
theorem encode_eq_some_iff {bits w : UInt64} :
    encode bits = some w ↔ w &&& 3 = 2 ∧ decode w = bits :=
  ⟨decode_of_encode, fun ⟨tagged, decoded⟩ => decoded ▸ encode_decode tagged⟩

/-- The one double in range without an encoding gave its word to zero. -/
theorem exists_encode_iff (bits : UInt64) :
    (∃ w, encode bits = some w) ↔ bits = 0 ∨ InRange bits ∧ bits ≠ 0x3000000000000000 := by
  unfold encode
  by_cases plain : bits ≠ 0x3000000000000000 ∧ InRange bits
  · rw [if_pos plain]
    exact iff_of_true ⟨_, rfl⟩ (.inr plain.symm)
  · rw [if_neg plain]
    by_cases none : bits = 0
    · rw [if_pos none]
      exact iff_of_true ⟨_, rfl⟩ (.inl none)
    · rw [if_neg none]
      exact iff_of_false nofun fun encoded =>
        encoded.elim none fun range => plain range.symm

/-- The doubles with an encoding and the words with the tag stand for each other, one for one. -/
theorem codec_bijective :
    (∀ bits, (∃ w, encode bits = some w) ↔
      bits = 0 ∨ (bits.toNat / 2 ^ 60 % 8 = 3 ∨ bits.toNat / 2 ^ 60 % 8 = 4) ∧
        bits ≠ 0x3000000000000000) ∧
    (∀ bits w, encode bits = some w ↔ w &&& 3 = 2 ∧ decode w = bits) ∧
    ∀ w, encode (decode w) = some w ↔ w &&& 3 = 2 := by
  refine ⟨fun bits => ?_, fun bits w => encode_eq_some_iff, fun w => ?_⟩
  · rw [← inRange_iff]
    exact exists_encode_iff bits
  · rw [encode_eq_some_iff]
    exact and_iff_left rfl

/-- The words next to the special one, and the double whose word was taken. -/
example : encode 0x3000000000000001 = some 0x800000000000000a ∧
    encode 0xb000000000000000 = some 0x8000000000000006 ∧ encode 0x3000000000000000 = none := by
  decide

end HeapLens.Flonum
