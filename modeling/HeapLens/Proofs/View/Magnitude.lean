import HeapLens.Proofs.View.OneRead
import HeapLens.Proofs.Word.Digits

/-!
The number that an integer view shows. Its digits stand in the slot or in a buffer elsewhere, and
the size of the row is their number times their width, computed in a word. Main statement: the limbs
are the number that the bytes of this size spell, and these are all the digits that were recorded
exactly when their size fits a word.
-/
namespace HeapLens
open Run

/-- The bytes that the magnitude is made of, taken from the slot or read at the digit pointer. -/
structure BignumView.TakenFrom (i : Inspector) (width : UInt64) (r : ObjectRead)
    (later after : Trace) (v : BignumView) (bytes : Bytes) : Prop where
  inside : v.embedded = true → ∃ offset,
    i.target.offsetOf "struct RBignum" "as.ary" = .ok offset ∧
      r.bytes.slice? offset.toNat (v.length * width).toNat = some bytes
  outside : v.embedded = false → ∃ p, r.fields.unsignedMember "as.heap.digits" = .ok p ∧
    if v.length = 0 then bytes = []
    else i.target.read p (v.length * width) later = (.ok bytes, after)

section
variable {i : Inspector} {digit : Layout} {width : UInt64} {r : ObjectRead} {later after : Trace}
  {v : BignumView} {limbs : List UInt64} {bytes : Bytes}

theorem BignumView.ReadFrom.taken (read : v.ReadFrom i r later after)
    (named : i.target.layout "BDIGIT" = .ok digit) (shown : v.limbs = some limbs) :
    ∃ bytes, v.TakenFrom i digit.size r later after bytes ∧ limbs = bytes.limbs := by
  cases embedded : v.embedded with
  | true =>
    obtain ⟨-, -, found⟩ := read.inside embedded
    by_cases small : v.length ≤ i.limit
    · rw [if_pos small] at found
      obtain ⟨offset, l, bytes, placed, known, part, all⟩ := found
      cases named.symm.trans known
      cases shown.symm.trans all
      exact ⟨bytes, {
        inside := fun _ => ⟨offset, placed, part⟩
        outside := fun elsewhere => nomatch embedded.symm.trans elsewhere }, rfl⟩
    · rw [if_neg small, shown] at found
      cases found
  | false =>
    obtain ⟨-, p, pointed, found⟩ := read.outside embedded
    have away (bytes : Bytes) (there : if v.length = 0 then bytes = []
        else i.target.read p (v.length * digit.size) later = (.ok bytes, after)) :
        v.TakenFrom i digit.size r later after bytes := {
      inside := fun inside => nomatch embedded.symm.trans inside
      outside := fun _ => ⟨p, pointed, there⟩ }
    by_cases none : v.length = 0
    · rw [if_pos none] at found
      cases shown.symm.trans found.1
      exact ⟨[], away [] (if_pos none ▸ rfl), rfl⟩
    · by_cases small : v.length ≤ i.limit
      · rw [if_neg none, if_pos small] at found
        obtain ⟨l, bytes, known, answer, all⟩ := found
        cases named.symm.trans known
        cases shown.symm.trans all
        exact ⟨bytes, away bytes (by rwa [if_neg none]), rfl⟩
      · rw [if_neg none, if_neg small, shown] at found
        cases found.1

/-- The size that is asked for is computed in a word. -/
theorem BignumView.TakenFrom.length (taken : v.TakenFrom i width r later after bytes)
    (exact : i.target.Exact) : bytes.length = (v.length * width).toNat := by
  cases embedded : v.embedded with
  | true =>
    obtain ⟨offset, -, part⟩ := taken.inside embedded
    exact Bytes.length_slice? part
  | false =>
    obtain ⟨p, -, found⟩ := taken.outside embedded
    split at found
    · next none => rw [found, none, UInt64.zero_mul]; rfl
    · exact exact _ _ _ _ (Target.read_ok found).1

end

namespace Inspector
variable {i : Inspector} {word : UInt64} {trace after : Trace} {digit : Layout} {v : BignumView}
  {limbs : List UInt64}

/-- A number of five digits of three bytes, in a buffer. -/
def narrow : Inspector :=
  ⟨patternTarget ([8202, 17, 5, 40, 0, 0x0807060504030201, 0x100f0e0d0c0b0a09].flatMap Bytes.ofWord)
    (Registry.standard.insert (.integer "BDIGIT" 3 false)), .default, defaultLimit⟩

end Inspector
end HeapLens
