import HeapLens.Decimal.Magnitude
import HeapLens.View.Reading

/-!
Boxed numbers: doubles that do not fit a word, and integers of any size. An integer is a sign and
a row of digits in the object or in a buffer elsewhere; a row longer than the limit is not read.
-/
namespace HeapLens

structure FloatView where
  object : HeapObject
  value : Double
  deriving DecidableEq, Repr

structure BignumView where
  object : HeapObject
  negative : Bool
  embedded : Bool
  length : UInt64
  limbs : Option (List UInt64)
  deriving DecidableEq, Repr

def BignumView.summary (v : BignumView) : String :=
  (if v.negative then "-" else "") ++
    match v.limbs with
    | some limbs => Magnitude.decimal limbs
    | none => "(" ++ toString v.length.toNat ++ " digits not read)"

namespace Inspector

def decodeFloat (i : Inspector) (o : HeapObject) : Probe FloatView := do
  let r ← i.readFields o "struct RFloat"
  return ⟨r.object, (← r.fields.member "float_value").double⟩

def bignumLength (i : Inspector) (flags : UInt64) : UInt64 :=
  i.constants.field flags .bignumEmbedLengthMask .bignumEmbedLengthShift

/-- The slot that an integer needs, if its digits lie in it and are to be read. -/
def bignumExtent (i : Inspector) (offset digitSize flags : UInt64) : UInt64 :=
  let length := i.bignumLength flags
  if i.flag flags .bignumEmbedFlag && length ≤ i.limit then offset + length * digitSize else 0

def decodeBignum (i : Inspector) (o : HeapObject) : Probe BignumView := do
  let offset ← i.target.offsetOf "struct RBignum" "as.ary"
  let digitSize := (← i.target.layout "BDIGIT").size
  let r ← i.readObject o "struct RBignum" (i.bignumExtent offset digitSize o.header.flags)
    fun _ header => .ok (i.bignumExtent offset digitSize header.flags)
  let flags := r.object.header.flags
  let negative := !i.flag flags .bignumSign
  if i.flag flags .bignumEmbedFlag then
    let length := i.bignumLength flags
    if length ≤ i.limit then
      let bytes ← r.inline offset (length * digitSize)
      return ⟨r.object, negative, true, length, some bytes.limbs⟩
    else return ⟨r.object, negative, true, length, none⟩
  else
    let length ← r.fields.unsignedMember "as.heap.len"
    let digits ← r.fields.unsignedMember "as.heap.digits"
    if digits = 0 ∧ 0 < length then Run.fail (.corrupt r.object.address .nullDigitBuffer)
    else if length = 0 then return ⟨r.object, negative, false, length, some []⟩
    else if length ≤ i.limit then
      let bytes ← i.target.read digits (length * digitSize)
      return ⟨r.object, negative, false, length, some bytes.limbs⟩
    else return ⟨r.object, negative, false, length, none⟩

end Inspector
end HeapLens
