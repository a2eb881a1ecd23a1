/-!
Doubles packed into a tagged word. A double, as its IEEE bits, is rotated left by three so that
the sign and the top of the exponent land in the low bits, which then give way to the tag `10`;
only exponents near zero survive that, and `0.0` has an encoding of its own.
-/
namespace HeapLens.Flonum

def rotateLeft (w : UInt64) (n : UInt64) : UInt64 := (w <<< n) ||| (w >>> (64 - n))

def rotateRight (w : UInt64) (n : UInt64) : UInt64 := (w >>> n) ||| (w <<< (64 - n))

def zero : UInt64 := 0x8000000000000002

def decode (w : UInt64) : UInt64 :=
  if w = zero then 0
  else rotateRight (((2 : UInt64) - (w >>> 63)) ||| (w &&& ~~~(3 : UInt64))) 3

/-- The three bits below the sign are 3 or 4, which is what the tag can replace. -/
def InRange (bits : UInt64) : Prop :=
  (bits >>> 60) &&& 7 = 3 ∨ (bits >>> 60) &&& 7 = 4

instance (bits : UInt64) : Decidable (InRange bits) := by unfold InRange; infer_instance

def encode (bits : UInt64) : Option UInt64 :=
  if bits ≠ 0x3000000000000000 ∧ InRange bits then some ((rotateLeft bits 3 &&& ~~~(1 : UInt64)) ||| 2)
  else if bits = 0 then some zero
  else none

theorem decode_zero : decode zero = 0 := rfl

theorem encode_zero : encode 0 = some zero := by decide

end HeapLens.Flonum
