import HeapLens.Decimal.Shortest

/-!
Doubles as IEEE bits, and their text: the fewest digits that read back, with a point and at least
one digit after it from 1e-4 up to 1e16, and with an exponent outside that range.
-/
namespace HeapLens

structure Double where
  bits : UInt64
  deriving DecidableEq, Repr

namespace Double

def negative (d : Double) : Bool := d.bits >>> 63 == 1

/-- The weight of the leading bit of a normal significand, which is not stored. -/
def leadingBit : Nat := 0x10000000000000

def exponentField (d : Double) : Nat := d.bits.toNat / leadingBit % 2048

def fraction (d : Double) : Nat := d.bits.toNat % leadingBit

def isNaN (d : Double) : Bool := d.exponentField == 2047 && d.fraction != 0

def isInfinite (d : Double) : Bool := d.exponentField == 2047 && d.fraction == 0

def isZero (d : Double) : Bool := d.exponentField == 0 && d.fraction == 0

/-- The significand `m` of the magnitude `m * 2 ^ q`. -/
def significand (d : Double) : Nat :=
  if d.exponentField = 0 then d.fraction else leadingBit + d.fraction

/-- The exponent `q` of the magnitude `m * 2 ^ q`. -/
def scale (d : Double) : Int := if d.exponentField = 0 then -1074 else d.exponentField - 1075

/-- The reals that round to a finite nonzero magnitude, in quarters of the last place. The gap
below a power of two is half as wide as the one above. -/
def span (d : Double) : Decimal.Span :=
  let quarter := d.scale - 2
  let up := 1 <<< quarter.toNat
  let below := if d.fraction = 0 ∧ 1 < d.exponentField then 1 else 2
  { low := (4 * d.significand - below) * up
    mid := 4 * d.significand * up
    high := (4 * d.significand + 2) * up
    den := 1 <<< (-quarter).toNat
    closed := d.significand % 2 == 0 }

/-- Exponents of the leading digit that are written with a plain point. -/
def positional (leading : Int) : Bool := -4 ≤ leading && leading < 16

def withPoint (digits : List Char) (leading : Int) : List Char :=
  if leading < 0 then
    '0' :: '.' :: (List.replicate (-leading - 1).toNat '0' ++ digits)
  else
    let whole := leading.toNat + 1
    let padded := digits ++ List.replicate (whole - digits.length) '0'
    let rest := padded.drop whole
    padded.take whole ++ '.' :: (if rest.isEmpty then ['0'] else rest)

def withExponent (digits : List Char) (leading : Int) : List Char :=
  let point := if digits.length ≤ 1 then [] else '.' :: digits.drop 1
  digits.take 1 ++ point ++ 'e' :: (toString leading).toList

def magnitudeText (d : Double) : List Char :=
  if d.isZero then ['0', '.', '0']
  else
    let shortest := d.span.shortest.normal
    let digits := Nat.toDigits 10 shortest.coefficient
    let leading := shortest.exponent + (digits.length - 1 : Nat)
    if positional leading then withPoint digits leading else withExponent digits leading

def text (d : Double) : String :=
  if d.isNaN then "NaN"
  else if d.isInfinite then (if d.negative then "-Infinity" else "Infinity")
  else String.ofList (if d.negative then '-' :: d.magnitudeText else d.magnitudeText)

/-- The double of the same value as a single-precision number given by its bits; a NaN keeps its
sign and payload and is made quiet. -/
def ofSingle (bits : UInt32) : Double :=
  let n := bits.toNat
  let sign := n / 0x80000000
  let exponent := n / 0x800000 % 256
  let fraction := n % 0x800000
  let assemble (exponent fraction : Nat) : Double :=
    ⟨UInt64.ofNat (sign * 0x8000000000000000 + exponent * leadingBit + fraction)⟩
  if exponent = 255 then
    assemble 2047 (if fraction = 0 then 0 else (fraction <<< 29) ||| 0x8000000000000)
  else if exponent = 0 then
    if fraction = 0 then assemble 0 0
    else
      let top := fraction.log2
      assemble (top + 874) ((fraction - 1 <<< top) <<< (52 - top))
  else assemble (exponent + 896) (fraction <<< 29)

end Double
end HeapLens
