/-!
The shortest decimal inside an interval around a positive rational. The interval is that of the
reals which a reader would round to the same double; a grid of n digits is tried for n = 1, 2, …
and on each grid only the two points next to the value, since no other grid point can lie in the
interval unless one of these does. All arithmetic is exact.
-/
namespace HeapLens.Decimal

/-- A positive value `mid / den` with the ends of its interval over the same denominator. -/
structure Span where
  low : Nat
  mid : Nat
  high : Nat
  den : Nat
  closed : Bool
  deriving DecidableEq, Repr

structure Digits where
  coefficient : Nat
  exponent : Int
  deriving DecidableEq, Repr

/-- Ten to the power of an exponent, and one if that is negative. -/
def tenPow (exponent : Int) : Nat := Nat.pow 10 exponent.toNat

def digitCount (n : Nat) : Nat := (Nat.toDigits 10 n).length

namespace Span

/-- The least exponent whose power of ten exceeds the value. -/
def magnitude (s : Span) : Int :=
  if s.den ≤ s.mid then digitCount (s.mid / s.den)
  else 1 - digitCount ((s.den - 1) / s.mid)

/-- Whether `c * 10 ^ exponent` lies in the interval. -/
def contains (s : Span) (c : Nat) (exponent : Int) : Bool :=
  let point := c * tenPow exponent * s.den
  let scale := tenPow (-exponent)
  if s.closed then s.low * scale ≤ point && point ≤ s.high * scale
  else s.low * scale < point && point < s.high * scale

/-- The grid point at or below the value. -/
def below (s : Span) (exponent : Int) : Nat :=
  s.mid * tenPow (-exponent) / (s.den * tenPow exponent)

/-- Whether the value lies at or past the middle between a grid point and the next. -/
def pastMiddle (s : Span) (c : Nat) (exponent : Int) : Bool :=
  (2 * c + 1) * tenPow exponent * s.den ≤ 2 * s.mid * tenPow (-exponent)

/-- The better of the two grid points next to the value, if the interval holds either. -/
def onGrid (s : Span) (exponent : Int) : Option Nat :=
  let c := s.below exponent
  match s.contains c exponent, s.contains (c + 1) exponent with
  | true, true => if s.pastMiddle c exponent then some (c + 1) else some c
  | true, false => some c
  | false, true => some (c + 1)
  | false, false => none

def searchFrom (s : Span) : Nat → Nat → Digits
  | 0, n => ⟨s.below (s.magnitude - n), s.magnitude - n⟩
  | tries + 1, n =>
    let exponent := s.magnitude - n
    match s.onGrid exponent with
    | some c => ⟨c, exponent⟩
    | none => searchFrom s tries (n + 1)

/-- Seventeen digits tell any two doubles apart, so the search ends with a hit. -/
def shortest (s : Span) : Digits := s.searchFrom 17 1

end Span

/-- Trailing zeros moved into the exponent. -/
def Digits.normal (d : Digits) : Digits :=
  if d.coefficient ≠ 0 ∧ d.coefficient % 10 = 0 then
    Digits.normal ⟨d.coefficient / 10, d.exponent + 1⟩
  else d
termination_by d.coefficient
decreasing_by
  show d.coefficient / 10 < d.coefficient
  omega

end HeapLens.Decimal
