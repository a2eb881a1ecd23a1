/-!
Unsigned numerals in a base up to sixteen. A 64-bit word is read from one or more digits, after
at most one plus sign, and only when the number fits; it is written in lower case without
leading zeros.
-/
namespace HeapLens.Text

def hexDigits (n : Nat) : String := String.ofList (Nat.toDigits 16 n)

/-- The spelling of words and addresses everywhere in the output: `0x` and digits. -/
def hex (w : UInt64) : String := "0x" ++ hexDigits w.toNat

/-- Upper-case digits, at least two of them. -/
def hexUpper (n : Nat) : List Char :=
  let ds := (Nat.toDigits 16 n).map Char.toUpper
  List.replicate (2 - ds.length) '0' ++ ds

def digitValue (c : Char) : Option Nat :=
  if '0' ≤ c ∧ c ≤ '9' then some (c.toNat - 48)
  else if 'a' ≤ c ∧ c ≤ 'f' then some (c.toNat - 87)
  else if 'A' ≤ c ∧ c ≤ 'F' then some (c.toNat - 55)
  else none

def readDigits (base : Nat) : Nat → List Char → Option Nat
  | value, [] => some value
  | value, c :: cs =>
    match digitValue c with
    | some d => if d < base then readDigits base (value * base + d) cs else none
    | none => none

def readNat (base : Nat) (cs : List Char) : Option Nat :=
  if cs.isEmpty then none else readDigits base 0 cs

def dropPlus : List Char → List Char
  | '+' :: cs => cs
  | cs => cs

def readWord (base : Nat) (cs : List Char) : Option UInt64 :=
  match readNat base (dropPlus cs) with
  | some n => if n < UInt64.size then some (UInt64.ofNat n) else none
  | none => none

/-- Hexadecimal after `0x` or `0X`, decimal otherwise. -/
def readLiteral : List Char → Option UInt64
  | '0' :: 'x' :: cs => readWord 16 cs
  | '0' :: 'X' :: cs => readWord 16 cs
  | cs => readWord 10 cs

theorem readWord_lt {base : Nat} {cs : List Char} {w : UInt64} (h : readWord base cs = some w) :
    ∃ n, readNat base (dropPlus cs) = some n ∧ n = w.toNat := by
  unfold readWord at h
  split at h
  · next n hn =>
    split at h
    · next hlt =>
      cases h
      exact ⟨n, hn, (UInt64.toNat_ofNat_of_lt' hlt).symm⟩
    · cases h
  · cases h

end HeapLens.Text
