/-!
Strict UTF-8. `decode` accepts exactly the well-formed byte strings: no overlong forms, no
surrogates, nothing past U+10FFFF, no stray or missing continuation bytes.
-/
namespace HeapLens.Text.Utf8

/-- The six payload bits of a continuation byte. -/
def continuation (b : UInt8) : Option Nat :=
  if 0x80 ≤ b && b ≤ 0xbf then some (b.toNat % 64) else none

def twoBytes (a b : UInt8) : Option Char := do
  let x ← continuation b
  let n := (a.toNat % 32) * 64 + x
  if 0xc2 ≤ a && a ≤ 0xdf then some (Char.ofNat n) else none

def threeBytes (a b c : UInt8) : Option Char := do
  let x ← continuation b
  let y ← continuation c
  let n := ((a.toNat % 16) * 64 + x) * 64 + y
  if 0xe0 ≤ a && a ≤ 0xef && 0x800 ≤ n && (n < 0xd800 || 0xdfff < n) then some (Char.ofNat n)
  else none

def fourBytes (a b c d : UInt8) : Option Char := do
  let x ← continuation b
  let y ← continuation c
  let z ← continuation d
  let n := (((a.toNat % 8) * 64 + x) * 64 + y) * 64 + z
  if 0xf0 ≤ a && a ≤ 0xf4 && 0x10000 ≤ n && n ≤ 0x10ffff then some (Char.ofNat n) else none

def decode : List UInt8 → Option (List Char)
  | [] => some []
  | a :: rest =>
    if a < 0x80 then (decode rest).map (Char.ofNat a.toNat :: ·)
    else if a < 0xe0 then
      match rest with
      | b :: rest => do
        let ch ← twoBytes a b
        let cs ← decode rest
        some (ch :: cs)
      | _ => none
    else if a < 0xf0 then
      match rest with
      | b :: c :: rest => do
        let ch ← threeBytes a b c
        let cs ← decode rest
        some (ch :: cs)
      | _ => none
    else
      match rest with
      | b :: c :: d :: rest => do
        let ch ← fourBytes a b c d
        let cs ← decode rest
        some (ch :: cs)
      | _ => none

def encode (s : String) : List UInt8 := s.toUTF8.data.toList

end HeapLens.Text.Utf8
