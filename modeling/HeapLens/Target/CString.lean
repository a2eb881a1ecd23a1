import HeapLens.Target.Basic

/-!
Strings that end at a zero byte. The text is read in pieces; where a piece cannot be read, half of
it is tried, and so on down to a single byte, so that the text runs up to the last readable one.
-/
namespace HeapLens.Target

def pieceSize : Nat := 64

/-- A read of `want` bytes, or of half as many after each failure. -/
def readShrinking (t : Target) (address : UInt64) (want : Nat) :
    Probe (Except Unreadable Bytes) := do
  match ← t.tryRead address (UInt64.ofNat want) with
  | .ok bytes => return .ok bytes
  | .error range =>
    if want ≤ 1 then return .error range else t.readShrinking address (want / 2)
termination_by want

/-- The text that continues `found`, up to a zero byte, the limit, the end of the address space or
the first byte that cannot be read. Only a first byte that cannot be read is an error. -/
def cstringFrom (t : Target) (address : UInt64) (limit : Nat) (found : Bytes) : Probe Bytes := do
  if found.length < limit ∧ address.toNat + found.length < UInt64.size then
    let start := address + UInt64.ofNat found.length
    match ← t.readShrinking start (min pieceSize (limit - found.length)) with
    | .error range =>
      if found.isEmpty then Run.fail (.access (.unreadable range)) else return found.take limit
    | .ok piece =>
      let text := piece.takeWhile (· != 0)
      if text.length < piece.length then return found ++ text
      else if piece.isEmpty then return found.take limit
      else t.cstringFrom address limit (found ++ piece)
  else return found.take limit
termination_by limit - found.length
decreasing_by
  have := List.length_pos_iff.mpr (mt List.isEmpty_iff.mpr ‹¬ piece.isEmpty = true›)
  simp only [List.length_append]
  omega

def cstring (t : Target) (address limit : UInt64) : Probe Bytes :=
  t.cstringFrom address limit.toNat []

end HeapLens.Target
