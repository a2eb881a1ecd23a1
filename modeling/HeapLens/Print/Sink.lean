/-!
Output that may run full. A bounded sink takes a number of bytes in all; what fits is kept, and a
character of which only a part fits shows as the replacement character.
-/
namespace HeapLens

structure Sink where
  text : String
  /-- Bytes that still fit, when the sink is bounded. -/
  room : Option Nat

namespace Sink

def unbounded : Sink := ⟨"", none⟩

def bounded (room : Nat) : Sink := ⟨"", some room⟩

/-- The part of a text that fits into a number of bytes. -/
def fitting : Nat → List Char → List Char
  | _, [] => []
  | room, c :: cs =>
    if c.utf8Size ≤ room then c :: fitting (room - c.utf8Size) cs
    else if room = 0 then []
    else ['\ufffd']

/-- The sink after a write, and whether all of the text was taken. -/
def write (s : Sink) (text : String) : Bool × Sink :=
  match s.room with
  | none => (true, { s with text := s.text ++ text })
  | some room =>
    if text.utf8ByteSize ≤ room then (true, ⟨s.text ++ text, some (room - text.utf8ByteSize)⟩)
    else (false, ⟨s.text ++ String.ofList (fitting room text.toList), some 0⟩)

end Sink
end HeapLens
