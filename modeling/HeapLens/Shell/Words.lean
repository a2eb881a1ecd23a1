import HeapLens.Error
import HeapLens.Text.Blank

/-!
Words of a prompt line. White space separates words outside quotes and brackets. Quotes delimit and
are not kept, and may stand anywhere in a word; round and square brackets are kept, counted
together, and a closing one without an opening one does not count.
-/
namespace HeapLens.Shell
open HeapLens.Text

/-- Progress through a line: the words so far and the one being read, both last first. -/
structure Splitter where
  quote : Option Char
  depth : Nat
  current : List Char
  words : List String
  deriving DecidableEq, Repr

namespace Splitter

def start : Splitter := ⟨none, 0, [], []⟩

/-- Ends the current word, if there is one. -/
def close (s : Splitter) : Splitter :=
  if s.current.isEmpty then s
  else { s with current := [], words := String.ofList s.current.reverse :: s.words }

def keep (s : Splitter) (c : Char) : Splitter := { s with current := c :: s.current }

def step (s : Splitter) (c : Char) : Splitter :=
  match s.quote with
  | some q => if c = q then { s with quote := none } else s.keep c
  | none =>
    if c = '"' ∨ c = '\'' then { s with quote := some c }
    else if c = '(' ∨ c = '[' then { s.keep c with depth := s.depth + 1 }
    else if c = ')' ∨ c = ']' then { s.keep c with depth := s.depth - 1 }
    else if isBlank c ∧ s.depth = 0 then s.close
    else s.keep c

end Splitter

def splitWords (text : List Char) : Except InspectError (List String) :=
  let s := text.foldl Splitter.step Splitter.start
  if s.quote.isSome then .error (.usage .unterminatedQuote) else .ok s.close.words.reverse

end HeapLens.Shell
