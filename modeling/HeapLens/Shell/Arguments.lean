import HeapLens.Ordered
import HeapLens.Shell.Usage
import HeapLens.Shell.Words
import HeapLens.Text.Numeral

/-!
Arguments of a command. A word that begins with two dashes is an option with a number, given in the
same word after an equals sign or as the next word, or a flag; any other word is an expression.
-/
namespace HeapLens.Shell
open HeapLens.Text

structure Arguments where
  expressions : List String
  options : List (String × UInt64)
  flags : List String
  deriving DecidableEq, Repr

namespace Arguments

/-- The value of an option: the last one given, its default, or zero if it is not declared. -/
def option (a : Arguments) (name : String) : UInt64 := (a.options.lookup name).getD 0

def hasFlag (a : Arguments) (name : String) : Bool := a.flags.contains name

def defaults (u : Usage) : Arguments :=
  ⟨[], Ordered.ofPairs (u.options.map fun o => (o.name, o.default)), []⟩

def addExpression (a : Arguments) (word : String) : Arguments :=
  { a with expressions := a.expressions ++ [word] }

def addFlag (a : Arguments) (name : String) : Arguments := { a with flags := a.flags ++ [name] }

def setOption (a : Arguments) (name value : String) : Except InspectError Arguments :=
  match readWord 10 value.toList with
  | some n => .ok { a with options := Ordered.put a.options name n }
  | none => .error (.usage (.invalidValue value name))

def dashed (word : String) : Option (List Char) :=
  match word.toList with
  | '-' :: '-' :: rest => some rest
  | _ => none

/-- A name, and what follows the first equals sign if there is one. -/
def splitValue (cs : List Char) : String × Option String :=
  match cs.dropWhile (· != '=') with
  | _ :: value => (String.ofList (cs.takeWhile (· != '=')), some (String.ofList value))
  | [] => (String.ofList cs, none)

def collect (u : Usage) (a : Arguments) : List String → Except InspectError Arguments
  | [] => .ok a
  | word :: rest =>
    match dashed word with
    | none => collect u (a.addExpression word) rest
    | some body =>
      let (name, value) := splitValue body
      if u.options.any (·.name == name) then
        match value with
        | some value => do collect u (← a.setOption name value) rest
        | none =>
          match rest with
          | value :: rest => do collect u (← a.setOption name value) rest
          | [] => .error (.usage (.missingValue name))
      else if u.flags.any (·.1 == name) && value.isNone then collect u (a.addFlag name) rest
      else .error (.usage (.unknownOption name))

def parse (text : String) (u : Usage) : Except InspectError Arguments := do
  collect u (defaults u) (← splitWords text.toList)

end Arguments
end HeapLens.Shell
