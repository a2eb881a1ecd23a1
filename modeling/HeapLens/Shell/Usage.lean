/-!
What a command accepts, and the help text made of it. Names stand in a column of sixteen
characters; a longer name pushes its description to the right.
-/
namespace HeapLens.Shell

structure NumericOption where
  name : String
  default : UInt64
  description : String
  deriving DecidableEq, Repr

structure Usage where
  summary : String
  parameters : List (String × String)
  options : List NumericOption
  flags : List (String × String)
  examples : List (String × String)
  deriving DecidableEq, Repr

def padRight (width : Nat) (s : String) : String :=
  s ++ String.ofList (List.replicate (width - s.length) ' ')

namespace Usage

/-- A heading and its lines, after an empty line, unless there are none. -/
def headed (heading : String) (lines : List String) : String :=
  if lines.isEmpty then "" else "\n" ++ heading ++ ":\n" ++ String.join lines

def parameterLine (p : String × String) : String := "  " ++ padRight 16 p.1 ++ p.2 ++ "\n"

def optionLine (o : NumericOption) : String :=
  "  --" ++ padRight 14 o.name ++ o.description ++ " (default: " ++ toString o.default.toNat ++ ")\n"

def flagLine (f : String × String) : String := "  --" ++ padRight 14 f.1 ++ f.2 ++ "\n"

def exampleLines (e : String × String) : String := "  " ++ e.1 ++ "\n      " ++ e.2 ++ "\n"

def synopsis (u : Usage) (name : String) : String :=
  "\nUsage: " ++ name ++ String.join (u.parameters.map fun p => " <" ++ p.1 ++ ">") ++
    String.join (u.options.map fun o => " [--" ++ o.name ++ " N]") ++
    String.join (u.flags.map fun f => " [--" ++ f.1 ++ "]") ++ "\n"

def help (u : Usage) (name : String) : String :=
  u.summary ++ "\n" ++ u.synopsis name ++
    headed "Parameters" (u.parameters.map parameterLine) ++
    headed "Options" (u.options.map optionLine ++ u.flags.map flagLine) ++
    headed "Examples" (u.examples.map exampleLines)

end Usage
end HeapLens.Shell
