import HeapLens.Session
import HeapLens.Shell.Arguments

/-!
The prompt: commands by name, in the order of registration, and the lines that run them. Besides
the registered commands a line may ask for help or leave.
-/
namespace HeapLens.Shell
open HeapLens.Text

structure Entry where
  usage : Usage
  run : Arguments → Command Unit

abbrev Registry := List (String × Entry)

inductive Flow where
  | next
  | quit
  deriving DecidableEq, Repr

def inspectUsage : Usage where
  summary := "Print Ruby objects with recursive inspection"
  parameters := [("value", "VALUE or expression to print")]
  options :=
    [⟨"depth", 1, "Maximum recursion depth for nested objects"⟩,
     ⟨"limit", defaultLimit, "Maximum elements printed per collection"⟩]
  flags := [("debug", "Show internal structure and debug information")]
  examples :=
    [("rb-inspect $errinfo", "Print exception object"),
     ("rb-inspect $ec->storage --depth 3", "Print fiber storage with depth 3"),
     ("rb-inspect $ec->cfp->sp[-1] --debug", "Print top of stack with debug info")]

def inspectEntry : Entry where
  usage := inspectUsage
  run a :=
    if a.expressions.isEmpty then Run.fail (.usage (.missingExpression "rb-inspect"))
    else
      Console.inspect a.expressions
        ⟨(a.option "depth").toNat, a.hasFlag "debug", a.option "limit"⟩

def constantsUsage : Usage where
  summary := "Show the runtime constants used to decode values"
  parameters := []
  options := []
  flags := [("refresh", "Resolve the constants again before printing")]
  examples := [("rb-constants", "List tags, encodings and layout flags")]

/-- The entries of a table, their names filled up to the longest. -/
def constantLines (entries : List (String × UInt64)) : List String :=
  let width := (entries.map (·.1.length)).foldl max 0
  entries.map fun e => padRight width e.1 ++ " = " ++ hex e.2 ++ "\n"

def constantsEntry : Entry where
  usage := constantsUsage
  run a := do
    if a.expressions.isEmpty then
      if a.hasFlag "refresh" then Console.invalidate
      let k ← Console.constants
      Run.each Console.write (constantLines k.entries)
    else Run.fail (.usage (.unexpectedExpression "rb-constants"))

def builtins : Registry := [("rb-inspect", inspectEntry), ("rb-constants", constantsEntry)]

/-- The registry with one more command, or with another one under a name it has. -/
def register (r : Registry) (name : String) (e : Entry) : Registry := Ordered.put r name e

def overview (r : Registry) : List String :=
  "Commands:\n" :: r.map (fun e => "  " ++ padRight 16 e.1 ++ e.2.usage.summary ++ "\n") ++
    ["  " ++ padRight 16 "help [command]" ++ "Show help\n",
     "  " ++ padRight 16 "quit" ++ "Leave the prompt\n"]

/-- The first word of a line and the rest, both without white space around them. -/
def splitLine (line : String) : String × String :=
  let cs := trim line.toList
  (String.ofList (cs.takeWhile (!isBlank ·)), String.ofList (trim (cs.dropWhile (!isBlank ·))))

def execute (r : Registry) (line : String) : Command Flow := do
  let (name, rest) := splitLine line
  if name = "" then return .next
  else if name = "quit" ∨ name = "exit" then return .quit
  else if name = "help" then
    if rest = "" then
      Run.each Console.write (overview r)
      return .next
    else
      match r.lookup rest with
      | some e =>
        Console.write (e.usage.help rest)
        return .next
      | none => Run.fail (.usage (.unknownCommand rest))
  else
    match r.lookup name with
    | some e =>
      let a ← Arguments.parse rest e.usage
      e.run a
      return .next
    | none => Run.fail (.usage (.unknownCommand name))

end HeapLens.Shell
