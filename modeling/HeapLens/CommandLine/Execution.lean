import HeapLens.CommandLine.Invocation
import HeapLens.Shell.Prompt
import HeapLens.Snapshot.Document
import HeapLens.Snapshot.Target

/-!
What an invocation does, as text and an exit status: zero when it ran, one when its target or its
constants could not be used, two when the command line could not be understood. At the prompt a
failed line is reported beside the output and the next one runs.
-/
namespace HeapLens.CommandLine

structure Outcome where
  output : String
  complaints : List String
  status : UInt32
  deriving DecidableEq, Repr

structure Reply where
  output : String
  complaint : Option String
  stop : Bool
  deriving DecidableEq, Repr

/-- The target of an invocation. The text of a file that could not be read is missing; live
processes cannot be attached to. -/
def openTarget (source : Source) (text : Option String) : Except String Target :=
  match source, text with
  | .process id, _ => .error ("failed to attach to process " ++ toString id)
  | .snapshot path, none => .error ("failed to load snapshot " ++ path)
  | .snapshot path, some text =>
    match Snapshot.parse text >>= Snapshot.load with
    | .ok image => .ok (image.target .standard)
    | .error e => .error ("failed to load snapshot " ++ path ++ ": " ++ e.message)

def runCommand {α : Type} (s : Session) (x : Command α) :
    Except InspectError α × Session × String :=
  let (outcome, console) := x ⟨s, Sink.unbounded⟩
  (outcome, console.session, console.out.text)

def answer (s : Session) (line : String) : Session × Reply :=
  match runCommand s (Shell.execute Shell.builtins line) with
  | (.ok flow, s, output) => (s, ⟨output, none, flow == .quit⟩)
  | (.error e, s, output) => (s, ⟨output, some e.message, false⟩)

def transcript (s : Session) : List String → List Reply
  | [] => []
  | line :: lines =>
    let (s, reply) := answer s line
    reply :: if reply.stop then [] else transcript s lines

/-- The lines of an input; the last one need not be ended. -/
def inputLines (input : String) : List String :=
  let lines := input.splitOn "\n"
  if lines.getLast? = some "" then lines.dropLast else lines

def finish (result : Except InspectError Unit × Session × String) (context : String) : Outcome :=
  match result with
  | (.ok (), _, output) => ⟨output, [], 0⟩
  | (.error e, _, output) => ⟨output, [context ++ ": " ++ e.message], 1⟩

/-- An action in a new session, the interactive one over a whole input. -/
def perform (t : Target) (input : String) : Action → Outcome
  | .inspect expressions options =>
    finish (runCommand (Session.start t) (Console.inspect expressions options)) "inspection failed"
  | .constants =>
    finish (runCommand (Session.start t) do
      let _ ← Shell.execute Shell.builtins "rb-constants") "failed to resolve constants"
  | .interactive =>
    let replies := transcript (Session.start t) (inputLines input)
    ⟨banner ++ String.join (replies.map (·.output)), replies.filterMap (·.complaint), 0⟩

/-- A whole run of the program, given the contents of files and of the standard input. -/
def run (words : List String) (file : String → Option String) (input : String) : Outcome :=
  match parse words with
  | .error (.say text) => ⟨text, [], 0⟩
  | .error .refuse => ⟨"", ["bad command line"], 2⟩
  | .ok i =>
    let text := match i.source with
      | .snapshot path => file path
      | .process _ => none
    match openTarget i.source text with
    | .error reason => ⟨"", [reason], 1⟩
    | .ok t => perform t input i.action

end HeapLens.CommandLine
