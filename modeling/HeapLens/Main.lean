import HeapLens.CommandLine.Execution

/-!
The program: reads the files and lines that an invocation asks for, and prints what it answers.
-/
namespace HeapLens.CommandLine

def readFileText (path : String) : IO (Option String) := do
  try return some (← IO.FS.readFile path) catch _ => return none

partial def promptLoop (input output errors : IO.FS.Stream) (s : Session) : IO Unit := do
  let line ← input.getLine
  if line.isEmpty then return ()
  let (s, reply) := answer s line
  output.putStr reply.output
  output.flush
  if let some complaint := reply.complaint then errors.putStrLn ("Error: " ++ complaint)
  if reply.stop then return () else promptLoop input output errors s

def program (args : List String) : IO UInt32 := do
  let output ← IO.getStdout
  let errors ← IO.getStderr
  let text ← match parse args with
    | .ok ⟨.snapshot path, _⟩ => readFileText path
    | _ => pure none
  match parse args with
  | .ok ⟨source, .interactive⟩ =>
    match openTarget source text with
    | .error reason =>
      errors.putStrLn ("Error: " ++ reason)
      return 1
    | .ok t =>
      output.putStr banner
      promptLoop (← IO.getStdin) output errors (Session.start t)
      return 0
  | _ =>
    let outcome := run args (fun _ => text) ""
    output.putStr outcome.output
    for complaint in outcome.complaints do errors.putStrLn ("Error: " ++ complaint)
    return outcome.status

end HeapLens.CommandLine

def main (args : List String) : IO UInt32 := HeapLens.CommandLine.program args
