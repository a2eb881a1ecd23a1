import HeapLens.Constants.Cache
import HeapLens.Print.Tree

/-!
A session with one target. Expressions are printed one by one, each as a tree of its own; one that
fails gets a line that says why, and the next one still runs. Only a bad option, constants that
cannot be resolved and output that cannot be written end the batch.
-/
namespace HeapLens

structure Session where
  target : Target
  cache : ConstantCache
  trace : Trace

structure Console where
  session : Session
  out : Sink

abbrev Command := Run Console

namespace Session

def start (t : Target) : Session := ⟨t, .empty, #[]⟩

end Session

namespace Console

def write (text : String) : Command Unit := fun c =>
  let (complete, out) := c.out.write text
  (if complete then .ok () else .error .outputFailed, { c with out := out })

def constants : Command Constants := do
  let c ← Run.state
  Run.within (·.session.cache)
    (fun cache c => { c with session := { c.session with cache := cache } })
    (ConstantCache.resolve c.session.target)

def invalidate : Command Unit :=
  Run.update fun c => { c with session := { c.session with cache := .empty } }

/-- Prints from an empty set of visited objects. -/
def printing (x : Print Unit) : Command Unit := fun c =>
  let (outcome, page) := x ⟨c.session.trace, c.out, .empty⟩
  (outcome, { c with session := { c.session with trace := page.trace }, out := page.out })

def inspectOne (k : Constants) (options : Options) (expression : String) : Command Unit := do
  let target := (← Run.state).session.target
  let word ← (← target.evaluate expression).tagged
  printing (Inspector.printWord ⟨target, k, options.limit⟩ options word)

/-- The line for an expression that failed; the failure of the output itself is passed on. -/
def report (expression : String) : InspectError → Command Unit
  | .outputFailed => Run.fail .outputFailed
  | .access e =>
    write ("Error evaluating expression '" ++ expression ++ "': " ++ e.message ++ "\n")
  | e => write ("Error processing '" ++ expression ++ "': " ++ e.message ++ "\n")

def inspect (expressions : List String) (options : Options) : Command Unit := do
  options.validate
  let k ← constants
  Run.each (fun expression => do
    match ← (inspectOne k options expression).attempt with
    | .ok () => return ()
    | .error e => report expression e) expressions

end Console
end HeapLens
