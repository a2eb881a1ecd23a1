import HeapLens.Expr.Parser
import HeapLens.Target.Value

/-!
The value of an expression. A dotted member is tried as one flattened name first, as long as
possible, and is taken apart only where no member of the joined name exists: the members of
nested records are kept under dotted names.
-/
namespace HeapLens.Expr

structure Scope where
  layout : String → Except AccessError Layout
  read : UInt64 → UInt64 → Except AccessError Bytes
  symbol : String → Except AccessError Value

namespace Scope

/-- A member of a value: an arrow always follows a pointer, a dot follows one if there is one. -/
def select (s : Scope) (v : Value) (field : String) (arrow : Bool) : Except AccessError Value :=
  if arrow then do (← v.deref s.read).member field else v.field s.read field

/-- A member selection that waits for its base. -/
abbrev Pending := Option (String × Bool)

def finish (s : Scope) (v : Value) : Pending → Except AccessError Value
  | none => .ok v
  | some (field, arrow) => s.select v field arrow

/-- The value of an expression with a pending member selected from it. -/
def evalThen (s : Scope) : Expr → Pending → Except AccessError Value
  | .number n, pending => do s.finish (.scalar (← s.layout "VALUE") n) pending
  | .symbol name, pending => do s.finish (← s.symbol name) pending
  | .deref operand, pending => do
    s.finish (← (← s.evalThen operand none).deref s.read) pending
  | .cast type operand, pending => do
    let v ← s.evalThen operand none
    s.finish (← v.cast s.read (← s.layout type)) pending
  | .index base position, pending => do
    s.finish (← (← s.evalThen base none).element s.read position) pending
  | .member base field arrow, none => s.evalThen base (some (field, arrow))
  | .member base outer outerArrow, some (field, true) => do
    s.select (← s.evalThen base (some (outer, outerArrow))) field true
  | .member base outer outerArrow, some (field, false) =>
    match s.evalThen base (some (outer ++ "." ++ field, outerArrow)) with
    | .error (.unknownMember _ _) => do
      s.select (← s.evalThen base (some (outer, outerArrow))) field false
    | outcome => outcome

def eval (s : Scope) (e : Expr) : Except AccessError Value := s.evalThen e none

/-- The value of a text; a text that is no expression is an error that quotes it. -/
def evalText (s : Scope) (text : String) : Except AccessError Value :=
  match parse text with
  | .ok e => s.eval e
  | .error fault => .error (.malformed text fault)

end Scope
end HeapLens.Expr
