import HeapLens.Run
import HeapLens.Target.Value

/-!
Targets of inspection. A target names types and constants, evaluates expressions and answers
reads. Read number n, counted from zero, may be answered differently from read number n + 1 of
the same range, for memory may change under inspection; the trace of a probe lists every
read that was asked for, failed ones too, and its length is the number of the next read.
-/
namespace HeapLens

structure ReadRequest where
  address : UInt64
  size : UInt64
  deriving DecidableEq, Repr

abbrev Trace := Array ReadRequest

structure Target where
  /-- Identity of the program that is inspected; constants are kept while it stays the same. -/
  build : String
  layout : String → Except AccessError Layout
  constant : String → Except AccessError (Option Int64)
  evaluate : String → Except AccessError Value
  memory : Nat → UInt64 → UInt64 → Except Unreadable Bytes

abbrev Probe := Run Trace

namespace Target

/-- One read, and whether it failed. -/
def tryRead (t : Target) (address size : UInt64) : Probe (Except Unreadable Bytes) := fun trace =>
  (.ok (t.memory trace.size address size), trace.push ⟨address, size⟩)

def read (t : Target) (address size : UInt64) : Probe Bytes := do
  match ← t.tryRead address size with
  | .ok bytes => return bytes
  | .error range => Run.fail (.access (.unreadable range))

/-- A read whose answer is the same every time. -/
def Stable (t : Target) : Prop := ∀ n, t.memory n = t.memory 0

/-- Successful reads have the size that was asked for. -/
def Exact (t : Target) : Prop :=
  ∀ n address size bytes, t.memory n address size = .ok bytes → bytes.length = size.toNat

def offsetOf (t : Target) (type field : String) : Except AccessError UInt64 := do
  let l ← t.layout type
  match l.member? field with
  | some (offset, _) => return offset
  | none => .error (.unknownMember l.name field)

end Target
end HeapLens
