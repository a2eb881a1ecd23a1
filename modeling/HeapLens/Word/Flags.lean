/-!
The header bits that every object shares. The remaining bits of a header hold the type tag and
per-type layout, which the decoders read for themselves.
-/
namespace HeapLens

inductive HeaderFlag where
  | writeBarrierProtected
  | finalize
  | shareable
  | genericVariables
  | frozen
  deriving DecidableEq, Repr

namespace HeaderFlag

def all : List HeaderFlag :=
  [.writeBarrierProtected, .finalize, .shareable, .genericVariables, .frozen]

def bit : HeaderFlag → UInt64
  | .writeBarrierProtected => 0x20
  | .finalize => 0x80
  | .shareable => 0x100
  | .genericVariables => 0x400
  | .frozen => 0x800

def label : HeaderFlag → String
  | .writeBarrierProtected => "WB_PROTECTED"
  | .finalize => "FINALIZE"
  | .shareable => "SHAREABLE"
  | .genericVariables => "EXIVAR"
  | .frozen => "FREEZE"

theorem mem_all (f : HeaderFlag) : f ∈ all := by cases f <;> decide

def set (flags : UInt64) : List HeaderFlag := all.filter fun f => flags &&& f.bit != 0

/-- Their labels joined by bars, or nothing when none is set. -/
def describe (flags : UInt64) : Option String :=
  if (set flags).isEmpty then none
  else some ("|".intercalate ((set flags).map label))

end HeaderFlag
end HeapLens
