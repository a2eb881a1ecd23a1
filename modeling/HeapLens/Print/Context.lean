import HeapLens.View.Basic

/-!
Options of an inspection, and the addresses that one printed value has already shown in full. The
set of addresses only grows, and each value that is printed starts from an empty one.
-/
namespace HeapLens

structure Options where
  depth : Nat
  debug : Bool
  limit : UInt64
  deriving DecidableEq, Repr

namespace Options

def default : Options := ⟨1, false, defaultLimit⟩

def validate (o : Options) : Except InspectError Unit :=
  if o.depth < 1 then .error (.invalidDepth o.depth) else .ok ()

end Options

/-- Addresses shown in full, without repetition. -/
structure Visited where
  addresses : List UInt64
  deriving DecidableEq, Repr

namespace Visited

def empty : Visited := ⟨[]⟩

def contains (v : Visited) (address : UInt64) : Bool := v.addresses.contains address

def insert (v : Visited) (address : UInt64) : Visited :=
  if v.contains address then v else ⟨address :: v.addresses⟩

def size (v : Visited) : Nat := v.addresses.length

end Visited
end HeapLens
