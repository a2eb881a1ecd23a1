import HeapLens.Constants.Table

/-!
Constants kept for a session. They are resolved on first use and again whenever the target reports
another build; a table that could not be resolved leaves nothing behind.
-/
namespace HeapLens

/-- The build whose constants are kept, and the constants. -/
structure ConstantCache where
  kept : Option (String × Constants)

namespace ConstantCache

def empty : ConstantCache := ⟨none⟩

def isResolved (cache : ConstantCache) : Bool := cache.kept.isSome

def find? (cache : ConstantCache) (build : String) : Option Constants :=
  cache.kept.bind fun kept => if kept.1 = build then some kept.2 else none

def resolve (t : Target) : Run ConstantCache Constants := fun cache =>
  match cache.find? t.build with
  | some k => (.ok k, cache)
  | none =>
    match Constants.resolve t with
    | .ok k => (.ok k, ⟨some (t.build, k)⟩)
    | .error e => (.error e, empty)

def invalidate : Run ConstantCache Unit := Run.update fun _ => empty

end ConstantCache
end HeapLens
