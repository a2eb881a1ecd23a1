import HeapLens.Expr.Eval
import HeapLens.Layout.Standard
import HeapLens.Snapshot.Memory
import HeapLens.Target.Basic

/-!
An image as a target. Symbols are found with or without the dollar sign that an expression writes
before them; one with an address is the object stored there, any other one its literal value.
Expressions read the image itself, without a trace.
-/
namespace HeapLens

/-- An image whose regions have been put in order. -/
structure LoadedSnapshot where
  snapshot : Snapshot
  memory : Memory

namespace Snapshot

def load (s : Snapshot) : Except InspectError LoadedSnapshot := do
  return ⟨s, ← Memory.ofRegions s.regions⟩

end Snapshot

namespace LoadedSnapshot

def read (image : LoadedSnapshot) (address size : UInt64) : Except AccessError Bytes :=
  (image.memory.read address size).mapError .unreadable

def bareName (name : String) : Option String :=
  match name.toList with
  | '$' :: rest => some (String.ofList rest)
  | _ => none

def symbol? (image : LoadedSnapshot) (name : String) : Option SymbolDef :=
  match image.snapshot.symbols.lookup name with
  | some d => some d
  | none => (bareName name).bind fun bare => image.snapshot.symbols.lookup bare

def symbolValue (image : LoadedSnapshot) (types : Registry) (name : String) :
    Except AccessError Value :=
  match image.symbol? name with
  | none => .error (.unknownSymbol name)
  | some d => do
    let l ← types.lookup d.type
    match d.address with
    | some address => Value.fetch image.read l address
    | none => return .scalar l (d.value.getD 0)

def scope (image : LoadedSnapshot) (types : Registry) : Expr.Scope :=
  ⟨types.lookup, image.read, image.symbolValue types⟩

def target (image : LoadedSnapshot) (types : Registry) : Target where
  build := image.snapshot.build
  layout := types.lookup
  constant name := .ok (image.snapshot.constants.lookup name)
  evaluate text := (image.scope types).evalText text
  memory _ := image.memory.read

/-- A target whose memory is replaced by that of the next image after each read, the last image
staying; everything else comes from the first. -/
def moving (first : LoadedSnapshot) (later : List LoadedSnapshot) (types : Registry) : Target :=
  let images := (first :: later).toArray
  { first.target types with
    memory := fun n => ((images[min n later.length]?).getD first).memory.read }

end LoadedSnapshot

/-- Memory that repeats a pattern over the whole address space. -/
def patternRead (pattern : Bytes) (address size : UInt64) : Except Unreadable Bytes :=
  if address.toNat + size.toNat ≤ UInt64.size then
    let bytes := pattern.toArray
    .ok ((List.range size.toNat).map fun i => bytes.getD ((address.toNat + i) % bytes.size) 0)
  else .error ⟨address, size⟩

def patternTarget (pattern : Bytes) (types : Registry) : Target where
  build := ""
  layout := types.lookup
  constant _ := .ok none
  evaluate text :=
    Expr.Scope.evalText
      ⟨types.lookup, fun address size => (patternRead pattern address size).mapError .unreadable,
        fun name => .error (.unknownSymbol name)⟩ text
  memory _ := patternRead pattern

end HeapLens
