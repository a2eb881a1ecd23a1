import HeapLens.Ordered
import HeapLens.Text.Utf8
import HeapLens.Word.Bytes

/-!
Images of a target: the memory that matters for an inspection, with the symbols and constants that
a debugger would have supplied. A region holds its words, then its bytes, then its text.
-/
namespace HeapLens

/-- A named value: the object stored at an address, or a literal word. -/
structure SymbolDef where
  value : Option UInt64
  address : Option UInt64
  type : String
  deriving DecidableEq, Repr

structure Region where
  address : UInt64
  words : List UInt64
  bytes : Bytes
  text : String
  deriving DecidableEq, Repr

def Region.data (r : Region) : Bytes :=
  r.words.flatMap Bytes.ofWord ++ r.bytes ++ Text.Utf8.encode r.text

structure Snapshot where
  build : String
  constants : List (String × Int64)
  symbols : List (String × SymbolDef)
  regions : List Region
  deriving DecidableEq, Repr

namespace Snapshot

def defaultType : String := "VALUE"

def empty : Snapshot := ⟨"", [], [], []⟩

def withBuild (s : Snapshot) (build : String) : Snapshot := { s with build := build }

def withConstant (s : Snapshot) (name : String) (value : Int64) : Snapshot :=
  { s with constants := Ordered.put s.constants name value }

def withSymbol (s : Snapshot) (name : String) (definition : SymbolDef) : Snapshot :=
  { s with symbols := Ordered.put s.symbols name definition }

def withRegion (s : Snapshot) (r : Region) : Snapshot := { s with regions := s.regions ++ [r] }

def withLiteral (s : Snapshot) (name : String) (value : UInt64) (type : String) : Snapshot :=
  s.withSymbol name ⟨some value, none, type⟩

def withVariable (s : Snapshot) (name : String) (address : UInt64) (type : String) : Snapshot :=
  s.withSymbol name ⟨none, some address, type⟩

def withWords (s : Snapshot) (address : UInt64) (words : List UInt64) : Snapshot :=
  s.withRegion ⟨address, words, [], ""⟩

def withBytes (s : Snapshot) (address : UInt64) (bytes : Bytes) : Snapshot :=
  s.withRegion ⟨address, [], bytes, ""⟩

def withText (s : Snapshot) (address : UInt64) (text : String) : Snapshot :=
  s.withRegion ⟨address, [], [], text⟩

end Snapshot
end HeapLens
