import HeapLens.Heap.Immediate

/-!
What a tagged word is. A word that encodes no value by itself is the address of an object if its
tag bits are clear; classifying such a word reads the header of the object and nothing else.
-/
namespace HeapLens

structure Header where
  address : UInt64
  flags : UInt64
  klass : UInt64
  deriving DecidableEq, Repr

/-- The header of a value whose type begins with one. -/
def Header.ofValue (v : Value) : Except AccessError Header := do
  return ⟨← v.requireAddress, ← v.unsignedMember "basic.flags", ← v.unsignedMember "basic.klass"⟩

def Header.tag (h : Header) (k : Constants) : UInt64 := h.flags &&& k.get .typeMask

/-- A reference to an object, with the tag that it was classified by. -/
structure HeapObject where
  word : UInt64
  header : Header
  tag : UInt64
  type : Option ValueType
  deriving DecidableEq, Repr

namespace HeapObject

def address (o : HeapObject) : UInt64 := o.header.address

def typeLabel (o : HeapObject) : String := tagLabel o.type o.tag

def withHeader (o : HeapObject) (h : Header) : HeapObject := { o with header := h }

end HeapObject

inductive Classification where
  | immediate (word : UInt64) (value : Immediate)
  | heap (object : HeapObject)
  deriving DecidableEq, Repr

/-- The object at an address, classified by the header stored there now. -/
def classifyObject (t : Target) (k : Constants) (word : UInt64) : Probe HeapObject := do
  let v := Value.scalar (← t.layout "VALUE") word
  let pointer ← v.cast t.read (← t.layout "struct RBasic *")
  let basic ← pointer.deref t.read
  let header ← Header.ofValue basic
  return ⟨word, header, header.tag k, k.typeOf (header.tag k)⟩

def classify (t : Target) (k : Constants) (word : UInt64) : Probe Classification :=
  match Immediate.ofWord? k word with
  | some value => return .immediate word value
  | none =>
    if word &&& k.get .immediateMask ≠ 0 then Run.fail (.unclassifiable word)
    else return .heap (← classifyObject t k word)

end HeapLens
