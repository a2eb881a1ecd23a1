import HeapLens.Heap.Classify

/-!
Reading objects. An object and the data that follows it in its slot come from a single read, and
the header is parsed again from that read, so header, fields and inline data agree even while the
target runs. Sizes are computed in target words and wrap around as those do.
-/
namespace HeapLens

/-- What an inspection works with: a target, its constants, and how many children to decode. -/
structure Inspector where
  target : Target
  constants : Constants
  limit : UInt64

/-- Children decoded for each collection unless told otherwise. -/
def defaultLimit : UInt64 := 64

structure ObjectRead where
  fields : Value
  object : HeapObject
  bytes : Bytes

namespace ObjectRead

/-- Inline bytes, counted from the start of the object. -/
def inline (r : ObjectRead) (offset length : UInt64) : Except InspectError Bytes :=
  match r.bytes.slice? offset.toNat length.toNat with
  | some bytes => .ok bytes
  | none => .error (.corrupt r.object.address (.inlineOutside offset length))

def inlineWords (r : ObjectRead) (offset count : UInt64) : Except InspectError (List UInt64) := do
  return (← r.inline offset (count * wordSize)).words

def addressAt (r : ObjectRead) (offset : UInt64) : Except InspectError UInt64 :=
  if r.object.address.toNat + offset.toNat < UInt64.size then .ok (r.object.address + offset)
  else .error (.corrupt r.object.address .pastAddressSpace)

end ObjectRead

namespace Inspector

def classify (i : Inspector) (word : UInt64) : Probe Classification :=
  HeapLens.classify i.target i.constants word

def flag (i : Inspector) (flags : UInt64) (c : Constant) : Bool := i.constants.flag flags c

/-- Reads a slot of a given size: the object if that was enough, else the size that is needed. -/
def readSlot (i : Inspector) (o : HeapObject) (l : Layout)
    (extent : Value → Header → Except InspectError UInt64) (size : UInt64) :
    Probe (ObjectRead ⊕ UInt64) := do
  let bytes ← i.target.read o.address size
  match bytes.slice? 0 l.size.toNat with
  | none => Run.fail (.access (.unreadable ⟨o.address, size⟩))
  | some own =>
    let fields : Value := ⟨l, own, some o.address⟩
    let header ← Header.ofValue fields
    let needed ← extent fields header
    if needed.toNat ≤ bytes.length then return .inl ⟨fields, o.withHeader header, bytes⟩
    else return .inr needed

/-- An object of a named type with its inline data. The hint is the size to begin with, and
`extent` the size that the fields call for; a slot that turns out larger is read once more. -/
def readObject (i : Inspector) (o : HeapObject) (type : String) (hint : UInt64)
    (extent : Value → Header → Except InspectError UInt64) : Probe ObjectRead := do
  let l ← i.target.layout type
  match ← i.readSlot o l extent (max l.size hint) with
  | .inl r => return r
  | .inr needed =>
    match ← i.readSlot o l extent needed with
    | .inl r => return r
    | .inr _ => Run.fail (.corrupt o.address .objectGrew)

def readFields (i : Inspector) (o : HeapObject) (type : String) : Probe ObjectRead :=
  i.readObject o type 0 fun _ _ => .ok 0

def readWords (i : Inspector) (address count : UInt64) : Probe (List UInt64) := do
  if count = 0 then return []
  else if UInt64.size ≤ count.toNat * 8 then
    Run.fail (.access (.unreadable ⟨address, 0xffffffffffffffff⟩))
  else return (← i.target.read address (count * wordSize)).words

end Inspector
end HeapLens
