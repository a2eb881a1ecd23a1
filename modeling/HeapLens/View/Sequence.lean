import HeapLens.View.Reading

/-!
Arrays and records: a number of words that lie in the object itself or in a table elsewhere. An
array says which by a flag; a record says so by a count in its header, where zero stands for
elsewhere.
-/
namespace HeapLens

structure Child where
  label : String
  word : UInt64
  deriving DecidableEq, Repr

/-- Decoded elements: the first of them, at most as many as the limit. -/
structure SequenceView where
  object : HeapObject
  length : UInt64
  embedded : Bool
  pointer : Option UInt64
  elements : List UInt64
  deriving DecidableEq, Repr

namespace SequenceView

def summary (v : SequenceView) : String := "length=" ++ toString v.length.toNat

def indexLabel (position : Nat) : String := "[" ++ toString position ++ "]"

def children (v : SequenceView) : List Child :=
  v.elements.zipIdx.map fun e => ⟨indexLabel e.2, e.1⟩

def omitted (v : SequenceView) : Nat := v.length.toNat - v.elements.length

end SequenceView

namespace Inspector

def arrayLength (i : Inspector) (flags : UInt64) : UInt64 :=
  i.constants.field flags .arrayEmbedLengthMask .arrayEmbedLengthShift

/-- The slot that an array needs, if its elements lie in it. -/
def arrayExtent (i : Inspector) (offset flags : UInt64) : UInt64 :=
  if i.flag flags .arrayEmbedFlag then offset + min (i.arrayLength flags) i.limit * wordSize else 0

def decodeArray (i : Inspector) (o : HeapObject) : Probe SequenceView := do
  let offset ← i.target.offsetOf "struct RArray" "as.ary"
  let r ← i.readObject o "struct RArray" (i.arrayExtent offset o.header.flags)
    fun _ header => .ok (i.arrayExtent offset header.flags)
  let flags := r.object.header.flags
  if i.flag flags .arrayEmbedFlag then
    let length := i.arrayLength flags
    return ⟨r.object, length, true, none, ← r.inlineWords offset (min length i.limit)⟩
  else
    let length ← r.fields.signedMember "as.heap.len"
    if length < 0 then Run.fail (.corrupt r.object.address (.negativeLength "array" length))
    else
      let pointer ← r.fields.unsignedMember "as.heap.ptr"
      if pointer = 0 ∧ 0 < length then Run.fail (.corrupt r.object.address .nullElementTable)
      else
        let length := length.toUInt64
        return ⟨r.object, length, false, some pointer,
          ← i.readWords pointer (min length i.limit)⟩

def recordLength (i : Inspector) (flags : UInt64) : UInt64 :=
  i.constants.field flags .recordEmbedLengthMask .recordEmbedLengthShift

def recordExtent (i : Inspector) (offset flags : UInt64) : UInt64 :=
  let length := i.recordLength flags
  if length = 0 then 0 else offset + min length i.limit * wordSize

def decodeRecord (i : Inspector) (o : HeapObject) : Probe SequenceView := do
  let offset ← i.target.offsetOf "struct RStruct" "as.ary"
  let r ← i.readObject o "struct RStruct" (i.recordExtent offset o.header.flags)
    fun _ header => .ok (i.recordExtent offset header.flags)
  let embedded := i.recordLength r.object.header.flags
  if embedded = 0 then
    let length ← r.fields.signedMember "as.heap.len"
    if length < 0 then Run.fail (.corrupt r.object.address (.negativeLength "struct" length))
    else
      let pointer ← r.fields.unsignedMember "as.heap.ptr"
      let length := length.toUInt64
      return ⟨r.object, length, false, some pointer, ← i.readWords pointer (min length i.limit)⟩
  else return ⟨r.object, embedded, true, none, ← r.inlineWords offset (min embedded i.limit)⟩

end Inspector
end HeapLens
