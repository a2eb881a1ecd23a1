import HeapLens.Text.Escape
import HeapLens.View.Reading

/-!
Strings and dynamic symbols. The bytes of a string follow its fields in the slot or lie in a
buffer elsewhere; only the first of them are read. A dynamic symbol points to its name, and one
whose name cannot be read is still a symbol, shown by its number.
-/
namespace HeapLens
open HeapLens.Text

/-- The largest part of a string that is read. -/
def previewBytes : UInt64 := 256

structure StringView where
  object : HeapObject
  length : UInt64
  embedded : Bool
  pointer : Option UInt64
  bytes : Bytes
  deriving DecidableEq, Repr

namespace StringView

def isTruncated (v : StringView) : Bool := v.bytes.length < v.length.toNat

def summary (v : StringView) : String :=
  "\"" ++ escaped v.bytes ++ "\"" ++
    (if v.isTruncated then "... (" ++ toString v.length.toNat ++ " bytes)" else "")

end StringView

structure SymbolView where
  object : HeapObject
  id : UInt64
  nameWord : UInt64
  name : Option Bytes
  deriving DecidableEq, Repr

def SymbolView.summary (v : SymbolView) : String :=
  match v.name with
  | some name => ":" ++ escaped name
  | none => "id=" ++ hex v.id

namespace Inspector

def stringEmbedded (i : Inspector) (flags : UInt64) : Bool := !i.flag flags .stringNoEmbed

/-- The slot that a string needs, if its bytes lie in it. A negative length counts as none. -/
def stringExtent (i : Inspector) (offset : UInt64) (fields : Value) (header : Header) :
    Except InspectError UInt64 := do
  if i.stringEmbedded header.flags then
    let length ← fields.signedMember "len"
    return offset + min (if length < 0 then 0 else length.toUInt64) previewBytes
  else return 0

def decodeString (i : Inspector) (o : HeapObject) : Probe StringView := do
  let offset ← i.target.offsetOf "struct RString" "as.embed.ary"
  let r ← i.readObject o "struct RString" 0 (i.stringExtent offset)
  let signed ← r.fields.signedMember "len"
  if signed < 0 then Run.fail (.corrupt r.object.address (.negativeLength "string" signed))
  else
    let length := signed.toUInt64
    let preview := min length previewBytes
    if i.stringEmbedded r.object.header.flags then
      return ⟨r.object, length, true, none, ← r.inline offset preview⟩
    else
      let pointer ← r.fields.unsignedMember "as.heap.ptr"
      if pointer = 0 ∧ 0 < length then Run.fail (.corrupt r.object.address .nullBuffer)
      else if preview = 0 then return ⟨r.object, length, false, some pointer, []⟩
      else return ⟨r.object, length, false, some pointer, ← i.target.read pointer preview⟩

/-- The bytes of the string that a word refers to, if it refers to one. -/
def stringBytes (i : Inspector) (word : UInt64) : Probe (Option Bytes) := do
  match ← i.classify word with
  | .heap o => if o.type = some .string then return some (← i.decodeString o).bytes else return none
  | .immediate _ _ => return none

def decodeSymbol (i : Inspector) (o : HeapObject) : Probe SymbolView := do
  let r ← i.readFields o "struct RSymbol"
  let id ← r.fields.unsignedMember "id"
  let nameWord ← r.fields.unsignedMember "fstr"
  match ← (i.stringBytes nameWord).attempt with
  | .ok name => return ⟨r.object, id, nameWord, name⟩
  | .error _ => return ⟨r.object, id, nameWord, none⟩

end Inspector
end HeapLens
