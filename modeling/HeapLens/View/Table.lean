import HeapLens.View.Reading
import HeapLens.View.Sequence

/-!
Hashes. The table follows the object in its slot: a small one is a row of pairs, whose counts stand
in the header; a large one describes a row of entries elsewhere, which is read in batches. In both
a slot with the undefined word as its key is deleted and does not count.
-/
namespace HeapLens

inductive TableKind where
  | pairs
  | entries
  deriving DecidableEq, Repr

def TableKind.label : TableKind → String
  | .pairs => "ar_table"
  | .entries => "st_table"

structure TableView where
  object : HeapObject
  size : UInt64
  kind : TableKind
  address : UInt64
  default : UInt64
  pairs : List (UInt64 × UInt64)
  deriving DecidableEq, Repr

namespace TableView

def summary (v : TableView) : String := "size=" ++ toString v.size.toNat

def children (v : TableView) : List Child :=
  v.pairs.zipIdx.flatMap fun p =>
    [⟨SequenceView.indexLabel p.2 ++ " key", p.1.1⟩,
     ⟨SequenceView.indexLabel p.2 ++ " value", p.1.2⟩]

def omitted (v : TableView) : Nat := v.size.toNat - v.pairs.length

end TableView

structure PairLayout where
  offset : UInt64
  stride : UInt64
  key : UInt64
  value : UInt64
  capacity : UInt64
  deriving DecidableEq, Repr

/-- What a large table says about its entries. -/
structure EntryRange where
  size : UInt64
  start : UInt64
  bound : UInt64
  power : UInt64
  entries : UInt64
  deriving DecidableEq, Repr

/-- A range that a table can have: the slots in use fit the allocated ones, there are at least as
many as live entries, and live entries lie somewhere. -/
def EntryRange.Plausible (r : EntryRange) : Prop :=
  r.start ≤ r.bound ∧ r.power < 48 ∧ r.bound - r.start ≤ 1 <<< r.power ∧
    r.size ≤ r.bound - r.start ∧ (r.entries ≠ 0 ∨ r.size = 0)

instance (r : EntryRange) : Decidable r.Plausible := by
  unfold EntryRange.Plausible; infer_instance

namespace Inspector

def memberOffset (l : Layout) (field : String) : Except AccessError UInt64 :=
  match l.member? field with
  | some (offset, _) => .ok offset
  | none => .error (.unknownMember l.name field)

def pairLayout (i : Inspector) : Except AccessError PairLayout := do
  let table ← i.target.layout "ar_table"
  let pair ← i.target.layout "ar_table_pair"
  let offset ← memberOffset table "pairs"
  return ⟨offset, pair.size, ← memberOffset pair "key", ← memberOffset pair "val",
    (table.size - offset) / pair.size⟩

/-- Live pairs and slots in use of a small table, from the header. -/
def pairCounts (i : Inspector) (p : PairLayout) (address flags : UInt64) :
    Except InspectError (UInt64 × UInt64) :=
  let size := i.constants.field flags .hashSizeMask .hashSizeShift
  let bound := i.constants.field flags .hashBoundMask .hashBoundShift
  if bound < size ∨ p.capacity < bound then
    .error (.corrupt address (.arrayTable size bound p.capacity))
  else .ok (size, bound)

/-- The slot that a hash needs, its table included. -/
def hashExtent (i : Inspector) (p : PairLayout) (own table address flags : UInt64) :
    Except InspectError UInt64 := do
  if i.flag flags .hashTableFlag then return own + table
  else
    let (_, bound) ← i.pairCounts p address flags
    return own + p.offset + bound * p.stride

/-- The pairs of a packed row, without the deleted ones. -/
def livePairs (i : Inspector) (bytes : Bytes) (stride key value : UInt64) :
    List (UInt64 × UInt64) :=
  ((bytes.runs stride.toNat).map fun entry =>
    (entry.wordAt key.toNat, entry.wordAt value.toNat)).filter
      fun p => p.1 != i.constants.get .undefWord

def entryRange (v : Value) : Except AccessError EntryRange := do
  let size ← v.unsignedMember "num_entries"
  let start ← v.unsignedMember "entries_start"
  let bound ← v.unsignedMember "entries_bound"
  let power ← v.unsignedMember "entry_power"
  return ⟨size, start, bound, power, ← v.unsignedMember "entries"⟩

/-- The live entries from a slot on, in batches, until enough are found or the slots end. -/
def readEntries (i : Inspector) (address : UInt64) (r : EntryRange) (stride key value : UInt64)
    (index : Nat) (found : List (UInt64 × UInt64)) : Probe (List (UInt64 × UInt64)) := do
  if _ : index < r.bound.toNat ∧ found.length < i.limit.toNat then
    let count := min (r.bound.toNat - index) i.limit.toNat
    let start := r.entries.toNat + index * stride.toNat
    if UInt64.size ≤ start then
      Run.fail (.corrupt address (.entryOutside (UInt64.ofNat index) r.entries))
    else
      let bytes ← i.target.read (UInt64.ofNat start) (UInt64.ofNat count * stride)
      let batch := (i.livePairs bytes stride key value).take (i.limit.toNat - found.length)
      i.readEntries address r stride key value (index + count) (found ++ batch)
  else return found
termination_by r.bound.toNat - index

def decodeEntries (i : Inspector) (o : HeapObject) (table : Value) :
    Probe (UInt64 × List (UInt64 × UInt64)) := do
  let r ← entryRange table
  if r.Plausible then
    let entry ← i.target.layout "st_table_entry"
    let key ← memberOffset entry "key"
    let value ← memberOffset entry "record"
    let pairs ← i.readEntries o.address r entry.size key value r.start.toNat []
    return (r.size, pairs)
  else Run.fail (.corrupt o.address (.entryTable r.size r.start r.bound r.power))

def decodeHash (i : Inspector) (o : HeapObject) : Probe TableView := do
  let own := (← i.target.layout "struct RHash").size
  let table ← i.target.layout "st_table"
  let p ← i.pairLayout
  let hint ← i.hashExtent p own table.size o.address o.header.flags
  let r ← i.readObject o "struct RHash" hint
    fun _ header => i.hashExtent p own table.size o.address header.flags
  let default ← r.fields.unsignedMember "ifnone"
  let address ← r.addressAt own
  let flags := r.object.header.flags
  if i.flag flags .hashTableFlag then
    let inline ← r.inline own table.size
    let (size, pairs) ← i.decodeEntries r.object ⟨table, inline, some address⟩
    return ⟨r.object, size, .entries, address, default, pairs⟩
  else
    let (size, bound) ← i.pairCounts p r.object.address flags
    let bytes ← r.inline (own + p.offset) (bound * p.stride)
    let pairs := (i.livePairs bytes p.stride p.key p.value).take i.limit.toNat
    return ⟨r.object, size, .pairs, address, default, pairs⟩

end Inspector
end HeapLens
