import HeapLens.Proofs.Snapshot.Target
import HeapLens.Proofs.View.Extents
import HeapLens.Proofs.View.Slot

/-!
Views while memory changes. Reads of the same range may be answered differently every time, so a
view that mixed the answers of two reads could show an object that never was. Main statement: the
header, the layout that it decides on, every field and all inline data of a view come from the
answer to one read at the address of the object, and only data that lies elsewhere comes from reads
made after it.
-/
namespace HeapLens
open Run

/-! `ReadFrom i r later after v`: the view says what the slot `r` says, and what it says of data
elsewhere was read between the traces `later` and `after`. -/

structure StringView.ReadFrom (i : Inspector) (r : ObjectRead) (later after : Trace)
    (v : StringView) : Prop where
  object : v.object = r.object
  embedded : v.embedded = i.stringEmbedded r.object.header.flags
  length : ∃ n, r.fields.signedMember "len" = .ok n ∧ ¬ n < 0 ∧ v.length = n.toUInt64
  inside : v.embedded = true → v.pointer = none ∧ after = later ∧
    ∃ offset, i.target.offsetOf "struct RString" "as.embed.ary" = .ok offset ∧
      r.bytes.slice? offset.toNat (min v.length previewBytes).toNat = some v.bytes
  outside : v.embedded = false → ∃ p, r.fields.unsignedMember "as.heap.ptr" = .ok p ∧
    v.pointer = some p ∧
    if min v.length previewBytes = 0 then v.bytes = [] ∧ after = later
    else i.target.read p (min v.length previewBytes) later = (.ok v.bytes, after)

/-- Arrays and records, by the number of elements that the header says lie inside, if any do. -/
structure SequenceView.ReadFrom (i : Inspector) (type : String)
    (inside? : UInt64 → Option UInt64) (r : ObjectRead) (later after : Trace)
    (v : SequenceView) : Prop where
  object : v.object = r.object
  embedded : v.embedded = (inside? r.object.header.flags).isSome
  inside : ∀ n, inside? r.object.header.flags = some n → v.length = n ∧ v.pointer = none ∧
    after = later ∧
    ∃ offset bytes, i.target.offsetOf type "as.ary" = .ok offset ∧
      r.bytes.slice? offset.toNat (min n i.limit * wordSize).toNat = some bytes ∧
      v.elements = bytes.words
  outside : inside? r.object.header.flags = none →
    (∃ n, r.fields.signedMember "as.heap.len" = .ok n ∧ ¬ n < 0 ∧ v.length = n.toUInt64) ∧
    ∃ p, r.fields.unsignedMember "as.heap.ptr" = .ok p ∧ v.pointer = some p ∧
      i.readWords p (min v.length i.limit) later = (.ok v.elements, after)

structure TableView.ReadFrom (i : Inspector) (r : ObjectRead) (later after : Trace)
    (v : TableView) : Prop where
  object : v.object = r.object
  default : r.fields.unsignedMember "ifnone" = .ok v.default
  kind : v.kind = if i.flag r.object.header.flags .hashTableFlag then .entries else .pairs
  address : ∃ own, i.target.layout "struct RHash" = .ok own ∧
    v.address = r.object.address + own.size
  pairs : v.kind = .pairs → after = later ∧
    v.size = i.constants.field r.object.header.flags .hashSizeMask .hashSizeShift ∧
    ∃ own p bytes, i.target.layout "struct RHash" = .ok own ∧ i.pairLayout = .ok p ∧
      r.bytes.slice? (own.size + p.offset).toNat
        (i.constants.field r.object.header.flags .hashBoundMask .hashBoundShift * p.stride).toNat =
          some bytes ∧
      v.pairs = (i.livePairs bytes p.stride p.key p.value).take i.limit.toNat
  entries : v.kind = .entries → ∃ own table bytes range,
    i.target.layout "struct RHash" = .ok own ∧ i.target.layout "st_table" = .ok table ∧
    r.bytes.slice? own.size.toNat table.size.toNat = some bytes ∧
    Inspector.entryRange ⟨table, bytes, some v.address⟩ = .ok range ∧ v.size = range.size ∧
    ∃ entry key value, i.target.layout "st_table_entry" = .ok entry ∧
      Inspector.memberOffset entry "key" = .ok key ∧
      Inspector.memberOffset entry "record" = .ok value ∧
      i.readEntries r.object.address range entry.size key value range.start.toNat [] later =
        (.ok v.pairs, after)

structure FloatView.ReadFrom (r : ObjectRead) (later after : Trace) (v : FloatView) : Prop where
  object : v.object = r.object
  value : ∃ x, r.fields.member "float_value" = .ok x ∧ v.value = x.double
  after_eq : after = later

structure BignumView.ReadFrom (i : Inspector) (r : ObjectRead) (later after : Trace)
    (v : BignumView) : Prop where
  object : v.object = r.object
  negative : v.negative = !i.flag r.object.header.flags .bignumSign
  embedded : v.embedded = i.flag r.object.header.flags .bignumEmbedFlag
  inside : v.embedded = true → after = later ∧ v.length = i.bignumLength r.object.header.flags ∧
    if v.length ≤ i.limit then
      ∃ offset digit bytes, i.target.offsetOf "struct RBignum" "as.ary" = .ok offset ∧
        i.target.layout "BDIGIT" = .ok digit ∧
        r.bytes.slice? offset.toNat (v.length * digit.size).toNat = some bytes ∧
        v.limbs = some bytes.limbs
    else v.limbs = none
  outside : v.embedded = false → r.fields.unsignedMember "as.heap.len" = .ok v.length ∧
    ∃ p, r.fields.unsignedMember "as.heap.digits" = .ok p ∧
      if v.length = 0 then v.limbs = some [] ∧ after = later
      else if v.length ≤ i.limit then
        ∃ digit bytes, i.target.layout "BDIGIT" = .ok digit ∧
          i.target.read p (v.length * digit.size) later = (.ok bytes, after) ∧
          v.limbs = some bytes.limbs
      else v.limbs = none ∧ after = later

structure SymbolView.ReadFrom (i : Inspector) (r : ObjectRead) (later after : Trace)
    (v : SymbolView) : Prop where
  object : v.object = r.object
  id : r.fields.unsignedMember "id" = .ok v.id
  nameWord : r.fields.unsignedMember "fstr" = .ok v.nameWord
  name : ∃ outcome, i.stringBytes v.nameWord later = (outcome, after) ∧
    v.name = outcome.toOption.join

section
variable {i : Inspector} {type : String} {inside? : UInt64 → Option UInt64} {r : ObjectRead}
  {later after : Trace} {ws : List UInt64}

theorem SequenceView.readFrom_inside {offset n : UInt64}
    (count : inside? r.object.header.flags = some n)
    (placed : i.target.offsetOf type "as.ary" = .ok offset)
    (found : r.inlineWords offset (min n i.limit) = .ok ws) :
    SequenceView.ReadFrom i type inside? r later later ⟨r.object, n, true, none, ws⟩ where
  object := rfl
  embedded := by rw [count]; rfl
  inside m counted := by
    cases count.symm.trans counted
    obtain ⟨bytes, part, rfl⟩ := r.inlineWords_ok found
    exact ⟨rfl, rfl, rfl, offset, bytes, placed, part, rfl⟩
  outside none := by cases count.symm.trans none

theorem SequenceView.readFrom_outside {n : Int64} {p : UInt64}
    (count : inside? r.object.header.flags = none)
    (counted : r.fields.signedMember "as.heap.len" = .ok n) (natural : ¬ n < 0)
    (pointed : r.fields.unsignedMember "as.heap.ptr" = .ok p)
    (found : i.readWords p (min n.toUInt64 i.limit) later = (.ok ws, after)) :
    SequenceView.ReadFrom i type inside? r later after
      ⟨r.object, n.toUInt64, false, some p, ws⟩ where
  object := rfl
  embedded := by rw [count]; rfl
  inside m some := by cases count.symm.trans some
  outside _ := ⟨⟨n, counted, natural, rfl⟩, p, pointed, rfl, found⟩

theorem StringView.readFrom_outside {n : Int64} {p : UInt64} {bytes : Bytes}
    (elsewhere : ¬ i.stringEmbedded r.object.header.flags = true)
    (counted : r.fields.signedMember "len" = .ok n) (natural : ¬ n < 0)
    (pointed : r.fields.unsignedMember "as.heap.ptr" = .ok p)
    (found : if min n.toUInt64 previewBytes = 0 then bytes = [] ∧ after = later
      else i.target.read p (min n.toUInt64 previewBytes) later = (.ok bytes, after)) :
    StringView.ReadFrom i r later after ⟨r.object, n.toUInt64, false, some p, bytes⟩ where
  object := rfl
  embedded := (Bool.eq_false_iff.mpr elsewhere).symm
  length := ⟨n, counted, natural, rfl⟩
  inside := nofun
  outside _ := ⟨p, pointed, rfl, found⟩

theorem BignumView.readFrom_inside {limbs : Option (List UInt64)}
    (embedded : i.flag r.object.header.flags .bignumEmbedFlag = true)
    (found : if i.bignumLength r.object.header.flags ≤ i.limit then
      ∃ offset digit bytes, i.target.offsetOf "struct RBignum" "as.ary" = .ok offset ∧
        i.target.layout "BDIGIT" = .ok digit ∧
        r.bytes.slice? offset.toNat
          (i.bignumLength r.object.header.flags * digit.size).toNat = some bytes ∧
        limbs = some bytes.limbs
    else limbs = none) :
    BignumView.ReadFrom i r later later ⟨r.object, !i.flag r.object.header.flags .bignumSign, true,
      i.bignumLength r.object.header.flags, limbs⟩ where
  object := rfl
  negative := rfl
  embedded := embedded.symm
  inside _ := ⟨rfl, rfl, found⟩
  outside := nofun

theorem BignumView.readFrom_outside {length p : UInt64} {limbs : Option (List UInt64)}
    (elsewhere : ¬ i.flag r.object.header.flags .bignumEmbedFlag = true)
    (counted : r.fields.unsignedMember "as.heap.len" = .ok length)
    (pointed : r.fields.unsignedMember "as.heap.digits" = .ok p)
    (found : if length = 0 then limbs = some [] ∧ after = later
      else if length ≤ i.limit then
        ∃ digit bytes, i.target.layout "BDIGIT" = .ok digit ∧
          i.target.read p (length * digit.size) later = (.ok bytes, after) ∧
          limbs = some bytes.limbs
      else limbs = none ∧ after = later) :
    BignumView.ReadFrom i r later after
      ⟨r.object, !i.flag r.object.header.flags .bignumSign, false, length, limbs⟩ where
  object := rfl
  negative := rfl
  embedded := (Bool.eq_false_iff.mpr elsewhere).symm
  inside := nofun
  outside _ := ⟨counted, p, pointed, found⟩

end

/-! What holds after the slot was read still holds after the data elsewhere was. -/

section
variable {i : Inspector} {r : ObjectRead} {later after : Trace} {P : Trace → Prop}

theorem StringView.ReadFrom.lasts {v : StringView} (h : v.ReadFrom i r later after)
    (lasting : Lasting P) (before : P later) : P after := by
  cases embedded : v.embedded with
  | true => exact (h.inside embedded).2.1 ▸ before
  | false =>
    obtain ⟨p, _, _, found⟩ := h.outside embedded
    split at found
    · exact found.2 ▸ before
    · exact (Target.read_ok found).2 ▸ lasting _ _ before

theorem SequenceView.ReadFrom.lasts {type : String} {inside? : UInt64 → Option UInt64}
    {v : SequenceView} (h : v.ReadFrom i type inside? r later after) (lasting : Lasting P)
    (before : P later) : P after := by
  cases count : inside? r.object.header.flags with
  | some n => exact (h.inside n count).2.2.1 ▸ before
  | none =>
    obtain ⟨_, p, _, _, found⟩ := h.outside count
    exact (i.readWords_confined lasting admits_all _ _).after before found

theorem TableView.ReadFrom.lasts {v : TableView} (h : v.ReadFrom i r later after)
    (lasting : Lasting P) (before : P later) : P after := by
  cases kind : v.kind with
  | pairs => exact (h.pairs kind).1 ▸ before
  | entries =>
    obtain ⟨own, table, bytes, range, -, -, -, -, -, entry, key, value, -, -, -, found⟩ :=
      h.entries kind
    exact (i.readEntries_confined lasting admits_all _ _ _ _ _ _ _).after before found

theorem BignumView.ReadFrom.lasts {v : BignumView} (h : v.ReadFrom i r later after)
    (lasting : Lasting P) (before : P later) : P after := by
  cases embedded : v.embedded with
  | true => exact (h.inside embedded).1 ▸ before
  | false =>
    obtain ⟨_, p, _, found⟩ := h.outside embedded
    split at found
    · exact found.2 ▸ before
    · split at found
      · obtain ⟨_, _, _, read, _⟩ := found
        exact (Target.read_ok read).2 ▸ lasting _ _ before
      · exact found.2 ▸ before

theorem SymbolView.ReadFrom.lasts {v : SymbolView} (h : v.ReadFrom i r later after)
    (lasting : Lasting P) (before : P later) : P after := by
  obtain ⟨_, found, _⟩ := h.name
  exact (i.stringBytes_confined lasting admits_all _).after before found

end

namespace Inspector
variable {i : Inspector} {o : HeapObject} {trace after : Trace}

theorem decodeFloat_reads {v : FloatView} (run : i.decodeFloat o trace = (.ok v, after)) :
    ∃ r later, i.readFields o "struct RFloat" trace = (.ok r, later) ∧
      v.ReadFrom r later after := by
  unfold decodeFloat at run
  obtain ⟨r, later, read, run⟩ := bind_ok run
  obtain ⟨x, found, run⟩ := access_bind_ok run
  cases run
  exact ⟨r, _, read, rfl, ⟨x, found, rfl⟩, rfl⟩

theorem decodeSymbol_reads {v : SymbolView} (run : i.decodeSymbol o trace = (.ok v, after)) :
    ∃ r later, i.readFields o "struct RSymbol" trace = (.ok r, later) ∧
      v.ReadFrom i r later after := by
  unfold decodeSymbol at run
  obtain ⟨r, later, read, run⟩ := bind_ok run
  obtain ⟨id, numbered, run⟩ := access_bind_ok run
  obtain ⟨nameWord, named, run⟩ := access_bind_ok run
  obtain ⟨outcome, middle, attempted, run⟩ := bind_ok run
  have name : i.stringBytes nameWord later = (outcome, middle) := by
    have attempt : (i.stringBytes nameWord).attempt later =
      (.ok (i.stringBytes nameWord later).1, (i.stringBytes nameWord later).2) := rfl
    rw [attempt] at attempted
    cases attempted
    rfl
  cases outcome with
  | ok bytes =>
    cases run
    exact ⟨r, later, read, rfl, numbered, named, ⟨_, name, rfl⟩⟩
  | error e =>
    cases run
    exact ⟨r, later, read, rfl, numbered, named, ⟨_, name, rfl⟩⟩

theorem decodeString_reads {v : StringView} (run : i.decodeString o trace = (.ok v, after)) :
    ∃ extent r later, i.readObject o "struct RString" 0 extent trace = (.ok r, later) ∧
      v.ReadFrom i r later after := by
  unfold decodeString at run
  obtain ⟨offset, placed, run⟩ := access_bind_ok run
  obtain ⟨r, later, read, run⟩ := bind_ok run
  obtain ⟨n, counted, run⟩ := access_bind_ok run
  obtain ⟨natural, run⟩ := guard_ok run
  refine ⟨_, r, later, read, ?_⟩
  by_cases embedded : i.stringEmbedded r.object.header.flags = true
  · rw [if_pos embedded] at run
    obtain ⟨bytes, inside, run⟩ := lift_bind_ok run
    cases run
    exact {
      object := rfl
      embedded := embedded.symm
      length := ⟨n, counted, natural, rfl⟩
      inside := fun _ => ⟨rfl, rfl, offset, placed, r.inline_ok inside⟩
      outside := nofun }
  · rw [if_neg embedded] at run
    obtain ⟨p, pointed, run⟩ := access_bind_ok run
    obtain ⟨_, run⟩ := guard_ok run
    by_cases empty : min n.toUInt64 previewBytes = 0
    · rw [if_pos empty] at run
      cases run
      apply StringView.readFrom_outside embedded counted natural pointed
      rw [if_pos empty]
      exact ⟨rfl, rfl⟩
    · rw [if_neg empty] at run
      obtain ⟨bytes, s, found, run⟩ := bind_ok run
      cases run
      apply StringView.readFrom_outside embedded counted natural pointed
      rw [if_neg empty]
      exact found

/-- The elements that the header of an array places inside it. -/
def arrayInside? (i : Inspector) (flags : UInt64) : Option UInt64 :=
  if i.flag flags .arrayEmbedFlag then some (i.arrayLength flags) else none

/-- The members that the header of a record places inside it. -/
def recordInside? (i : Inspector) (flags : UInt64) : Option UInt64 :=
  if i.recordLength flags = 0 then none else some (i.recordLength flags)

theorem decodeArray_reads {v : SequenceView} (run : i.decodeArray o trace = (.ok v, after)) :
    ∃ hint extent r later, i.readObject o "struct RArray" hint extent trace = (.ok r, later) ∧
      v.ReadFrom i "struct RArray" i.arrayInside? r later after := by
  unfold decodeArray at run
  obtain ⟨offset, placed, run⟩ := access_bind_ok run
  obtain ⟨r, later, read, run⟩ := bind_ok run
  refine ⟨_, _, r, later, read, ?_⟩
  by_cases embedded : i.flag r.object.header.flags .arrayEmbedFlag = true
  · rw [if_pos embedded] at run
    obtain ⟨ws, inside, run⟩ := lift_bind_ok run
    cases run
    exact SequenceView.readFrom_inside (if_pos embedded) placed inside
  · rw [if_neg embedded] at run
    obtain ⟨n, counted, run⟩ := access_bind_ok run
    obtain ⟨natural, run⟩ := guard_ok run
    obtain ⟨p, pointed, run⟩ := access_bind_ok run
    obtain ⟨_, run⟩ := guard_ok run
    obtain ⟨ws, s, found, run⟩ := bind_ok run
    cases run
    exact SequenceView.readFrom_outside (if_neg embedded) counted natural pointed found

theorem decodeRecord_reads {v : SequenceView} (run : i.decodeRecord o trace = (.ok v, after)) :
    ∃ hint extent r later, i.readObject o "struct RStruct" hint extent trace = (.ok r, later) ∧
      v.ReadFrom i "struct RStruct" i.recordInside? r later after := by
  unfold decodeRecord at run
  obtain ⟨offset, placed, run⟩ := access_bind_ok run
  obtain ⟨r, later, read, run⟩ := bind_ok run
  refine ⟨_, _, r, later, read, ?_⟩
  dsimp only at run
  by_cases elsewhere : i.recordLength r.object.header.flags = 0
  · rw [if_pos elsewhere] at run
    obtain ⟨n, counted, run⟩ := access_bind_ok run
    obtain ⟨natural, run⟩ := guard_ok run
    obtain ⟨p, pointed, run⟩ := access_bind_ok run
    obtain ⟨ws, s, found, run⟩ := bind_ok run
    cases run
    exact SequenceView.readFrom_outside (if_pos elsewhere) counted natural pointed found
  · rw [if_neg elsewhere] at run
    obtain ⟨ws, inside, run⟩ := lift_bind_ok run
    cases run
    exact SequenceView.readFrom_inside (if_neg elsewhere) placed inside

theorem decodeEntries_ok {size : UInt64} {found : List (UInt64 × UInt64)} {v : Value}
    (run : i.decodeEntries o v trace = (.ok (size, found), after)) :
    ∃ range, entryRange v = .ok range ∧ size = range.size ∧
      ∃ entry key value, i.target.layout "st_table_entry" = .ok entry ∧
        memberOffset entry "key" = .ok key ∧ memberOffset entry "record" = .ok value ∧
        i.readEntries o.address range entry.size key value range.start.toNat [] trace =
          (.ok found, after) := by
  unfold decodeEntries at run
  obtain ⟨range, ranged, run⟩ := access_bind_ok run
  by_cases possible : range.Plausible
  · rw [if_pos possible] at run
    obtain ⟨entry, named, run⟩ := access_bind_ok run
    obtain ⟨key, keyed, run⟩ := access_bind_ok run
    obtain ⟨value, valued, run⟩ := access_bind_ok run
    obtain ⟨pairs, s, read, run⟩ := bind_ok run
    cases run
    exact ⟨range, ranged, rfl, entry, key, value, named, keyed, valued, read⟩
  · rw [if_neg possible] at run
    cases run

theorem decodeHash_reads {v : TableView} (run : i.decodeHash o trace = (.ok v, after)) :
    ∃ hint extent r later, i.readObject o "struct RHash" hint extent trace = (.ok r, later) ∧
      v.ReadFrom i r later after := by
  unfold decodeHash at run
  obtain ⟨own, named, run⟩ := access_bind_ok run
  obtain ⟨table, tabled, run⟩ := access_bind_ok run
  obtain ⟨p, paired, run⟩ := access_bind_ok run
  obtain ⟨hint, _, run⟩ := lift_bind_ok run
  obtain ⟨r, later, read, run⟩ := bind_ok run
  obtain ⟨default, ifnone, run⟩ := access_bind_ok run
  obtain ⟨address, placed, run⟩ := lift_bind_ok run
  refine ⟨_, _, r, later, read, ?_⟩
  cases r.addressAt_ok placed
  dsimp only at run
  by_cases large : i.flag r.object.header.flags .hashTableFlag = true
  · rw [if_pos large] at run
    obtain ⟨bytes, inside, run⟩ := lift_bind_ok run
    obtain ⟨⟨size, pairs⟩, s, found, run⟩ := bind_ok run
    cases run
    obtain ⟨range, ranged, sized, entries⟩ := decodeEntries_ok found
    exact {
      object := rfl
      default := ifnone
      kind := (if_pos large).symm
      address := ⟨own, named, rfl⟩
      pairs := nofun
      entries := fun _ =>
        ⟨own, table, bytes, range, named, tabled, r.inline_ok inside, ranged, sized, entries⟩ }
  · rw [if_neg large] at run
    obtain ⟨⟨size, bound⟩, counted, run⟩ := lift_bind_ok run
    obtain ⟨bytes, inside, run⟩ := lift_bind_ok run
    cases run
    obtain ⟨rfl, rfl, -⟩ := pairCounts_ok counted
    exact {
      object := rfl
      default := ifnone
      kind := (if_neg large).symm
      address := ⟨own, named, rfl⟩
      pairs := fun _ => ⟨rfl, rfl, own, p, bytes, named, paired, r.inline_ok inside, rfl⟩
      entries := nofun }

theorem decodeBignum_reads {v : BignumView} (run : i.decodeBignum o trace = (.ok v, after)) :
    ∃ hint extent r later, i.readObject o "struct RBignum" hint extent trace = (.ok r, later) ∧
      v.ReadFrom i r later after := by
  unfold decodeBignum at run
  obtain ⟨offset, placed, run⟩ := access_bind_ok run
  obtain ⟨digit, named, run⟩ := access_bind_ok run
  obtain ⟨r, later, read, run⟩ := bind_ok run
  refine ⟨_, _, r, later, read, ?_⟩
  dsimp only at run
  by_cases embedded : i.flag r.object.header.flags .bignumEmbedFlag = true
  · rw [if_pos embedded] at run
    by_cases small : i.bignumLength r.object.header.flags ≤ i.limit
    · rw [if_pos small] at run
      obtain ⟨bytes, inside, run⟩ := lift_bind_ok run
      cases run
      apply BignumView.readFrom_inside embedded
      rw [if_pos small]
      exact ⟨offset, digit, bytes, placed, named, r.inline_ok inside, rfl⟩
    · rw [if_neg small] at run
      cases run
      apply BignumView.readFrom_inside embedded
      rw [if_neg small]
  · rw [if_neg embedded] at run
    obtain ⟨length, counted, run⟩ := access_bind_ok run
    obtain ⟨p, pointed, run⟩ := access_bind_ok run
    obtain ⟨_, run⟩ := guard_ok run
    by_cases empty : length = 0
    · rw [if_pos empty] at run
      cases run
      apply BignumView.readFrom_outside embedded counted pointed
      rw [if_pos empty]
      exact ⟨rfl, rfl⟩
    · rw [if_neg empty] at run
      by_cases small : length ≤ i.limit
      · rw [if_pos small] at run
        obtain ⟨bytes, s, found, run⟩ := bind_ok run
        cases run
        apply BignumView.readFrom_outside embedded counted pointed
        rw [if_neg empty, if_pos small]
        exact ⟨digit, bytes, named, found, rfl⟩
      · rw [if_neg small] at run
        cases run
        apply BignumView.readFrom_outside embedded counted pointed
        rw [if_neg empty, if_neg small]
        exact ⟨rfl, rfl⟩

end Inspector

namespace View

/-- The type of the slot that a view is decoded from. -/
def slotType? : View → Option String
  | .immediate _ _ | .basic _ => none
  | .string _ => some "struct RString"
  | .array _ => some "struct RArray"
  | .hash _ => some "struct RHash"
  | .record _ => some "struct RStruct"
  | .float _ => some "struct RFloat"
  | .bignum _ => some "struct RBignum"
  | .symbol _ => some "struct RSymbol"

def ReadFrom (i : Inspector) (r : ObjectRead) (later after : Trace) : View → Prop
  | .immediate _ _ | .basic _ => False
  | .string v => v.ReadFrom i r later after
  | .array v => v.ReadFrom i "struct RArray" i.arrayInside? r later after
  | .hash v => v.ReadFrom i r later after
  | .record v => v.ReadFrom i "struct RStruct" i.recordInside? r later after
  | .float v => v.ReadFrom r later after
  | .bignum v => v.ReadFrom i r later after
  | .symbol v => v.ReadFrom i r later after

variable {i : Inspector} {r : ObjectRead} {later after : Trace} {v : View}

theorem ReadFrom.object (h : v.ReadFrom i r later after) : v.object? = some r.object := by
  cases v with
  | immediate | basic => exact h.elim
  | string v | array v | hash v | record v | float v | bignum v | symbol v =>
    exact congrArg some h.object

theorem ReadFrom.lasts {P : Trace → Prop} (h : v.ReadFrom i r later after) (lasting : Lasting P)
    (before : P later) : P after := by
  cases v with
  | immediate | basic => exact h.elim
  | string v => exact StringView.ReadFrom.lasts h lasting before
  | array v => exact SequenceView.ReadFrom.lasts h lasting before
  | hash v => exact TableView.ReadFrom.lasts h lasting before
  | record v => exact SequenceView.ReadFrom.lasts h lasting before
  | float v => exact FloatView.ReadFrom.after_eq h ▸ before
  | bignum v => exact BignumView.ReadFrom.lasts h lasting before
  | symbol v => exact SymbolView.ReadFrom.lasts h lasting before

end View

namespace Inspector
variable {i : Inspector} {o : HeapObject} {word : UInt64} {trace after : Trace} {view : View}
  {type : String}

theorem decodeObject_reads (run : i.decodeObject o trace = (.ok view, after))
    (slot : view.slotType? = some type) :
    ∃ hint extent r later, i.readObject o type hint extent trace = (.ok r, later) ∧
      view.ReadFrom i r later after := by
  unfold decodeObject at run
  cases known : o.type with
  | none => rw [known] at run; cases run; cases slot
  | some kind =>
    rw [known] at run
    cases kind with
    | string =>
      obtain ⟨v, s, decoded, run⟩ := bind_ok run
      cases run; cases slot
      exact ⟨_, decodeString_reads decoded⟩
    | array =>
      obtain ⟨v, s, decoded, run⟩ := bind_ok run
      cases run; cases slot
      exact decodeArray_reads decoded
    | hash =>
      obtain ⟨v, s, decoded, run⟩ := bind_ok run
      cases run; cases slot
      exact decodeHash_reads decoded
    | record =>
      obtain ⟨v, s, decoded, run⟩ := bind_ok run
      cases run; cases slot
      exact decodeRecord_reads decoded
    | float =>
      obtain ⟨v, s, decoded, run⟩ := bind_ok run
      cases run; cases slot
      exact ⟨_, _, decodeFloat_reads decoded⟩
    | bignum =>
      obtain ⟨v, s, decoded, run⟩ := bind_ok run
      cases run; cases slot
      exact decodeBignum_reads decoded
    | symbol =>
      obtain ⟨v, s, decoded, run⟩ := bind_ok run
      cases run; cases slot
      exact ⟨_, _, decodeSymbol_reads decoded⟩
    | _ => cases run; cases slot

/-- A view with a layout of its own comes from the answer to one read of its slot, however often
the target changed before and after it. -/
theorem interpret_one_read (run : i.interpret word trace = (.ok view, after))
    (slot : view.slotType? = some type) :
    ∃ before size r, trace.size ≤ before.size ∧
      after[before.size]? = some ⟨r.object.address, size⟩ ∧
      view.object? = some r.object ∧ r.FromSlot i.target type before size ∧
      view.ReadFrom i r (before.push ⟨r.object.address, size⟩) after := by
  unfold interpret at run
  obtain ⟨c, middle, classified, decoded⟩ := bind_ok run
  have first := (classify_confined (lasting_size trace.size) admits_all i.constants
    word).after (Nat.le_refl _) classified
  cases c with
  | immediate word value => cases decoded; cases slot
  | heap o =>
    obtain ⟨hint, extent, r, later, read, shown⟩ := decodeObject_reads decoded slot
    obtain ⟨before, size, longer, parsed, rfl⟩ := readObject_ok read
    have asked : (before.push ⟨r.object.address, size⟩)[before.size]? =
        some ⟨r.object.address, size⟩ := Array.getElem?_push_size
    exact ⟨before, size, r, Nat.le_trans first longer, shown.lasts (lasting_request _ _) asked,
      shown.object, parsed, shown⟩

/-- An array that keeps two elements inside when it is classified, five when its slot is first read,
and one element elsewhere from then on. -/
def changing : Inspector :=
  ⟨{ Inspector.shared.target with
      memory := fun n => patternRead
        (([[73735, 0, 1, 3, 0, 0, 0], [172039, 0, 5, 7, 9, 11, 13]].getD n
          [7, 17, 1, 0, 96, 11, 0]).flatMap Bytes.ofWord) },
    .default, defaultLimit⟩

theorem changing_one_read :
    changing.interpret 56 #[] =
        (.ok (.array ⟨⟨56, ⟨56, 7, 17⟩, 7, some .array⟩, 1, false, some 96, [11]⟩),
          #[⟨56, 16⟩, ⟨56, 40⟩, ⟨56, 56⟩, ⟨96, 8⟩]) ∧
      ∃ before size r, r.FromSlot changing.target "struct RArray" before size ∧
        SequenceView.ReadFrom changing "struct RArray" changing.arrayInside? r
          (before.push ⟨r.object.address, size⟩) #[⟨56, 16⟩, ⟨56, 40⟩, ⟨56, 56⟩, ⟨96, 8⟩]
          ⟨⟨56, ⟨56, 7, 17⟩, 7, some .array⟩, 1, false, some 96, [11]⟩ := by
  have run : changing.interpret 56 #[] =
      (.ok (.array ⟨⟨56, ⟨56, 7, 17⟩, 7, some .array⟩, 1, false, some 96, [11]⟩),
        #[⟨56, 16⟩, ⟨56, 40⟩, ⟨56, 56⟩, ⟨96, 8⟩]) := by
    rfl
  obtain ⟨before, size, r, -, -, -, parsed, shown⟩ := interpret_one_read run rfl
  exact ⟨run, before, size, r, parsed, shown⟩

end Inspector

end HeapLens
