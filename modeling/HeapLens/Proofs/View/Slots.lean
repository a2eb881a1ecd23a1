import HeapLens.Proofs.Target.ByteMap
import HeapLens.Proofs.View.ReadBounds
import HeapLens.Proofs.View.TypeTag

/-!
The entries that a hash view shows. A small table is decoded at one stroke, a large one in batches
that each begin where the last one ended, however many live entries were found in it. Main
statement: in memory that does not change, both show the live entries of the slots in use, in the
order of the slots and up to the limit.
-/
namespace HeapLens
open Run

namespace ByteMap
variable (m : ByteMap)

/-- Key and value of consecutive slots of a row, from slot `first` on. -/
def slots (row stride key value first count : Nat) : List (UInt64 × UInt64) :=
  (List.range count).map fun k =>
    (m.word (row + (first + k) * stride + key), m.word (row + (first + k) * stride + value))

theorem slots_add (row stride key value first count more : Nat) :
    m.slots row stride key value first (count + more) =
      m.slots row stride key value first count ++
        m.slots row stride key value (first + count) more := by
  rw [slots, List.range_add, List.map_append, List.map_map, slots, slots]
  refine congrArg _ (List.map_congr_left fun k _ => ?_)
  rw [Function.comp, Nat.add_assoc first]

end ByteMap

/-- Batches that are cut to what is still wanted, one behind the other, are the whole row cut. -/
theorem take_batches {α : Type} (found batch rest : List α) (limit : Nat) :
    found ++ batch.take (limit - found.length) ++
        rest.take (limit - (found ++ batch.take (limit - found.length)).length) =
      found ++ (batch ++ rest).take (limit - found.length) := by
  have wanted : limit - (found ++ batch.take (limit - found.length)).length =
      limit - found.length - batch.length := by
    rw [List.length_append, List.length_take]
    omega
  rw [wanted, List.append_assoc, List.take_append]

namespace Inspector
variable {i : Inspector} {m : ByteMap}

/-- The slots that were not deleted. -/
def live (i : Inspector) (slots : List (UInt64 × UInt64)) : List (UInt64 × UInt64) :=
  slots.filter fun p => p.1 != i.constants.get .undefWord

theorem live_append (slots more : List (UInt64 × UInt64)) :
    i.live (slots ++ more) = i.live slots ++ i.live more := List.filter_append ..

/-- Which table a hash has. -/
def tableKind (i : Inspector) (m : ByteMap) (address : Nat) : TableKind :=
  if i.flag (m.word address) .hashTableFlag then .entries else .pairs

/-- How many live entries the table of the hash at an address says it has. -/
def recordedSize (i : Inspector) (m : ByteMap) (address : Nat) : TableKind → UInt64
  | .pairs => i.constants.field (m.word address) .hashSizeMask .hashSizeShift
  | .entries => m.word (address + 40)

/-- The slots in use of the hash at an address: up to the bound in the header, or from the first to
the bound that the table behind the hash names. -/
def usedSlots (i : Inspector) (m : ByteMap) (address : Nat) : TableKind → List (UInt64 × UInt64)
  | .pairs => m.slots (address + 32) 16 0 8 0
      (i.constants.field (m.word address) .hashBoundMask .hashBoundShift).toNat
  | .entries => m.slots (m.word (address + 72)).toNat 24 8 16 (m.word (address + 56)).toNat
      ((m.word (address + 64)).toNat - (m.word (address + 56)).toNat)

def liveSlots (i : Inspector) (m : ByteMap) (address : Nat) (kind : TableKind) :
    List (UInt64 × UInt64) :=
  i.live (i.usedSlots m address kind)

theorem livePairs_bytes {stride key value : UInt64} (keyed : key.toNat + 8 ≤ stride.toNat)
    (valued : value.toNat + 8 ≤ stride.toNat) (row first count : Nat) :
    i.livePairs (m.bytes (row + first * stride.toNat) (count * stride.toNat)) stride key value =
      i.live (m.slots row stride.toNat key.toNat value.toNat first count) := by
  rw [livePairs, m.runs_bytes (by omega), List.map_map, live, ByteMap.slots]
  refine congrArg _ (List.map_congr_left fun k _ => ?_)
  rw [Function.comp, m.wordAt_bytes _ keyed, m.wordAt_bytes _ valued, Nat.add_assoc row,
    ← Nat.add_mul]

section Entries
variable (still : i.target.Shows m)
include still

/-- What was found, then the live entries of the slots that are left: every batch takes its slots
from the front of these. -/
theorem readEntries_still {r : EntryRange} (possible : r.Plausible) {key value : UInt64}
    (keyed : key.toNat + 8 ≤ 24) (valued : value.toNat + 8 ≤ 24) (address : UInt64) (index : Nat)
    (found : List (UInt64 × UInt64)) (started : r.start.toNat ≤ index) :
    Ensures (i.readEntries address r 24 key value index found)
      (· = found ++ (i.live (m.slots r.entries.toNat 24 key.toNat value.toNat index
        (r.bound.toNat - index))).take (i.limit.toNat - found.length)) := by
  induction index, found using readEntries.induct i r 24 key value with
  | case1 index found more start outside =>
    rw [readEntries, dif_pos more]
    dsimp only
    rw [if_pos outside]
    exact ensures_fail _
  | case2 index found more count start inside ih =>
    have slots := possible.slots_le
    have space : UInt64.size = 2 ^ 64 := rfl
    have counted : count = min (r.bound.toNat - index) i.limit.toNat := rfl
    have place : (UInt64.ofNat start).toNat = r.entries.toNat + index * 24 :=
      UInt64.toNat_ofNat_of_lt' (Nat.lt_of_not_le inside)
    have many : (UInt64.ofNat count).toNat = count := UInt64.toNat_ofNat_of_lt' (by omega)
    have size : (UInt64.ofNat count * 24).toNat = count * 24 := by
      have small : (UInt64.ofNat count).toNat * 24 < 2 ^ 64 := by omega
      exact ((toNat_mul_eq_iff _ 24).mpr small).trans (congrArg (· * 24) many)
    -- The slots that are left split where this batch ends.
    have left : r.bound.toNat - index = count + (r.bound.toNat - (index + count)) := by omega
    rw [readEntries, dif_pos more]
    dsimp only
    rw [if_neg inside, ← counted]
    apply ensures_bind (still.ensures_read _ _)
    rintro bytes rfl
    rw [place, size]
    have batch : i.livePairs (m.bytes (r.entries.toNat + index * 24) (count * 24)) 24 key value =
        i.live (m.slots r.entries.toNat 24 key.toNat value.toNat index count) :=
      livePairs_bytes keyed valued _ _ _
    have rest := ih (m.bytes (r.entries.toNat + index * 24) (count * 24)) (by omega)
    rw [batch, take_batches, ← live_append] at rest
    rw [batch, left, ByteMap.slots_add]
    exact rest
  | case3 index found done =>
    rw [readEntries, dif_neg done]
    apply ensures_pure
    by_cases ended : r.bound.toNat ≤ index
    · have none : i.live (m.slots r.entries.toNat 24 key.toNat value.toNat index 0) = [] := rfl
      rw [Nat.sub_eq_zero_of_le ended, none, List.take_nil, List.append_nil]
    · rw [Nat.sub_eq_zero_of_le (show i.limit.toNat ≤ found.length by omega), List.take_zero,
        List.append_nil]

end Entries

/-- What the table behind a hash says of its entries. -/
theorem entryRange_ok {v : Value} {r : EntryRange} (type : v.type = .table)
    (whole : 56 ≤ v.bytes.length) (said : entryRange v = .ok r) :
    r.size = v.bytes.wordAt 16 ∧ r.start = v.bytes.wordAt 32 ∧ r.bound = v.bytes.wordAt 40 ∧
      r.entries = v.bytes.wordAt 48 := by
  have stored (field : String) {l : Layout} (offset : UInt64)
      (placed : Layout.table.member? field = some (offset, l)) (size : l.size = 8)
      (inside : offset.toNat + 8 ≤ 56) :
      v.unsignedMember field = .ok (v.bytes.wordAt offset.toNat) :=
    Value.unsignedMember_inside (type ▸ placed) size (Nat.le_trans inside whole)
  unfold entryRange at said
  rw [stored "num_entries" 16 rfl rfl (by decide), stored "entries_start" 32 rfl rfl (by decide),
    stored "entries_bound" 40 rfl rfl (by decide), stored "entries" 48 rfl rfl (by decide)] at said
  cases allocated : v.unsignedMember "entry_power" with
  | error e => rw [allocated] at said; cases said
  | ok power => rw [allocated] at said; cases said; exact ⟨rfl, rfl, rfl, rfl⟩

section Hash
variable (layouts : i.target.layout = Registry.standard.lookup) (still : i.target.Shows m)
include layouts still

theorem decodeEntries_still (o : HeapObject) {v : Value} (address : Nat) (type : v.type = .table)
    (bytes : v.bytes = m.bytes (address + 24) 56) :
    Ensures (i.decodeEntries o v) fun e => e.1 = i.recordedSize m address .entries ∧
      e.2 = (i.liveSlots m address .entries).take i.limit.toNat := by
  unfold decodeEntries
  refine ensures_after_access fun r said => ?_
  have whole : 56 ≤ v.bytes.length := Nat.le_of_eq (by rw [bytes, m.length_bytes])
  obtain ⟨size, start, bound, entries⟩ := entryRange_ok type whole said
  rw [bytes, m.wordAt_bytes _ (by decide), Nat.add_assoc] at size start bound entries
  split
  · next possible =>
    refine ensures_after_access fun l named => ?_
    cases named.symm.trans (layout_standard layouts rfl)
    refine ensures_after_access fun key placed => ?_
    obtain rfl : 8 = key := Except.ok.inj placed
    refine ensures_after_access fun value placed => ?_
    obtain rfl : 16 = value := Except.ok.inj placed
    apply ensures_bind (readEntries_still still possible (by decide) (by decide) _ _ _
      (Nat.le_refl _))
    rintro pairs rfl
    apply ensures_pure
    refine ⟨size, ?_⟩
    rw [start, bound, entries]
    rfl
  · exact ensures_fail _

omit layouts in
/-- The object is that at the same address, with the header that memory holds there. -/
theorem readObject_still {type : String} {l : Layout} (named : i.target.layout type = .ok l)
    (leads : l.member? "basic.flags" = some (0, .value)) (o : HeapObject) (hint : UInt64)
    (extent : Value → Header → Except InspectError UInt64) :
    Ensures (i.readObject o type hint extent) fun r =>
      r.object.header.flags = m.word o.address.toNat ∧
        ∃ size, r.bytes = m.bytes o.address.toNat size := by
  constructor
  intro trace r after run
  have reread := (readObject_ensures_reread o type hint extent).result _ _ _ run
  obtain ⟨before, size, -, slot, -⟩ := readObject_ok run
  obtain ⟨l', own, known, part, fields⟩ := slot.fields
  cases named.symm.trans known
  have bytes := still _ _ _ _ slot.answer
  have header := slot.header
  rw [fields] at header
  obtain ⟨long, flags⟩ := Header.flags_of_front leads header
  rw [reread.2] at bytes
  rw [bytes] at part
  obtain rfl := m.slice?_bytes part
  rw [m.length_bytes] at long
  rw [m.take_bytes _ long, Nat.add_zero] at flags
  exact ⟨flags, _, bytes⟩

theorem decodeHash_still (o : HeapObject) :
    Ensures (i.decodeHash o) fun v => v.kind = i.tableKind m o.address.toNat ∧
      v.size = i.recordedSize m o.address.toNat v.kind ∧
      v.pairs = (i.liveSlots m o.address.toNat v.kind).take i.limit.toNat := by
  unfold decodeHash
  refine ensures_after_access fun own named => ?_
  cases named.symm.trans (layout_standard layouts Registry.lookup_hash)
  refine ensures_after_access fun table named => ?_
  cases named.symm.trans (layout_standard layouts Registry.lookup_table)
  refine ensures_after_access fun p known => ?_
  cases known.symm.trans (pairLayout_standard layouts)
  apply ensures_after
  intro hint
  apply ensures_bind
    (readObject_still still (layout_standard layouts Registry.lookup_hash) rfl o _ _)
  rintro r ⟨flags, size, bytes⟩
  apply ensures_after
  intro default
  apply ensures_after
  intro place
  dsimp only
  rw [flags]
  split
  · next large =>
    refine ensures_after_lift fun inline inside => ?_
    have part := r.inline_ok inside
    rw [bytes] at part
    obtain rfl := m.slice?_bytes part
    apply ensures_bind (decodeEntries_still layouts still r.object o.address.toNat rfl rfl)
    rintro ⟨size, pairs⟩ ⟨rfl, rfl⟩
    exact ensures_pure ⟨(if_pos large).symm, rfl, rfl⟩
  · next small =>
    refine ensures_after_lift fun counts counted => ?_
    obtain ⟨sized, bounded, few⟩ := pairCounts_ok counted
    refine ensures_after_lift fun inline inside => ?_
    have part := r.inline_ok inside
    rw [bytes] at part
    obtain rfl := m.slice?_bytes part
    have product : (counts.2 * 16).toNat = counts.2.toNat * 16 := by
      have eight : counts.2.toNat ≤ 8 := UInt64.le_iff_toNat_le.mp few
      exact (toNat_mul_eq_iff _ 16).mpr (show counts.2.toNat * 16 < 2 ^ 64 by omega)
    have row : i.livePairs (m.bytes (o.address.toNat + 32) (counts.2 * 16).toNat) 16 0 8 =
        i.live (m.slots (o.address.toNat + 32) 16 0 8 0 counts.2.toNat) := by
      rw [product]
      exact livePairs_bytes (by decide) (by decide) _ 0 _
    refine ensures_pure ⟨(if_neg small).symm, sized, ?_⟩
    rw [liveSlots, usedSlots, ← bounded, ← row]
    rfl

end Hash

theorem decodeObject_hash {o : HeapObject} {v : TableView} {trace after : Trace}
    (run : i.decodeObject o trace = (.ok (.hash v), after)) :
    i.decodeHash o trace = (.ok v, after) := by
  unfold decodeObject at run
  cases known : o.type with
  | none => rw [known] at run; cases run
  | some kind =>
    rw [known] at run
    cases kind with
    | hash =>
      obtain ⟨shown, later, decoded, run⟩ := bind_ok run
      cases run
      exact decoded
    | string | array | record | float | bignum | symbol =>
      obtain ⟨shown, later, decoded, run⟩ := bind_ok run
      cases run
    | _ => cases run

/-- In memory that does not change, a hash shows the live entries of the slots in use, in their
order and up to the limit. If there are as many of them as the table says, then all that the limit
left out are counted as omitted. -/
theorem interpret_live_slots {word : UInt64} {trace after : Trace} {v : TableView}
    (layouts : i.target.layout = Registry.standard.lookup) (still : i.target.Shows m)
    (run : i.interpret word trace = (.ok (.hash v), after)) :
    v.kind = i.tableKind m word.toNat ∧
      v.size = i.recordedSize m word.toNat v.kind ∧
      v.pairs = (i.liveSlots m word.toNat v.kind).take i.limit.toNat ∧
      (v.size.toNat = (i.liveSlots m word.toNat v.kind).length →
        v.pairs.length = min v.size.toNat i.limit.toNat ∧
          v.omitted + v.pairs.length = v.size.toNat) := by
  obtain ⟨o, middle, classified, decoded, -⟩ := interpret_object run rfl
  have place : o.address = word := classifyObject_address layouts classified
  obtain ⟨kind, size, pairs⟩ :=
    (decodeHash_still layouts still o).result _ _ _ (decodeObject_hash decoded)
  rw [place] at kind size pairs
  refine ⟨kind, size, pairs, fun all => ?_⟩
  have shown : v.pairs.length = min v.size.toNat i.limit.toNat := by
    rw [pairs, List.length_take, ← all, Nat.min_comm]
  exact ⟨shown, Nat.sub_add_cancel (by omega)⟩

/-- A hash with four slots in use, the first of them deleted. -/
def scannedWords : List UInt64 :=
  [32776, 17, 4, 2, 0, 3, 0, 0, 4, 80, 0, 36, 0, 0, 3, 5, 0, 7, 9, 0, 11, 13]

/-- Two live entries are wanted. The first batch has one of them, the second one has the other
and one too many. -/
def scanned : Inspector := { ofWords scannedWords with limit := 2 }

def scannedView : TableView :=
  ⟨⟨176, ⟨176, 32776, 17⟩, 8, some .hash⟩, 3, .entries, 200, 4, [(3, 5), (7, 9)]⟩

theorem scanned_live_slots :
    scanned.interpret 176 #[] =
        (.ok (.hash scannedView), #[⟨176, 16⟩, ⟨176, 80⟩, ⟨80, 48⟩, ⟨128, 48⟩]) ∧
      ∃ m : ByteMap, scanned.target.Shows m ∧
        scanned.liveSlots m 176 .entries = [(3, 5), (7, 9), (11, 13)] ∧
        scannedView.pairs = (scanned.liveSlots m 176 .entries).take 2 ∧
        scannedView.omitted + scannedView.pairs.length = 3 := by
  have run : scanned.interpret 176 #[] =
      (.ok (.hash scannedView), #[⟨176, 16⟩, ⟨176, 80⟩, ⟨80, 48⟩, ⟨128, 48⟩]) := by
    decide +kernel
  have still : scanned.target.Shows (.repeating (scannedWords.flatMap Bytes.ofWord)) :=
    patternTarget_shows _ _
  have live : scanned.liveSlots (.repeating (scannedWords.flatMap Bytes.ofWord)) 176 .entries =
      [(3, 5), (7, 9), (11, 13)] := by
    decide +kernel
  have layouts : scanned.target.layout = Registry.standard.lookup := patternTarget_layout _ _
  obtain ⟨-, -, pairs, all⟩ := interpret_live_slots layouts still run
  exact ⟨run, _, still, live, pairs, (all (congrArg List.length live).symm).2⟩

end Inspector
end HeapLens
