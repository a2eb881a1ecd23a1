import HeapLens.Proofs.Target.ByteMap
import HeapLens.Proofs.View.ReadBounds
import HeapLens.Proofs.View.TypeTag

/-!
Room for inline data. A decoder finds the size of a slot before its first read, again from what it
read, and cuts the inline data out of the result. Main statement: these agree, so the data is there
whatever memory says, as long as the limit leaves sizes that do not wrap around; and in memory that
does not change a second read of a slot is long enough.
-/
namespace HeapLens
open Run

namespace Run

theorem ensures_run {σ α : Type} (x : Run σ α) : Ensures x fun a => ∃ s t, x s = (.ok a, t) where
  result s _ t run := ⟨s, t, run⟩

end Run

/-- Errors other than two: inline data never lies outside of what was read, and an object grows
between two reads only if `grows` admits it. -/
def InspectError.Remains (grows : Prop) : InspectError → Prop
  | .corrupt _ (.inlineOutside _ _) => False
  | .corrupt _ .objectGrew => grows
  | _ => True

theorem blames_remains {α : Type} {grows : Prop} (x : Except AccessError α) :
    Blames (liftM x : Except InspectError α) (InspectError.Remains grows) := by
  cases x with
  | error cause => exact blames_error trivial
  | ok a => exact blames_ok a

/-- The computation reads what it likes and fails with the errors that remain. -/
abbrev Guarded (grows : Prop) {α : Type} (x : Probe α) : Prop :=
  Confined x (fun _ => True) (InspectError.Remains grows)

/-- A longer read at the same address extends a shorter one, whichever of them was made first. -/
def Target.Steady (t : Target) : Prop :=
  ∀ n m address size more short long, size < more → t.memory n address size = .ok short →
    t.memory m address more = .ok long → short <+: long

theorem Target.Shows.steady {t : Target} {m : ByteMap} (still : t.Shows m) : t.Steady := by
  intro n later address size more short long less found extended
  rw [still _ _ _ _ found, still _ _ _ _ extended,
    ← m.take_bytes address.toNat (Nat.le_of_lt (UInt64.lt_iff_toNat_lt.mp less))]
  exact List.take_prefix _ _

namespace ObjectRead

/-- As many bytes were read as the fields in them call for. -/
def Room (extent : Value → Header → Except InspectError UInt64) (r : ObjectRead) : Prop :=
  ∃ needed, extent r.fields r.object.header = .ok needed ∧ needed.toNat ≤ r.bytes.length

variable {r q : ObjectRead} {extent : Value → Header → Except InspectError UInt64}
  {E : InspectError → Prop}

/-- Inline data up to the end of what the fields call for was read. -/
theorem Room.inline_blames {offset length : UInt64} (room : r.Room extent)
    (sized : extent r.fields r.object.header = .ok (offset + length))
    (whole : offset.toNat + length.toNat < UInt64.size) : Blames (r.inline offset length) E := by
  obtain ⟨needed, called, enough⟩ := room
  cases sized.symm.trans called
  have sum : (offset + length).toNat = offset.toNat + length.toNat := by
    rw [UInt64.toNat_add]
    exact Nat.mod_eq_of_lt whole
  rw [sum] at enough
  unfold ObjectRead.inline
  rw [Bytes.slice?_inside enough]
  exact blames_ok _

/-- A row of words behind two header words, no more of them than a limit that is not huge. -/
theorem Room.row_blames {count limit : UInt64} (room : r.Room extent)
    (few : limit.toNat < 2 ^ 60) (counted : count ≤ limit)
    (sized : extent r.fields r.object.header = .ok (16 + count * 8)) :
    Blames (r.inline 16 (count * 8)) E := by
  have words := words_le counted
  have two : (16 : UInt64).toNat = 16 := rfl
  have space : UInt64.size = 2 ^ 64 := rfl
  exact room.inline_blames sized (by omega)

theorem Room.words_blames {count limit : UInt64} (room : r.Room extent)
    (few : limit.toNat < 2 ^ 60) (counted : count ≤ limit)
    (sized : extent r.fields r.object.header = .ok (16 + count * 8)) :
    Blames (r.inlineWords 16 count) E :=
  blames_bind (room.row_blames few counted sized) fun _ _ => blames_ok _

theorem addressAt_remains (r : ObjectRead) {grows : Prop} (offset : UInt64) :
    Blames (r.addressAt offset) (InspectError.Remains grows) := by
  unfold addressAt
  split
  · exact blames_ok _
  · exact blames_error trivial

/-- In steady memory a longer read of a slot finds the same fields. -/
theorem FromSlot.same_fields {t : Target} {type : String} {before later : Trace}
    {size more : UInt64} (steady : t.Steady) (less : size < more)
    (short : r.FromSlot t type before size) (long : q.FromSlot t type later more)
    (place : r.object.address = q.object.address) :
    r.fields = q.fields ∧ r.object.header = q.object.header := by
  obtain ⟨l, own, named, part, fields⟩ := short.fields
  obtain ⟨l', own', named', part', fields'⟩ := long.fields
  cases named.symm.trans named'
  obtain ⟨inside, rfl⟩ := Bytes.slice?_front part
  obtain ⟨-, rfl⟩ := Bytes.slice?_front part'
  have answer := long.answer
  rw [← place] at answer
  obtain ⟨rest, extended⟩ := steady _ _ _ _ _ _ _ less short.answer answer
  have same : r.fields = q.fields := by
    rw [fields, fields', ← extended, List.take_append_of_le_length inside, place]
  have header := long.header
  rw [← same] at header
  exact ⟨same, Except.ok.inj (short.header.symm.trans header)⟩

end ObjectRead

namespace Inspector

section Slot
variable {i : Inspector} {o : HeapObject} {type : String} {l : Layout}
  {extent : Value → Header → Except InspectError UInt64} {before : Trace}

theorem readSlot_ensures_room (size : UInt64) :
    Ensures (i.readSlot o l extent size)
      (Sum.elim (ObjectRead.Room extent) fun _ => True) := by
  unfold readSlot
  apply ensures_after
  intro bytes
  split
  · exact ensures_fail _
  · refine ensures_after_access fun header _ => ?_
    refine ensures_after_lift fun needed sized => ?_
    split
    · next enough => exact ensures_pure ⟨needed, sized, enough⟩
    · exact ensures_pure trivial

theorem readObject_ensures_room (hint : UInt64) :
    Ensures (i.readObject o type hint extent) (ObjectRead.Room extent) := by
  unfold readObject
  apply ensures_after
  intro l
  apply ensures_bind (readSlot_ensures_room _)
  rintro (r | needed) first
  · exact ensures_pure first
  · apply ensures_bind (readSlot_ensures_room _)
    rintro (r | more) second
    · exact ensures_pure second
    · exact ensures_fail _

/-- The size that the first read called for is the one that the second read calls for. -/
theorem readSlot_again {size needed more : UInt64} {middle later after : Trace}
    (exact : i.target.Exact) (steady : i.target.Steady) (named : i.target.layout type = .ok l)
    (first : i.readSlot o l extent size before = (.ok (.inr needed), middle)) :
    i.readSlot o l extent needed later ≠ (.ok (.inr more), after) := by
  intro second
  obtain ⟨r, short, place, sized, less⟩ := readSlot_short named first
  obtain ⟨q, long, place', sized', grown⟩ := readSlot_short named second
  rw [exact _ _ _ _ short.answer] at less
  rw [exact _ _ _ _ long.answer] at grown
  obtain ⟨fields, header⟩ := short.same_fields steady (UInt64.lt_iff_toNat_lt.mpr less) long
    (place.trans place'.symm)
  rw [← fields, ← header] at sized'
  cases sized.symm.trans sized'
  exact Nat.lt_irrefl _ grown

variable {grows : Prop}

theorem readObject_guarded (still : grows ∨ i.target.Exact ∧ i.target.Steady) (hint : UInt64)
    (sized : ∀ fields header, Blames (extent fields header) (InspectError.Remains grows)) :
    Guarded grows (i.readObject o type hint extent) := by
  have slot {l : Layout} (named : i.target.layout type = .ok l) (size : UInt64) :
      Guarded grows (i.readSlot o l extent size) :=
    i.readSlot_confined lasting_true (fun _ _ => trivial) o (Target.lays_of_layout named)
      (fun fields header _ => sized fields header) size
  unfold readObject
  refine confined_bind_access (fun _ _ => trivial) fun l named => ?_
  apply confined_bind_of (slot named _) (ensures_run _)
  rintro (r | needed) ⟨before, middle, first⟩
  · exact confined_pure r
  · apply confined_bind_of (slot named _) (ensures_run _)
    rintro (r | more) ⟨later, after, second⟩
    · exact confined_pure r
    · apply confined_fail
      rcases still with grown | ⟨exact, steady⟩
      · exact grown
      · exact absurd second (readSlot_again exact steady named first)

end Slot

section Decoders
variable {i : Inspector} {grows : Prop} (still : grows ∨ i.target.Exact ∧ i.target.Steady)

theorem classify_guarded (word : UInt64) : Guarded grows (i.classify word) := by
  unfold Inspector.classify HeapLens.classify
  split
  · exact confined_pure _
  · refine confined_guard trivial ?_
    exact confined_bind (classifyObject_confined i.target lasting_true (fun _ _ => trivial) _ word)
      fun o => confined_pure _

theorem read_guarded (address size : UInt64) : Guarded grows (i.target.read address size) :=
  i.target.read_confined lasting_true (fun _ _ => trivial) address size

theorem readWords_guarded (address count : UInt64) : Guarded grows (i.readWords address count) := by
  unfold readWords
  refine confined_ite (confined_pure _) (confined_guard trivial ?_)
  exact confined_bind (read_guarded _ _) fun bytes => confined_pure _

theorem readEntries_guarded (address : UInt64) (r : EntryRange) (stride key value : UInt64)
    (index : Nat) (found : List (UInt64 × UInt64)) :
    Guarded grows (i.readEntries address r stride key value index found) := by
  induction index, found using readEntries.induct i r stride key value with
  | case1 index found more start outside =>
    rw [readEntries, dif_pos more]
    dsimp only
    rw [if_pos outside]
    exact confined_fail trivial
  | case2 index found more count start inside ih =>
    rw [readEntries, dif_pos more]
    dsimp only
    rw [if_neg inside]
    exact confined_bind (read_guarded _ _) ih
  | case3 index found done =>
    rw [readEntries, dif_neg done]
    exact confined_pure _

theorem decodeEntries_guarded (o : HeapObject) (table : Value) :
    Guarded grows (i.decodeEntries o table) := by
  unfold decodeEntries
  refine confined_bind_access (fun _ _ => trivial) fun range _ => ?_
  refine confined_ite ?_ (confined_fail trivial)
  refine confined_bind_access (fun _ _ => trivial) fun entry _ => ?_
  refine confined_bind_access (fun _ _ => trivial) fun key _ => ?_
  refine confined_bind_access (fun _ _ => trivial) fun value _ => ?_
  exact confined_bind (readEntries_guarded _ _ _ _ _ _ _) fun pairs => confined_pure _

theorem stringExtent_remains (offset : UInt64) (fields : Value) (header : Header) :
    Blames (i.stringExtent offset fields header) (InspectError.Remains grows) := by
  unfold stringExtent
  split
  · exact blames_bind (blames_remains _) fun length _ => blames_ok _
  · exact blames_ok _

theorem pairCounts_remains (p : PairLayout) (address flags : UInt64) :
    Blames (i.pairCounts p address flags) (InspectError.Remains grows) := by
  unfold pairCounts
  dsimp only
  split
  · exact blames_error trivial
  · exact blames_ok _

/-- The address is only named in the error. -/
theorem pairCounts_elsewhere {p : PairLayout} {address other flags : UInt64}
    {counts : UInt64 × UInt64} (counted : i.pairCounts p address flags = .ok counts) :
    i.pairCounts p other flags = .ok counts := by
  unfold pairCounts at counted ⊢
  dsimp only at counted ⊢
  split at counted
  · cases counted
  · next few => rwa [if_neg few]

theorem hashExtent_remains (p : PairLayout) (own table address flags : UInt64) :
    Blames (i.hashExtent p own table address flags) (InspectError.Remains grows) := by
  unfold hashExtent
  split
  · exact blames_ok _
  · exact blames_bind (pairCounts_remains _ _ _) fun counts _ => blames_ok _

include still

/-- What follows the slot of an object can rely on what its fields call for. -/
theorem slot_then_guarded {α : Type} {o : HeapObject} {type : String} {hint : UInt64}
    {extent : Value → Header → Except InspectError UInt64} {f : ObjectRead → Probe α}
    (sized : ∀ fields header, Blames (extent fields header) (InspectError.Remains grows))
    (next : ∀ r : ObjectRead, r.Room extent → Guarded grows (f r)) :
    Guarded grows (i.readObject o type hint extent >>= f) :=
  confined_bind_of (readObject_guarded still hint sized) (readObject_ensures_room hint) next

/-- The same for fields without inline data. -/
theorem fields_then_guarded {α : Type} {o : HeapObject} {type : String}
    {f : ObjectRead → Probe α} (next : ∀ r, Guarded grows (f r)) :
    Guarded grows (i.readFields o type >>= f) :=
  slot_then_guarded still (fun _ _ => blames_ok _) fun r _ => next r

variable (layouts : i.target.layout = Registry.standard.lookup) (few : i.limit.toNat < 2 ^ 60)
  (o : HeapObject)

theorem decodeFloat_guarded : Guarded grows (i.decodeFloat o) := by
  unfold decodeFloat
  refine fields_then_guarded still fun r => ?_
  exact confined_bind_access (fun _ _ => trivial) fun value _ => confined_pure _

include layouts few

theorem decodeArray_guarded : Guarded grows (i.decodeArray o) := by
  unfold decodeArray
  refine confined_bind_access (fun _ _ => trivial) fun offset placed => ?_
  cases placed.symm.trans (offsetOf_standard layouts Registry.lookup_array rfl)
  refine slot_then_guarded still (fun _ _ => blames_ok _) fun r room => ?_
  dsimp only
  split
  · next inside =>
    have row : i.arrayExtent 16 r.object.header.flags =
        16 + min (i.arrayLength r.object.header.flags) i.limit * 8 := if_pos inside
    refine confined_bind (confined_lift ?_) fun ws => confined_pure _
    exact room.words_blames few Std.min_le_right (congrArg Except.ok row)
  · refine confined_bind_access (fun _ _ => trivial) fun length _ => confined_guard trivial ?_
    refine confined_bind_access (fun _ _ => trivial) fun pointer _ => confined_guard trivial ?_
    exact confined_bind (readWords_guarded _ _) fun ws => confined_pure _

theorem decodeRecord_guarded : Guarded grows (i.decodeRecord o) := by
  unfold decodeRecord
  refine confined_bind_access (fun _ _ => trivial) fun offset placed => ?_
  cases placed.symm.trans (offsetOf_standard layouts Registry.lookup_struct rfl)
  refine slot_then_guarded still (fun _ _ => blames_ok _) fun r room => ?_
  dsimp only
  split
  · refine confined_bind_access (fun _ _ => trivial) fun length _ => confined_guard trivial ?_
    refine confined_bind_access (fun _ _ => trivial) fun pointer _ => ?_
    exact confined_bind (readWords_guarded _ _) fun ws => confined_pure _
  · next inside =>
    have row : i.recordExtent 16 r.object.header.flags =
        16 + min (i.recordLength r.object.header.flags) i.limit * 8 := if_neg inside
    refine confined_bind (confined_lift ?_) fun ws => confined_pure _
    exact room.words_blames few Std.min_le_right (congrArg Except.ok row)

theorem decodeBignum_guarded : Guarded grows (i.decodeBignum o) := by
  unfold decodeBignum
  refine confined_bind_access (fun _ _ => trivial) fun offset placed => ?_
  cases placed.symm.trans (offsetOf_standard layouts Registry.lookup_bignum rfl)
  refine confined_bind_access (fun _ _ => trivial) fun digit named => ?_
  cases named.symm.trans (layout_standard layouts Registry.lookup_bigDigit)
  refine slot_then_guarded still (fun _ _ => blames_ok _) fun r room => ?_
  dsimp only
  split
  · next inside =>
    split
    · next short =>
      have row : i.bignumExtent 16 8 r.object.header.flags =
          16 + i.bignumLength r.object.header.flags * 8 :=
        if_pos (Bool.and_eq_true_iff.mpr ⟨inside, decide_eq_true short⟩)
      refine confined_bind (confined_lift ?_) fun bytes => confined_pure _
      exact room.row_blames few short (congrArg Except.ok row)
    · exact confined_pure _
  · refine confined_bind_access (fun _ _ => trivial) fun length _ => ?_
    refine confined_bind_access (fun _ _ => trivial) fun digits _ => confined_guard trivial ?_
    refine confined_ite (confined_pure _) (confined_ite ?_ (confined_pure _))
    exact confined_bind (read_guarded _ _) fun bytes => confined_pure _

omit few

theorem decodeString_guarded : Guarded grows (i.decodeString o) := by
  unfold decodeString
  refine confined_bind_access (fun _ _ => trivial) fun offset placed => ?_
  cases placed.symm.trans (offsetOf_standard layouts Registry.lookup_string rfl)
  refine slot_then_guarded still (stringExtent_remains _) fun r room => ?_
  refine confined_bind_access (fun _ _ => trivial) fun length counted => ?_
  by_cases negative : length < 0
  · rw [if_pos negative]
    exact confined_fail trivial
  rw [if_neg negative]
  dsimp only
  split
  · next inside =>
    have sized : i.stringExtent 24 r.fields r.object.header =
        .ok (24 + min length.toUInt64 previewBytes) := by
      unfold stringExtent
      rw [if_pos inside, counted]
      exact congrArg (fun n => Except.ok (24 + min n previewBytes)) (if_neg negative)
    have small := min_limit_le length.toUInt64 previewBytes
    refine confined_bind (confined_lift (room.inline_blames sized ?_)) fun _ => confined_pure _
    exact Nat.lt_of_le_of_lt (Nat.add_le_add_left small _) (by decide)
  · refine confined_bind_access (fun _ _ => trivial) fun pointer _ => confined_guard trivial ?_
    refine confined_ite (confined_pure _) ?_
    exact confined_bind (read_guarded _ _) fun bytes => confined_pure _

theorem stringBytes_guarded (word : UInt64) : Guarded grows (i.stringBytes word) := by
  unfold stringBytes
  refine confined_bind (classify_guarded word) fun c => ?_
  cases c with
  | immediate => exact confined_pure _
  | heap o =>
    refine confined_ite ?_ (confined_pure _)
    exact confined_bind (decodeString_guarded still layouts o) fun v => confined_pure _

theorem decodeSymbol_guarded : Guarded grows (i.decodeSymbol o) := by
  unfold decodeSymbol
  refine fields_then_guarded still fun r => ?_
  refine confined_bind_access (fun _ _ => trivial) fun id _ => ?_
  refine confined_bind_access (fun _ _ => trivial) fun name _ => ?_
  refine confined_bind (confined_attempt (stringBytes_guarded still layouts name)) fun text => ?_
  cases text with
  | ok => exact confined_pure _
  | error => exact confined_pure _

theorem decodeHash_guarded : Guarded grows (i.decodeHash o) := by
  unfold decodeHash
  refine confined_bind_access (fun _ _ => trivial) fun own named => ?_
  cases named.symm.trans (layout_standard layouts Registry.lookup_hash)
  refine confined_bind_access (fun _ _ => trivial) fun table named => ?_
  cases named.symm.trans (layout_standard layouts Registry.lookup_table)
  refine confined_bind_access (fun _ _ => trivial) fun p rows => ?_
  cases rows.symm.trans (pairLayout_standard layouts)
  refine confined_bind (confined_lift (hashExtent_remains _ _ _ _ _)) fun hint => ?_
  refine slot_then_guarded still (fun _ _ => hashExtent_remains _ _ _ _ _) fun r room => ?_
  refine confined_bind_access (fun _ _ => trivial) fun default _ => ?_
  refine confined_bind (confined_lift (r.addressAt_remains _)) fun address => ?_
  dsimp only
  split
  · next large =>
    refine confined_bind (confined_lift (room.inline_blames (if_pos large) ?_)) fun inline => ?_
    · decide
    · exact confined_bind (decodeEntries_guarded _ _) fun found => confined_pure _
  · next small =>
    refine confined_bind_of (confined_lift (pairCounts_remains _ _ _))
      (ensures_lift fun _ counted => counted) fun counts counted => ?_
    have sized : i.hashExtent ⟨8, 16, 0, 8, 8⟩ 24 56 o.address r.object.header.flags =
        .ok (32 + counts.2 * 16) := by
      unfold hashExtent
      rw [if_neg small, pairCounts_elsewhere counted]
      rfl
    have few : counts.2.toNat ≤ 8 := UInt64.le_iff_toNat_le.mp (pairCounts_ok counted).2.2
    have product : (counts.2 * 16).toNat ≤ counts.2.toNat * 16 := toNat_mul_le counts.2 16
    have space : UInt64.size = 2 ^ 64 := rfl
    refine confined_bind (confined_lift (room.inline_blames sized ?_)) fun bytes => confined_pure _
    change 32 + (counts.2 * 16).toNat < UInt64.size
    omega

include few

theorem decodeObject_guarded : Guarded grows (i.decodeObject o) := by
  have shown {α : Type} {x : Probe α} (decoded : Guarded grows x) (view : α → View) :
      Guarded grows (do return view (← x)) := confined_bind decoded fun v => confined_pure _
  unfold decodeObject
  cases o.type with
  | none => exact confined_pure _
  | some kind =>
    cases kind with
    | string => exact shown (decodeString_guarded still layouts o) _
    | array => exact shown (decodeArray_guarded still layouts few o) _
    | hash => exact shown (decodeHash_guarded still layouts o) _
    | record => exact shown (decodeRecord_guarded still layouts few o) _
    | float => exact shown (decodeFloat_guarded still o) _
    | bignum => exact shown (decodeBignum_guarded still layouts few o) _
    | symbol => exact shown (decodeSymbol_guarded still layouts o) _
    | _ => exact confined_pure _

theorem interpret_guarded (word : UInt64) : Guarded grows (i.interpret word) := by
  unfold interpret
  refine confined_bind (classify_guarded word) fun c => ?_
  cases c with
  | immediate => exact confined_pure _
  | heap o => exact decodeObject_guarded still layouts few o

end Decoders
end Inspector
end HeapLens
