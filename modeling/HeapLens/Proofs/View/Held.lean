import HeapLens.Proofs.View.ReadBounds
import HeapLens.Proofs.Word.Bytes

/-!
Objects in memory that holds still. Where every read of a range gives the bytes of it, whenever it
is made, interpretation finds the object that these bytes spell: its header, its fields and its
inline data are those of the slot, and a slot of the right size is read without failing.
-/
namespace HeapLens
open Run

/-- Every read at the address that ends within the bytes gives the front of them. -/
def Target.Holds (t : Target) (address : UInt64) (bytes : Bytes) : Prop :=
  ∀ n (size : UInt64), size.toNat ≤ bytes.length →
    t.memory n address size = .ok (bytes.take size.toNat)

theorem Target.Holds.read {t : Target} {address size : UInt64} {bytes : Bytes}
    (held : t.Holds address bytes) (inside : size.toNat ≤ bytes.length) (trace : Trace) :
    Yields (t.read address size) trace (· = bytes.take size.toNat) := by
  refine yields_of_run (t := trace.push ⟨address, size⟩) ?_ rfl
  rw [Target.read_apply, held _ _ inside]
  rfl

/-- A word refers to an object of a type, and its slot stays as it is. -/
structure Target.HoldsObject (t : Target) (word : UInt64) (type : ValueType) (slot : Bytes) :
    Prop where
  aligned : Aligned word
  held : t.Holds word slot
  long : 40 ≤ slot.length
  tagged : slot.wordAt 0 &&& 0x1f = type.defaultTag

/-- The object that a slot spells. -/
def HeapObject.ofSlot (word : UInt64) (type : ValueType) (slot : Bytes) : HeapObject :=
  ⟨word, ⟨word, slot.wordAt 0, slot.wordAt 8⟩, type.defaultTag, some type⟩

theorem Constants.typeOf_defaultTag (type : ValueType) :
    Constants.default.typeOf type.defaultTag = some type := by
  cases type <;> rfl

namespace Inspector
variable {i : Inspector} {word : UInt64} {type : ValueType} {slot : Bytes}

theorem classify_held (layouts : i.target.layout = Registry.standard.lookup)
    (constants : i.constants = .default) (object : i.target.HoldsObject word type slot)
    (trace : Trace) :
    i.classify word trace = (.ok (.heap (.ofSlot word type slot)), trace.push ⟨word, 16⟩) := by
  have sixteen : (16 : UInt64).toNat = 16 := rfl
  have long := object.long
  have none := (ofWord?_none_iff_aligned_or_stray word).mpr (.inl object.aligned)
  have read := object.held trace.size 16 (by omega)
  have tag : slot.wordAt 0 &&& Constants.default.get .typeMask = type.defaultTag := object.tagged
  have classified := classify_readable layouts none object.aligned.2 read (by
    rw [List.length_take]
    omega)
  rw [sixteen, Bytes.wordAt_take _ (by omega), Bytes.wordAt_take _ (by omega), tag,
    Constants.typeOf_defaultTag] at classified
  rw [classify, constants]
  exact classified

theorem interpret_held (layouts : i.target.layout = Registry.standard.lookup)
    (constants : i.constants = .default) (object : i.target.HoldsObject word type slot)
    {Q : View → Prop} {trace : Trace}
    (decoded : ∀ later, Yields (i.decodeObject (.ofSlot word type slot)) later Q) :
    Yields (i.interpret word) trace Q := by
  have classified := classify_held layouts constants object trace
  apply yields_bind (yields_of_run classified rfl)
  rintro _ later rfl
  exact decoded later

/-! Reading the slot. -/

/-- A record whose layout fits the smallest slots and begins with a header. -/
structure Framed (l : Layout) : Prop where
  small : l.size.toNat ≤ 40
  sixteen : 16 ≤ l.size.toNat
  flags : l.member? "basic.flags" = some (0, .value)
  klass : l.member? "basic.klass" = some (8, .value)

/-- The fields of an object in its slot. -/
def fieldsOf (l : Layout) (word : UInt64) (slot : Bytes) : Value :=
  ⟨l, slot.take l.size.toNat, some word⟩

theorem header_fieldsOf {l : Layout} (framed : Framed l) (word : UInt64)
    (long : l.size.toNat ≤ slot.length) :
    Header.ofValue (fieldsOf l word slot) = .ok ⟨word, slot.wordAt 0, slot.wordAt 8⟩ := by
  have sixteen := framed.sixteen
  have front : 16 ≤ (slot.take l.size.toNat).length := by
    rw [List.length_take]
    omega
  rw [fieldsOf, Header.ofValue_front framed.flags framed.klass front,
    Bytes.wordAt_take _ (by omega), Bytes.wordAt_take _ (by omega)]

section
variable {l : Layout} {extent : Value → Header → Except InspectError UInt64} {needed : UInt64}
  {o : HeapObject} (framed : Framed l) (held : i.target.Holds o.address slot)
  (sized : extent (fieldsOf l o.address slot) ⟨o.address, slot.wordAt 0, slot.wordAt 8⟩ =
    .ok needed)
include framed held sized

theorem readSlot_held (size : UInt64) (own : l.size.toNat ≤ size.toNat)
    (short : size.toNat ≤ slot.length) (trace : Trace) :
    Yields (i.readSlot o l extent size) trace
      (· = if needed.toNat ≤ size.toNat then
          .inl ⟨fieldsOf l o.address slot,
            o.withHeader ⟨o.address, slot.wordAt 0, slot.wordAt 8⟩, slot.take size.toNat⟩
        else .inr needed) := by
  have cut : (slot.take size.toNat).length = size.toNat := List.length_take_of_le short
  have part : Bytes.slice? (slot.take size.toNat) 0 l.size.toNat =
      some (slot.take l.size.toNat) := by
    rw [Bytes.slice?_inside (by omega), List.drop_zero, List.take_take, Nat.min_eq_left own]
  have whole : l.size.toNat ≤ slot.length := by omega
  have parsed := header_fieldsOf framed o.address whole
  unfold readSlot
  apply yields_bind (held.read short trace)
  rintro _ later rfl
  rw [part]
  apply yields_after_access parsed
  apply yields_after_lift sized
  rw [cut]
  by_cases enough : needed.toNat ≤ size.toNat
  · rw [if_pos enough, if_pos enough]
    exact yields_pure rfl
  · rw [if_neg enough, if_neg enough]
    exact yields_pure rfl

/-- The slot is read once, or once more at the size that it turns out to need. -/
theorem readObject_held (long : 40 ≤ slot.length) {name : String} {hint : UInt64}
    (named : i.target.layout name = .ok l) (hinted : hint.toNat ≤ slot.length)
    (enough : needed.toNat ≤ slot.length) (trace : Trace) :
    Yields (i.readObject o name hint extent) trace fun r => ∃ size,
      r = ⟨fieldsOf l o.address slot, o.withHeader ⟨o.address, slot.wordAt 0, slot.wordAt 8⟩,
          slot.take size⟩ ∧
        needed.toNat ≤ size ∧ size ≤ slot.length := by
  have small := framed.small
  have larger : (max l.size hint).toNat = max l.size.toNat hint.toNat := UInt64.toNat_max _ _
  have own : l.size.toNat ≤ (max l.size hint).toNat := by omega
  unfold readObject
  apply yields_after_access named
  apply yields_bind (readSlot_held framed held sized _ own (by omega) trace)
  rintro _ later rfl
  by_cases fits : needed.toNat ≤ (max l.size hint).toNat
  · rw [if_pos fits]
    exact yields_pure ⟨_, rfl, fits, by omega⟩
  · rw [if_neg fits]
    apply yields_bind (readSlot_held framed held sized needed (by omega) enough later)
    rintro _ after rfl
    rw [if_pos (Nat.le_refl _)]
    exact yields_pure ⟨_, rfl, Nat.le_refl _, enough⟩

end

/-- A slot whose size is given by the flags. -/
theorem readRow_held {l : Layout} (framed : Framed l)
    (object : i.target.HoldsObject word type slot) {name : String}
    (named : i.target.layout name = .ok l) (size : UInt64 → UInt64)
    (enough : (size (slot.wordAt 0)).toNat ≤ slot.length) (trace : Trace) :
    Yields (i.readObject (.ofSlot word type slot) name (size (slot.wordAt 0))
        fun _ header => .ok (size header.flags)) trace fun r => ∃ read,
      r = ⟨fieldsOf l word slot, .ofSlot word type slot, slot.take read⟩ ∧
        (size (slot.wordAt 0)).toNat ≤ read ∧ read ≤ slot.length :=
  readObject_held framed object.held rfl object.long named enough enough trace

/-- Fields without anything behind them need no second read. -/
theorem readFields_once {l : Layout} (framed : Framed l) {name : String}
    (named : i.target.layout name = .ok l) {o : HeapObject} {trace : Trace}
    (read : i.target.memory trace.size o.address l.size = .ok slot)
    (long : l.size.toNat ≤ slot.length) :
    i.readFields o name trace =
      (.ok ⟨fieldsOf l o.address slot, o.withHeader ⟨o.address, slot.wordAt 0, slot.wordAt 8⟩,
        slot⟩, trace.push ⟨o.address, l.size⟩) := by
  have first : i.target.read o.address (max l.size 0) trace =
      (.ok slot, trace.push ⟨o.address, l.size⟩) := by
    have whole : max l.size 0 = l.size := by
      rw [← UInt64.toNat_inj, UInt64.toNat_max]
      exact Nat.max_eq_left (Nat.zero_le _)
    rw [whole, Target.read_apply, read]
    rfl
  have part : Bytes.slice? slot 0 l.size.toNat = some (slot.take l.size.toNat) := by
    rw [Bytes.slice?_inside (by omega), List.drop_zero]
  have slotRead : i.readSlot o l (fun _ _ => .ok 0) (max l.size 0) trace =
      (.ok (.inl ⟨fieldsOf l o.address slot,
        o.withHeader ⟨o.address, slot.wordAt 0, slot.wordAt 8⟩, slot⟩),
        trace.push ⟨o.address, l.size⟩) := by
    rw [readSlot, bind_at first, part]
    have parsed := header_fieldsOf framed o.address long
    rw [fieldsOf] at parsed
    dsimp only
    rw [parsed]
    rfl
  rw [readFields, readObject, named]
  exact bind_at slotRead

theorem unsignedMember_held {l member : Layout} {field : String} (offset : UInt64)
    (placed : l.member? field = some (offset, member)) (eight : member.size = 8)
    (inside : offset.toNat + 8 ≤ l.size.toNat) (long : l.size.toNat ≤ slot.length) :
    (fieldsOf l word slot).unsignedMember field = .ok (slot.wordAt offset.toNat) := by
  have cut : (slot.take l.size.toNat).length = l.size.toNat := List.length_take_of_le long
  rw [Value.unsignedMember_inside (v := fieldsOf l word slot) placed eight (by
    rw [fieldsOf, cut]
    exact inside), fieldsOf, Bytes.wordAt_take _ inside]

theorem signedMember_held {l member : Layout} {field : String} (offset : UInt64)
    (placed : l.member? field = some (offset, member)) (eight : member.size = 8)
    (inside : offset.toNat + 8 ≤ l.size.toNat) (long : l.size.toNat ≤ slot.length) :
    (fieldsOf l word slot).signedMember field = .ok (slot.wordAt offset.toNat).toInt64 := by
  have cut : (slot.take l.size.toNat).length = l.size.toNat := List.length_take_of_le long
  rw [Value.signedMember_inside (v := fieldsOf l word slot) placed eight (by
    rw [fieldsOf, cut]
    exact inside), fieldsOf, Bytes.wordAt_take _ inside]

theorem inline_held {fields : Value} {o : HeapObject} {data : Bytes} {offset length : UInt64}
    {size : Nat} (front : data <+: slot.drop offset.toNat) (few : length.toNat ≤ data.length)
    (inside : offset.toNat + length.toNat ≤ size) (short : size ≤ slot.length) :
    ObjectRead.inline ⟨fields, o, slot.take size⟩ offset length =
      .ok (data.take length.toNat) := by
  unfold ObjectRead.inline
  rw [Bytes.slice?_of_front front few inside short]

end Inspector
end HeapLens
