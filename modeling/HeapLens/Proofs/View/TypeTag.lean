import HeapLens.Proofs.Snapshot.Memory
import HeapLens.Proofs.View.OneRead
import HeapLens.Proofs.View.Stable

/-!
The type that a view shows while memory changes. Classification reads a header and picks a decoder
by its tag; the decoder reads the header again and keeps the tag. Main statement: tag, type and
decoder are those of the header that was read first, so they fit the header that is shown exactly
when both have the same tag, and nothing checks that they do.
-/
namespace HeapLens
open Run

/-- The type of the slot that objects of a type are decoded from, if they have a layout. -/
def ValueType.slotType? : ValueType → Option String
  | .string => some "struct RString"
  | .array => some "struct RArray"
  | .hash => some "struct RHash"
  | .record => some "struct RStruct"
  | .float => some "struct RFloat"
  | .bignum => some "struct RBignum"
  | .symbol => some "struct RSymbol"
  | _ => none

/-- The header in the answer to a read made after the trace `before`, which is all that
classification knows of an object. -/
def Header.ReadFirst (t : Target) (before : Trace) (h : Header) : Prop :=
  ∃ p l bytes, t.layout "struct RBasic *" = .ok p ∧ p.target? = some l ∧
    t.memory before.size h.address l.size = .ok bytes ∧
    Header.ofValue ⟨l, bytes, some h.address⟩ = .ok h

/-- What a view shows of the type of its object is what a header says. -/
structure View.ShowsTypeOf (k : Constants) (v : View) (o : HeapObject) (h : Header) : Prop where
  tag : o.tag = h.tag k
  type : o.type = k.typeOf (h.tag k)
  label : v.typeLabel = k.typeLabel (h.tag k)
  decoder : v.slotType? = (k.typeOf (h.tag k)).bind ValueType.slotType?

theorem Bytes.slice?_front {bytes front : Bytes} {count : Nat}
    (part : bytes.slice? 0 count = some front) :
    count ≤ bytes.length ∧ front = bytes.take count := by
  unfold slice? at part
  split at part
  · cases part
    exact ⟨by omega, rfl⟩
  · cases part

theorem Header.flags_of_front {l : Layout} {own : Bytes} {address : Option UInt64} {h : Header}
    (leads : l.member? "basic.flags" = some (0, .value))
    (parsed : Header.ofValue ⟨l, own, address⟩ = .ok h) :
    8 ≤ own.length ∧ h.flags = Bytes.word (own.take 8) := by
  obtain ⟨-, flags, -⟩ := Header.ofValue_ok parsed
  unfold Value.unsignedMember Value.member at flags
  dsimp only at flags
  rw [leads] at flags
  dsimp only at flags
  split at flags
  · cases flags
  · next bytes part =>
    obtain ⟨long, rfl⟩ := Bytes.slice?_front part
    exact ⟨long, (Except.ok.inj flags).symm⟩

/-- Every object with a layout of its own begins with the header. -/
theorem View.slot_leads {v : View} {type : String} (slot : v.slotType? = some type) :
    ∃ l, Registry.standard.lookup type = .ok l ∧ l.member? "basic.flags" = some (0, .value) ∧
      16 ≤ l.size.toNat := by
  cases v with
  | immediate | basic => cases slot
  | _ => cases slot; exact ⟨_, rfl, rfl, by decide⟩

theorem View.typeLabel_of_object {v : View} {o : HeapObject} (object : v.object? = some o) :
    v.typeLabel = o.typeLabel := by
  cases v with
  | immediate => cases object
  | _ => cases object; rfl

/-- The header of a view says the type that the view shows if and only if its tag is the one that
the type was shown for. -/
theorem View.ShowsTypeOf.other_iff {k : Constants} {v : View} {o : HeapObject} {h other : Header}
    (shown : v.ShowsTypeOf k o h) : v.ShowsTypeOf k o other ↔ other.tag k = h.tag k := by
  constructor
  · intro again
    exact again.tag.symm.trans shown.tag
  · intro same
    exact ⟨same ▸ shown.tag, same ▸ shown.type, same ▸ shown.label, same ▸ shown.decoder⟩

namespace Inspector
variable {i : Inspector} {o : HeapObject} {word : UInt64} {trace after : Trace} {view : View}

/-- The decoder is picked by the type that classification found; without one for the type the
object is shown as it was classified. -/
theorem decodeObject_slotType (run : i.decodeObject o trace = (.ok view, after)) :
    view.slotType? = o.type.bind ValueType.slotType? ∧
      (view.slotType? = none → view = .basic o) := by
  unfold decodeObject at run
  cases known : o.type with
  | none => rw [known] at run; cases run; exact ⟨rfl, fun _ => rfl⟩
  | some kind =>
    rw [known] at run
    cases kind with
    | string | array | hash | record | float | bignum | symbol =>
      obtain ⟨v, s, decoded, run⟩ := bind_ok run
      cases run
      exact ⟨rfl, nofun⟩
    | _ => cases run; exact ⟨rfl, fun _ => rfl⟩

/-- A classified object shows the type of the header that was read for it. -/
theorem classifyObject_first {t : Target} {k : Constants}
    (run : classifyObject t k word trace = (.ok o, after)) :
    o.header.ReadFirst t trace ∧ after.size = trace.size + 1 ∧ o.tag = o.header.tag k ∧
      o.type = k.typeOf (o.header.tag k) := by
  obtain ⟨p, l, bytes, named, found, read, parsed, shape⟩ := classifyObject_ok run
  obtain ⟨answer, rfl⟩ := Target.read_ok read
  refine ⟨⟨p, l, bytes, named, found, answer, parsed⟩, Array.size_push .., ?_, ?_⟩
  · rw [shape]
  · rw [shape]

/-- Where the type that a view shows and its header come from. -/
theorem interpret_first (run : i.interpret word trace = (.ok view, after))
    (object : view.object? = some o) :
    ∃ first : Header, first.ReadFirst i.target trace ∧ first.address = o.address ∧
      view.ShowsTypeOf i.constants o first ∧
      (view.slotType? = none → o.header = first) ∧
      (∀ type, view.slotType? = some type → ∃ (before : Trace) (size : UInt64) (r : ObjectRead),
        trace.size < before.size ∧ r.FromSlot i.target type before size ∧ r.object = o) := by
  obtain ⟨c, middle, classified, decoded, reread⟩ := interpret_object run object
  obtain ⟨first, counted, tag, type⟩ := classifyObject_first classified
  obtain ⟨decoder, slotless⟩ := decodeObject_slotType decoded
  have kept : o.tag = c.tag ∧ o.type = c.type := by
    rw [reread.1]
    exact ⟨rfl, rfl⟩
  have shown : view.ShowsTypeOf i.constants o c.header := {
    tag := kept.1.trans tag
    type := kept.2.trans type
    label := by
      rw [View.typeLabel_of_object object, HeapObject.typeLabel, kept.1, kept.2, tag, type]
      rfl
    decoder := by rw [decoder, type] }
  refine ⟨c.header, first, reread.2.symm, shown, fun plain => ?_, fun type slot => ?_⟩
  · rw [slotless plain] at object
    cases object
    rfl
  · obtain ⟨hint, extent, r, later, read, from_slot⟩ := decodeObject_reads decoded slot
    obtain ⟨before, size, longer, parsed, -⟩ := readObject_ok read
    have same : r.object = o := Option.some.inj (from_slot.object.symm.trans object)
    exact ⟨before, size, r, by omega, parsed, same⟩

/-- A view shows the type of the header read first; its own header is that one if it has no layout,
and comes from a later read if it has one. -/
theorem interpret_fits_iff (run : i.interpret word trace = (.ok view, after))
    (object : view.object? = some o) :
    ∃ first : Header, first.ReadFirst i.target trace ∧ first.address = o.address ∧
      view.ShowsTypeOf i.constants o first ∧
      (view.slotType? = none → o.header = first) ∧
      (∀ type, view.slotType? = some type → ∃ (before : Trace) (size : UInt64) (r : ObjectRead),
        trace.size < before.size ∧ r.FromSlot i.target type before size ∧ r.object = o) ∧
      (view.ShowsTypeOf i.constants o o.header ↔
        o.header.tag i.constants = first.tag i.constants) := by
  obtain ⟨first, read, place, shown, plain, slot⟩ := interpret_first run object
  exact ⟨first, read, place, shown, plain, slot, shown.other_iff⟩

/-- With the standard layouts and memory whose reads fit together, every view shows the type that
its header says. -/
theorem interpret_fits (layouts : i.target.layout = Registry.standard.lookup)
    (coherent : i.target.Coherent) (exact : i.target.Exact)
    (run : i.interpret word trace = (.ok view, after)) (object : view.object? = some o) :
    view.ShowsTypeOf i.constants o o.header := by
  obtain ⟨first, read, place, shown, plain, later⟩ := interpret_first run object
  rw [shown.other_iff]
  cases slot : view.slotType? with
  | none => rw [plain slot]
  | some type =>
    obtain ⟨before, size, r, -, from_slot, rfl⟩ := later type slot
    obtain ⟨l, own, named, part, fields⟩ := from_slot.fields
    obtain ⟨p, basic, bytes, pointer, target, answer, parsed⟩ := read
    obtain ⟨l', known, leads, long⟩ := View.slot_leads slot
    rw [layouts] at named pointer
    cases named.symm.trans known
    obtain rfl : Layout.basic.pointerTo = p := Except.ok.inj pointer
    cases target
    obtain ⟨inside, rfl⟩ := Bytes.slice?_front part
    have header := from_slot.header
    rw [fields] at header
    obtain ⟨_, flags⟩ := Header.flags_of_front leads header
    obtain ⟨_, flags'⟩ := Header.flags_of_front rfl parsed
    have whole := exact _ _ _ _ from_slot.answer
    have shorter : Layout.basic.size ≤ size := by
      rw [UInt64.le_iff_toNat_le, ← whole]
      exact Nat.le_trans long inside
    have same := coherent before.size trace.size r.object.address _ size r.bytes shorter
      from_slot.answer
    rw [place] at answer
    cases answer.symm.trans same
    have sixteen : Layout.basic.size.toNat = 16 := rfl
    have fronts : r.object.header.flags = first.flags := by
      rw [flags, flags', List.take_take, List.take_take, sixteen,
        Nat.min_eq_left (by omega), Nat.min_eq_left (by omega)]
    rw [Header.tag, Header.tag, fronts]

theorem interpret_fits_of_load {s : Snapshot} {image : LoadedSnapshot}
    (loaded : s.load = .ok image) {k : Constants} {limit : UInt64}
    (run : Inspector.interpret ⟨image.target .standard, k, limit⟩ word trace = (.ok view, after))
    (object : view.object? = some o) : view.ShowsTypeOf k o o.header :=
  interpret_fits rfl (s.load_coherent loaded .standard) (image.target_exact .standard) run object

/-- An object that is a float when it is classified and a plain object when its slot is read. -/
def retagged : Inspector :=
  ⟨{ Inspector.shared.target with
      memory := fun n =>
        patternRead ((if n = 0 then [4, 17, 0] else [1, 17, 0]).flatMap Bytes.ofWord) },
    .default, defaultLimit⟩

theorem retagged_interpret : retagged.interpret 48 #[] =
    (.ok (.float ⟨⟨48, ⟨48, 1, 17⟩, 4, some .float⟩, ⟨0⟩⟩), #[⟨48, 16⟩, ⟨48, 24⟩]) := rfl

/-- The view of an object that changed its type in between shows a float under the header of a plain
object. -/
theorem retagged_shows_stale_type : ∃ view after o,
    retagged.interpret 48 #[] = (.ok view, after) ∧ view.object? = some o ∧
      o.tag = 4 ∧ o.header.tag retagged.constants = 1 ∧
      ¬ view.ShowsTypeOf retagged.constants o o.header := by
  refine ⟨_, _, _, retagged_interpret, rfl, rfl, rfl, ?_⟩
  intro fits
  exact absurd fits.tag (by decide)

theorem retagged_fits_iff :
    retagged.interpret 48 #[] =
        (.ok (.float ⟨⟨48, ⟨48, 1, 17⟩, 4, some .float⟩, ⟨0⟩⟩), #[⟨48, 16⟩, ⟨48, 24⟩]) ∧
      ∃ (first : Header) (before : Trace) (size : UInt64) (r : ObjectRead),
        first.ReadFirst retagged.target #[] ∧ first.address = 48 ∧ first.tag .default = 4 ∧
        0 < before.size ∧ r.FromSlot retagged.target "struct RFloat" before size ∧
        r.object = ⟨48, ⟨48, 1, 17⟩, 4, some .float⟩ := by
  refine ⟨retagged_interpret, ?_⟩
  obtain ⟨first, read, place, shown, -, slot, -⟩ := interpret_fits_iff retagged_interpret rfl
  obtain ⟨before, size, r, later, parsed, same⟩ := slot _ rfl
  exact ⟨first, before, size, r, read, place, shown.tag.symm, later, parsed, same⟩

end Inspector
end HeapLens
