import HeapLens.Proofs.View.Preview
import HeapLens.Proofs.View.Stable
import Mathlib.Data.List.TakeDrop

/-!
Names of dynamic symbols. A symbol points to a string; that this cannot be read takes away its name
and nothing else. Main statement: in memory that does not change, a symbol that can be read is shown
with its number and with as much of its name as is read of a string.
-/
namespace HeapLens
open Run

namespace Inspector
variable {i : Inspector} {word : UInt64} {o : HeapObject} {trace : Trace}

/-- The word refers to a string, and these are the bytes of it that are read. -/
def NamedBy (i : Inspector) (word : UInt64) (name : Bytes) : Prop :=
  ∃ p s, (i.classify word #[]).1 = .ok (.heap p) ∧ p.type = some .string ∧
    (i.decodeString p #[]).1 = .ok s ∧ s.bytes = name

theorem stringBytes_eq_some_iff {name : Bytes} :
    (i.stringBytes word trace).1 = .ok (some name) ↔ ∃ p middle s,
      i.classify word trace = (.ok (.heap p), middle) ∧ p.type = some .string ∧
        (i.decodeString p middle).1 = .ok s ∧ s.bytes = name := by
  constructor
  · intro read
    obtain ⟨after, run⟩ : ∃ after, i.stringBytes word trace = (.ok (some name), after) :=
      ⟨_, Prod.ext read rfl⟩
    unfold stringBytes at run
    obtain ⟨c, middle, classified, run⟩ := bind_ok run
    cases c with
    | immediate w value => cases run
    | heap p =>
      dsimp only at run
      by_cases type : p.type = some .string
      · rw [if_pos type] at run
        obtain ⟨s, later, decoded, run⟩ := bind_ok run
        cases run
        exact ⟨p, middle, s, classified, type, congrArg Prod.fst decoded, rfl⟩
      · rw [if_neg type] at run
        cases run
  · rintro ⟨p, middle, s, classified, type, decoded, rfl⟩
    have string : i.decodeString p middle = (.ok s, (i.decodeString p middle).2) :=
      Prod.ext decoded rfl
    rw [stringBytes, bind_at classified]
    dsimp only
    rw [if_pos type, bind_at string]
    rfl

theorem decodeString_bytes (stable : i.target.Stable) {s : StringView}
    (decoded : (i.decodeString o trace).1 = .ok s) (other : Trace) :
    ∃ s', (i.decodeString o other).1 = .ok s' ∧ s'.bytes = s.bytes := by
  have agree := (decodeString_agree stable o o.word).outcome trace other
  rw [decoded] at agree
  generalize again : (i.decodeString (o.withWord o.word) other).1 = outcome at agree
  cases agree with
  | ok same => exact ⟨_, again, by rw [same]⟩

theorem stringBytes_iff_namedBy (stable : i.target.Stable) {name : Bytes} :
    (i.stringBytes word trace).1 = .ok (some name) ↔ i.NamedBy word name := by
  rw [((stringBytes_agree stable word).outcome trace #[]).eq, stringBytes_eq_some_iff]
  constructor
  · rintro ⟨p, middle, s, classified, type, decoded, rfl⟩
    obtain ⟨s', again, same⟩ := decodeString_bytes stable decoded #[]
    exact ⟨p, s', congrArg Prod.fst classified, type, again, same⟩
  · rintro ⟨p, s, classified, type, decoded, rfl⟩
    obtain ⟨s', again, same⟩ := decodeString_bytes stable decoded (i.classify word #[]).2
    exact ⟨p, _, s', Prod.ext classified rfl, type, again, same⟩

theorem framed_symbol : Framed .symbol := ⟨Nat.le_refl 40, by decide, rfl, rfl⟩

/-- However the name fails to be read, the symbol does not. -/
theorem decodeSymbol_once (layouts : i.target.layout = Registry.standard.lookup) {slot : Bytes}
    (read : i.target.memory trace.size o.address 40 = .ok slot) (long : 40 ≤ slot.length) :
    Yields (i.decodeSymbol o) trace fun v => v.id = slot.wordAt 32 ∧
      v.nameWord = slot.wordAt 24 ∧ ∃ later,
        ∀ name, v.name = some name ↔ (i.stringBytes v.nameWord later).1 = .ok (some name) := by
  have named := layout_standard layouts Registry.lookup_symbol
  have id : (fieldsOf .symbol o.address slot).unsignedMember "id" = .ok (slot.wordAt 32) :=
    unsignedMember_held 32 rfl rfl (by decide) long
  have fstr : (fieldsOf .symbol o.address slot).unsignedMember "fstr" = .ok (slot.wordAt 24) :=
    unsignedMember_held 24 rfl rfl (by decide) long
  unfold decodeSymbol
  apply yields_bind (yields_of_run (readFields_once framed_symbol named read long) rfl)
  rintro _ later rfl
  apply yields_after_access id
  apply yields_after_access fstr
  -- From here on nothing fails: the outcome of the name is a value, an error included.
  rcases run : i.stringBytes (slot.wordAt 24) later with ⟨outcome, after⟩
  have attempted : (i.stringBytes (slot.wordAt 24)).attempt later = (.ok outcome, after) := by
    rw [attempt, run]
  apply yields_bind (yields_of_run attempted rfl)
  rintro _ after rfl
  cases outcome with
  | ok name =>
    refine yields_pure ⟨rfl, rfl, later, fun other => ?_⟩
    rw [run]
    exact ⟨fun same => congrArg Except.ok same, fun same => Except.ok.inj same⟩
  | error e =>
    refine yields_pure ⟨rfl, rfl, later, fun other => ?_⟩
    rw [run]
    exact ⟨nofun, nofun⟩

section
variable (layouts : i.target.layout = Registry.standard.lookup) (stable : i.target.Stable)
include layouts

/-- As much of a text names what refers to it as is read of a string. -/
theorem namedBy_take {p : HeapObject} {text : Bytes}
    (classified : (i.classify word #[]).1 = .ok (.heap p)) (type : p.type = some .string)
    (holds : i.HoldsText p.address text) : i.NamedBy word (text.take 256) := by
  obtain ⟨s, _, decoded, shown⟩ := (decodeString_held layouts holds #[]).result
  exact ⟨p, s, classified, type, congrArg Prod.fst decoded, shown.bytes⟩

variable {middle : Trace} (classified : i.classify word trace = (.ok (.heap o), middle))
  (type : o.type = some .symbol) {slot : Bytes}
  (read : i.target.memory 0 o.address 40 = .ok slot) (long : 40 ≤ slot.length)
include stable classified type read long

theorem interpret_symbol :
    ∃ v after, i.interpret word trace = (.ok (.symbol v), after) ∧ v.id = slot.wordAt 32 ∧
      v.nameWord = slot.wordAt 24 ∧ ∀ name, v.name = some name ↔ i.NamedBy v.nameWord name := by
  rw [← stable middle.size] at read
  obtain ⟨v, after, run, id, fstr, later, name⟩ := (decodeSymbol_once layouts read long).result
  refine ⟨v, after, ?_, id, fstr, fun bytes => (name bytes).trans (stringBytes_iff_namedBy stable)⟩
  rw [interpret_heap classified, decodeObject, type]
  exact bind_at run

end

/-- A symbol has its number and the word for its name, and as much of the name as is read of the
string that the word refers to: all of it up to a length of 256 bytes. -/
theorem interpret_symbol_name (layouts : i.target.layout = Registry.standard.lookup)
    (stable : i.target.Stable) {middle : Trace}
    (classified : i.classify word trace = (.ok (.heap o), middle)) (type : o.type = some .symbol)
    {slot : Bytes} (read : i.target.memory 0 o.address 40 = .ok slot) (long : 40 ≤ slot.length) :
    ∃ v after, i.interpret word trace = (.ok (.symbol v), after) ∧ v.id = slot.wordAt 32 ∧
      v.nameWord = slot.wordAt 24 ∧ (∀ name, v.name = some name ↔ i.NamedBy v.nameWord name) ∧
      ∀ p text, (i.classify v.nameWord #[]).1 = .ok (.heap p) → p.type = some .string →
        i.HoldsText p.address text →
          v.name = some (text.take 256) ∧ (v.name = some text ↔ text.length ≤ 256) := by
  obtain ⟨v, after, run, id, fstr, name⟩ :=
    interpret_symbol layouts stable classified type read long
  refine ⟨v, after, run, id, fstr, name, fun p text string kind holds => ?_⟩
  have front := (name _).mpr (namedBy_take layouts string kind holds)
  refine ⟨front, ?_⟩
  rw [front, Option.some.injEq, List.take_eq_self_iff]

/-- The number 99, with a name at 8192. -/
def symbolSlot : Bytes := .ofWords [20, 17, 0, 8192, 99]

/-- Memory with a symbol, the string that it points to, and the bytes of this string. -/
def labelled (text : Bytes) : Inspector where
  target := { patternTarget [] .standard with
    memory := fun _ address size =>
      let bytes := if address = 4096 then symbolSlot
        else if address = 8192 then (Content.string text).slotElsewhere 12288 else text
      if size.toNat ≤ bytes.length then .ok (bytes.take size.toNat) else .error ⟨address, size⟩ }
  constants := .default
  limit := 64

section
variable (text : Bytes)

theorem labelled_layout : (labelled text).target.layout = Registry.standard.lookup := rfl

theorem labelled_stable : (labelled text).target.Stable := fun _ => rfl

theorem labelled_symbol : (labelled text).classify 4096 #[] =
    (.ok (.heap (.ofSlot 4096 .symbol symbolSlot)), #[⟨4096, 16⟩]) := by
  have object : (labelled text).target.HoldsObject 4096 .symbol symbolSlot :=
    ⟨by decide, fun _ _ short => if_pos short, by decide, by decide⟩
  exact classify_held (labelled_layout text) rfl object #[]

theorem labelled_slot : (labelled text).target.memory 0 4096 40 = .ok symbolSlot := rfl

theorem labelled_text (short : text.length < 2 ^ 63) : ∃ p,
    ((labelled text).classify 8192 #[]).1 = .ok (.heap p) ∧ p.type = some .string ∧
      (labelled text).HoldsText p.address text := by
  obtain ⟨tagged, pointed⟩ := Content.elsewhere_slotElsewhere (c := .string text) short 12288
  have object : (labelled text).target.HoldsObject 8192 .string
      ((Content.string text).slotElsewhere 12288) :=
    ⟨by decide, fun _ _ short => if_pos short, Content.long_slotElsewhere _ _, tagged⟩
  refine ⟨_, congrArg Prod.fst (classify_held (labelled_layout text) rfl object #[]), rfl, ?_⟩
  exact holdsText_elsewhere rfl object pointed (by decide) fun _ _ short => if_pos short

theorem labelled_name (short : text.length < 2 ^ 63) : ∃ v,
    ((labelled text).interpret 4096 #[]).1 = .ok (.symbol v) ∧ v.name = some (text.take 256) := by
  obtain ⟨v, after, run, -, fstr, name⟩ := interpret_symbol (labelled_layout text)
    (labelled_stable text) (labelled_symbol text) rfl (labelled_slot text) (by decide)
  obtain ⟨p, classified, type, holds⟩ := labelled_text text short
  refine ⟨v, congrArg Prod.fst run, (name _).mpr ?_⟩
  rw [fstr]
  exact namedBy_take (labelled_layout text) classified type holds

end

theorem labelled_shown : ∃ v after,
    (labelled [0x61, 0x62, 0x63]).interpret 4096 #[] = (.ok (.symbol v), after) ∧ v.id = 99 ∧
      v.nameWord = 8192 ∧ v.name = some [0x61, 0x62, 0x63] := by
  obtain ⟨v, after, run, id, fstr, -, name⟩ := interpret_symbol_name (labelled_layout _)
    (labelled_stable _) (labelled_symbol _) rfl (labelled_slot _) (by decide)
  obtain ⟨p, classified, type, holds⟩ := labelled_text [0x61, 0x62, 0x63] (by decide)
  have word : v.nameWord = 8192 := fstr
  rw [← word] at classified
  exact ⟨v, after, run, id, word, (name p _ classified type holds).1⟩

/-- Names of 257 bytes that differ in the last of these. -/
theorem long_names_alike : ∃ v w : SymbolView,
    ((labelled (List.replicate 256 0x61 ++ [0x61])).interpret 4096 #[]).1 = .ok (.symbol v) ∧
      ((labelled (List.replicate 256 0x61 ++ [0x62])).interpret 4096 #[]).1 = .ok (.symbol w) ∧
      v.name = some (List.replicate 256 0x61) ∧ w.name = v.name := by
  have short (last : UInt8) : (List.replicate 256 0x61 ++ [last]).length < 2 ^ 63 := by
    rw [List.length_append, List.length_replicate]
    exact Nat.le_of_ble_eq_true rfl
  have front (last : UInt8) :
      (List.replicate 256 0x61 ++ [last]).take 256 = List.replicate 256 0x61 :=
    List.take_left' List.length_replicate
  obtain ⟨v, run, name⟩ := labelled_name _ (short 0x61)
  obtain ⟨w, run', name'⟩ := labelled_name _ (short 0x62)
  rw [front] at name name'
  exact ⟨v, w, run, run', name, name'.trans name.symm⟩

end Inspector
end HeapLens
