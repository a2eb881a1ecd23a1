import HeapLens.Proofs.Constants.History
import HeapLens.Proofs.Heap.Classification
import HeapLens.Proofs.View.TypeTag
import HeapLens.Proofs.Word.Bits
import Mathlib.Data.List.Basic

/-!
Tags that a target gives to its types. A table takes them as the target defines them, each on its
own, and checks the immediate encodings alone: two types may share a tag, and a tag may have bits
that no header keeps under the mask. Main statement: an object is taken for the first type, in the
order of the look-up, whose tag its header carries, so each type is found again exactly when no
earlier one has its tag, and objects can carry the tag exactly when it lies under the mask.
-/
namespace HeapLens
open Run

namespace ValueType

/-- The place of a type in the order in which tags are looked up. -/
def rank (s : ValueType) : Nat := all.idxOf s

theorem rank_lt_iff {earlier later : List ValueType} {r s : ValueType}
    (place : all = earlier ++ r :: later) : s.rank < r.rank ↔ s ∈ earlier := by
  have distinct := all_nodup
  rw [place, List.nodup_append] at distinct
  have fresh : r ∉ earlier := fun again =>
    distinct.2.2 r again r (List.mem_cons_self ..) rfl
  have own : r.rank = earlier.length := by
    rw [rank, place, List.idxOf_append_of_notMem fresh, List.idxOf_cons_self, Nat.add_zero]
  rw [own, rank, place]
  constructor
  · intro before
    by_contra missing
    rw [List.idxOf_append_of_notMem missing] at before
    omega
  · intro member
    rw [List.idxOf_append_of_mem member]
    exact List.idxOf_lt_length_of_mem member

end ValueType

namespace Constants

/-! What a target defines. -/

/-- The values that a target gives to the names of a list, where it gives one. -/
def defined {α : Type} (t : Target) (name : α → String) :
    List α → Except AccessError (List (α × UInt64))
  | [] => .ok []
  | a :: rest => do
    match ← t.constant (name a) with
    | some value => return (a, value.toUInt64) :: (← defined t name rest)
    | none => defined t name rest

theorem definedConstants_eq (t : Target) (cs : List Constant) :
    definedConstants t cs = defined t Constant.label cs := by
  induction cs with
  | nil => rfl
  | cons c rest ih =>
    rw [definedConstants, ih]
    rfl

theorem definedTags_eq (t : Target) (types : List ValueType) :
    definedTags t types = defined t ValueType.constantName types := by
  induction types with
  | nil => rfl
  | cons s rest ih =>
    rw [definedTags, ih]
    rfl

theorem lookup_defined {α : Type} [DecidableEq α] {t : Target} {name : α → String} {as : List α}
    {found : List (α × UInt64)} (run : defined t name as = .ok found) :
    (∀ a ∉ as, found.lookup a = none) ∧
      ∀ a ∈ as, ∃ answer, t.constant (name a) = .ok answer ∧
        found.lookup a = answer.map Int64.toUInt64 := by
  induction as generalizing found with
  | nil => cases run; simp
  | cons a rest ih =>
    rw [defined] at run
    obtain ⟨answer, asked, run⟩ := bind_eq_ok run
    cases answer with
    | some value =>
      obtain ⟨later, others, made⟩ := bind_eq_ok run
      cases made
      obtain ⟨outside, inside⟩ := ih others
      constructor
      · intro b missing
        rw [List.mem_cons, not_or] at missing
        rw [List.lookup_cons, beq_eq_false_iff_ne.mpr missing.1]
        exact outside b missing.2
      · intro b member
        by_cases same : b = a
        · subst same
          exact ⟨some value, asked, by rw [List.lookup_cons, beq_self_eq_true]; rfl⟩
        · rw [List.lookup_cons, beq_eq_false_iff_ne.mpr same]
          exact inside b ((List.mem_cons.mp member).resolve_left same)
    | none =>
      obtain ⟨outside, inside⟩ := ih run
      constructor
      · intro b missing
        exact outside b fun again => missing (List.mem_cons_of_mem _ again)
      · intro b member
        by_cases later : b ∈ rest
        · exact inside b later
        · obtain rfl := (List.mem_cons.mp member).resolve_right later
          exact ⟨none, asked, outside b later⟩

/-- A resolved table has what the target defines, and the default of everything else. -/
theorem resolve_defined {t : Target} {k : Constants} (resolved : resolve t = .ok k) :
    (∀ c : Constant, ∃ answer, t.constant c.label = .ok answer ∧
      k.get c = (answer.map Int64.toUInt64).getD c.defaultValue) ∧
    ∀ s : ValueType, ∃ answer, t.constant s.constantName = .ok answer ∧
      k.tagOf s = (answer.map Int64.toUInt64).getD s.defaultTag := by
  obtain ⟨values, tags, found, named, rfl, -⟩ := resolve_ok resolved
  rw [definedConstants_eq] at found
  rw [definedTags_eq] at named
  constructor
  · intro c
    obtain ⟨answer, asked, stored⟩ := (lookup_defined found).2 c (Constant.mem_all c)
    exact ⟨answer, asked, congrArg (·.getD c.defaultValue) stored⟩
  · intro s
    obtain ⟨answer, asked, stored⟩ := (lookup_defined named).2 s (ValueType.mem_all s)
    exact ⟨answer, asked, congrArg (·.getD s.defaultTag) stored⟩

/-! Which type a tag stands for. -/

/-- The first type in the order of the look-up that has the tag. -/
structure FirstWith (k : Constants) (tag : UInt64) (s : ValueType) : Prop where
  tagged : k.tagOf s = tag
  first : ∀ r : ValueType, r.rank < s.rank → k.tagOf r ≠ tag

theorem typeOf_eq_some_iff {k : Constants} {tag : UInt64} {s : ValueType} :
    k.typeOf tag = some s ↔ k.FirstWith tag s := by
  rw [typeOf, List.find?_eq_some_iff_append]
  constructor
  · rintro ⟨tagged, earlier, later, place, others⟩
    refine ⟨beq_iff_eq.mp tagged, fun r before same => ?_⟩
    have other := others r ((ValueType.rank_lt_iff place).mp before)
    rw [same, beq_self_eq_true] at other
    cases other
  · rintro ⟨tagged, first⟩
    obtain ⟨earlier, later, place⟩ := List.append_of_mem (ValueType.mem_all s)
    refine ⟨beq_iff_eq.mpr tagged, earlier, later, place, fun r member => ?_⟩
    rw [beq_eq_false_iff_ne.mpr (first r ((ValueType.rank_lt_iff place).mpr member))]
    rfl

theorem exists_firstWith (k : Constants) (s : ValueType) : ∃ r, k.FirstWith (k.tagOf s) r := by
  cases found : k.typeOf (k.tagOf s) with
  | some r => exact ⟨r, typeOf_eq_some_iff.mp found⟩
  | none =>
    have missing := List.find?_eq_none.mp found s (ValueType.mem_all s)
    exact absurd (beq_self_eq_true _) missing

theorem FirstWith.eq_iff {k : Constants} {r s : ValueType} (first : k.FirstWith (k.tagOf s) r) :
    r = s ↔ ∀ q : ValueType, q.rank < s.rank → k.tagOf q ≠ k.tagOf s := by
  constructor
  · rintro rfl
    exact first.first
  · intro alone
    have own : k.FirstWith (k.tagOf s) s := ⟨rfl, alone⟩
    exact Option.some.inj
      ((typeOf_eq_some_iff.mpr first).symm.trans (typeOf_eq_some_iff.mpr own))

/-- Every type is found by its tag exactly when no two types share one. -/
theorem typeOf_tagOf_iff_injective (k : Constants) :
    (∀ s, k.typeOf (k.tagOf s) = some s) ↔ Function.Injective k.tagOf := by
  constructor
  · intro found r s same
    exact Option.some.inj ((found r).symm.trans (same ▸ found s))
  · intro injective s
    obtain ⟨r, first⟩ := k.exists_firstWith s
    rw [typeOf_eq_some_iff, ← injective first.tagged]
    exact injective first.tagged ▸ first

/-- Some header has the tag exactly when all its bits lie under the mask. -/
theorem exists_header_tag_iff {k : Constants} {tag : UInt64} :
    (∃ h : Header, h.tag k = tag) ↔ Within (k.get .typeMask) tag := by
  constructor
  · rintro ⟨h, masked⟩
    exact within_of_masked masked
  · intro inside
    exact ⟨⟨0, tag, 0⟩, inside⟩

end Constants

/-! What happens to the objects that carry a tag. -/

namespace Inspector

/-- Objects whose headers carry the tag are taken for the type. -/
structure Takes (i : Inspector) (tag : UInt64) (s : ValueType) : Prop where
  classified : ∀ {word trace o after}, i.classify word trace = (.ok (.heap o), after) →
    o.header.tag i.constants = tag → o.tag = tag ∧ o.type = some s
  decoded : ∀ {word trace o after}, i.classify word trace = (.ok (.heap o), after) →
    o.header.tag i.constants = tag → i.interpret word trace = i.decodeObject o after ∧
      ∀ view later, i.decodeObject o after = (.ok view, later) → view.slotType? = s.slotType?
  /-- Every header in memory that carries the tag is classified. -/
  reached : i.target.layout = Registry.standard.lookup → ∀ {word trace bytes},
    Immediate.ofWord? i.constants word = none →
    word &&& i.constants.get .immediateMask = 0 →
    i.target.memory trace.size word 16 = .ok bytes → 16 ≤ bytes.length →
    bytes.wordAt 0 &&& i.constants.get .typeMask = tag →
    ∃ o, i.classify word trace = (.ok (.heap o), trace.push ⟨word, 16⟩) ∧ o.address = word ∧
      o.header.tag i.constants = tag

variable {i : Inspector} {word : UInt64} {trace after : Trace} {o : HeapObject}

theorem classify_heap (run : i.classify word trace = (.ok (.heap o), after)) :
    o.tag = o.header.tag i.constants ∧
      o.type = i.constants.typeOf (o.header.tag i.constants) := by
  unfold classify HeapLens.classify at run
  cases encoded : Immediate.ofWord? i.constants word with
  | some value => rw [encoded] at run; cases run
  | none =>
    rw [encoded] at run
    obtain ⟨-, run⟩ := guard_ok run
    obtain ⟨p, middle, found, run⟩ := bind_ok run
    cases run
    obtain ⟨-, -, tag, type⟩ := classifyObject_first found
    exact ⟨tag, type⟩

theorem takes_of_first {tag : UInt64} {s : ValueType} (first : i.constants.FirstWith tag s) :
    i.Takes tag s where
  classified run carried := by
    obtain ⟨own, type⟩ := classify_heap run
    rw [carried] at own type
    exact ⟨own, type.trans (Constants.typeOf_eq_some_iff.mpr first)⟩
  decoded run carried := by
    obtain ⟨-, type⟩ := classify_heap run
    rw [carried, Constants.typeOf_eq_some_iff.mpr first] at type
    refine ⟨interpret_heap run, fun view later made => ?_⟩
    rw [(decodeObject_slotType made).1, type]
    rfl
  reached layouts _ _ _ none clear read long carried := by
    exact ⟨_, classify_readable layouts none clear read long, rfl, carried⟩

end Inspector

namespace Constants

theorem within_defaultTag (s : ValueType) : Within (default.get .typeMask) s.defaultTag := by
  cases s <;> decide

theorem defaultTag_injective : Function.Injective ValueType.defaultTag := fun s r =>
  ValueType.defaultTag_injective s (ValueType.mem_all s) r (ValueType.mem_all r)

/-- What a resolved table makes of the objects that carry the tag of a type. -/
theorem resolve_types_by_tag {t : Target} {k : Constants} (resolved : resolve t = .ok k) :
    (∀ s : ValueType, ∃ answer, t.constant s.constantName = .ok answer ∧
      k.tagOf s = (answer.map Int64.toUInt64).getD s.defaultTag) ∧
    (∀ s, ∃ r, k.FirstWith (k.tagOf s) r ∧ k.typeOf (k.tagOf s) = some r ∧
      (∀ limit, Inspector.Takes ⟨t, k, limit⟩ (k.tagOf s) r) ∧
      (r = s ↔ ∀ q : ValueType, q.rank < s.rank → k.tagOf q ≠ k.tagOf s) ∧
      ((∃ h : Header, h.tag k = k.tagOf s) ↔ Within (k.get .typeMask) (k.tagOf s))) ∧
    ((∀ s, Within (k.get .typeMask) (k.tagOf s) ∧ k.typeOf (k.tagOf s) = some s) ↔
      (∀ s, Within (k.get .typeMask) (k.tagOf s)) ∧ Function.Injective k.tagOf) ∧
    (t.constant Constant.typeMask.label = .ok none →
      (∀ s : ValueType, t.constant s.constantName = .ok none) →
      ∀ s, Within (k.get .typeMask) (k.tagOf s) ∧ k.typeOf (k.tagOf s) = some s) := by
  obtain ⟨masks, tags⟩ := resolve_defined resolved
  refine ⟨tags, fun s => ?_, ?_, fun mask plain s => ?_⟩
  · obtain ⟨r, first⟩ := k.exists_firstWith s
    exact ⟨r, first, typeOf_eq_some_iff.mpr first,
      fun limit => Inspector.takes_of_first first, first.eq_iff, exists_header_tag_iff⟩
  · rw [forall_and, typeOf_tagOf_iff_injective]
  · obtain ⟨answer, asked, stored⟩ := masks .typeMask
    cases mask.symm.trans asked
    have own : k.tagOf = ValueType.defaultTag := by
      funext r
      obtain ⟨answer, asked, stored⟩ := tags r
      cases (plain r).symm.trans asked
      exact stored
    have found := k.typeOf_tagOf_iff_injective.mpr (own ▸ defaultTag_injective) s
    refine ⟨?_, found⟩
    rw [stored, own]
    exact within_defaultTag s

/-- A target that gives arrays the tag of strings, and hashes one that no header carries. -/
def retagged : Target :=
  { patternTarget (Bytes.ofWord 5) .standard with
    constant := fun name => .ok ([("RUBY_T_ARRAY", 5), ("RUBY_T_HASH", 0x28)].lookup name) }

theorem resolve_retagged : ∃ k, resolve retagged = .ok k ∧ k.tagOf .string = 5 ∧
    k.tagOf .array = 5 ∧ k.tagOf .hash = 0x28 ∧ k.get .typeMask = 0x1f :=
  ⟨_, rfl, by decide, by decide, by decide, by decide⟩

theorem retagged_confuses_types : ∃ k o after, resolve retagged = .ok k ∧
    k.typeOf (k.tagOf .array) = some .string ∧ ¬ Within (k.get .typeMask) (k.tagOf .hash) ∧
    classify retagged k 4096 #[] = (.ok (.heap o), after) ∧
    o.header.tag k = k.tagOf .array ∧ o.type = some .string :=
  ⟨_, ⟨4096, ⟨4096, 5, 5⟩, 5, some .string⟩, #[⟨4096, 16⟩], rfl, by decide, by decide, rfl,
    by decide, rfl⟩

theorem retagged_types_by_tag : ∃ k, resolve retagged = .ok k ∧
    (∃ r, k.typeOf (k.tagOf .array) = some r ∧ r ≠ .array) ∧
    ¬ ∃ h : Header, h.tag k = k.tagOf .hash := by
  obtain ⟨k, resolved, string, array, hash, mask⟩ := resolve_retagged
  obtain ⟨-, types, -⟩ := resolve_types_by_tag resolved
  refine ⟨k, resolved, ?_, ?_⟩
  · obtain ⟨r, -, found, -, alone, -⟩ := types .array
    refine ⟨r, found, fun same => ?_⟩
    exact alone.mp same .string (by decide) (string.trans array.symm)
  · obtain ⟨r, -, -, -, -, carried⟩ := types .hash
    rw [carried, mask, hash]
    decide

end Constants
end HeapLens
