import HeapLens.Constants.Cache
import HeapLens.Proofs.Run
import HeapLens.Proofs.Snapshot.Target
import Mathlib.Data.List.Induction
import Mathlib.Order.Bounds.Basic

/-!
What a cache of constants serves over a whole history of requests, each with a target of its own.
Main statement: a table that is handed out is the one that was resolved at the earliest step of the
unbroken run of successes for one build that leads up to now, and a cache holds a table exactly when
its last request was such a success.
-/
namespace HeapLens

namespace Constants

/-- A table that resolves is made of what the target defines, and it has passed its check. -/
theorem resolve_ok {t : Target} {k : Constants} (resolved : resolve t = .ok k) :
    ∃ values tags, definedConstants t Constant.all = .ok values ∧
      definedTags t ValueType.all = .ok tags ∧
      k = ⟨fun c => (values.lookup c).getD c.defaultValue,
        fun s => (tags.lookup s).getD s.defaultTag⟩ ∧ k.validate = .ok () := by
  unfold resolve at resolved
  obtain ⟨values, found, resolved⟩ := bind_eq_ok resolved
  obtain ⟨tags, named, resolved⟩ := bind_eq_ok resolved
  obtain ⟨_, valid, made⟩ := bind_eq_ok resolved
  cases made
  exact ⟨values, tags, Except.mapError_eq_ok found, Except.mapError_eq_ok named, rfl, valid⟩

theorem validate_of_resolve {t : Target} {k : Constants} (resolved : resolve t = .ok k) :
    k.validate = .ok () := by
  obtain ⟨_, _, -, -, -, valid⟩ := resolve_ok resolved
  exact valid

theorem shift_lt_of_validate {k : Constants} (valid : k.validate = .ok ()) {shift : Constant}
    (isShift : shift.isShift = true) : k.get shift < 64 := by
  unfold validate at valid
  split at valid
  · cases valid
  · next none =>
    have small := List.find?_eq_none.mp none shift (Constant.mem_all shift)
    rw [isShift, Bool.true_and, decide_eq_true_eq] at small
    exact UInt64.not_le.mp small

theorem shiftRight_of_lt {k : Constants} {shift : Constant} (small : k.get shift < 64)
    (bits : UInt64) : k.shiftRight bits shift = bits >>> k.get shift := if_pos small

end Constants

namespace ConstantCache

theorem find?_eq_some_iff {cache : ConstantCache} {build : String} {k : Constants} :
    cache.find? build = some k ↔ cache.kept = some (build, k) := by
  obtain ⟨_ | ⟨name, table⟩⟩ := cache
  · simp [find?]
  · by_cases same : name = build
    · simp [find?, same]
    · simp [find?, same]

theorem resolve_hit {cache : ConstantCache} {t : Target} {k : Constants}
    (hit : cache.find? t.build = some k) : resolve t cache = (.ok k, cache) := by
  simp only [resolve, hit]

theorem resolve_miss {cache : ConstantCache} {t : Target} (miss : cache.find? t.build = none) :
    (resolve t cache).1 = Constants.resolve t := by
  simp only [resolve, miss]
  cases Constants.resolve t <;> rfl

/-- A resolution keeps what it returned, for the build it was asked for, or nothing. -/
theorem kept_resolve (cache : ConstantCache) (t : Target) :
    (resolve t cache).2.kept = (resolve t cache).1.toOption.map (t.build, ·) := by
  cases found : cache.find? t.build with
  | some k => rw [resolve_hit found]; exact find?_eq_some_iff.mp found
  | none =>
    simp only [resolve, found]
    cases Constants.resolve t <;> rfl

/-- What can be asked of a cache. -/
inductive Request where
  | resolve (t : Target)
  | invalidate

/-- The outcome of a request, none if there was nothing to resolve, and the cache after it. -/
def serve (cache : ConstantCache) :
    Request → Option (Except InspectError Constants) × ConstantCache
  | .resolve t => (some (resolve t cache).1, (resolve t cache).2)
  | .invalidate => (none, (invalidate cache).2)

/-- The cache after a history of requests. -/
def after (history : List Request) : ConstantCache :=
  history.foldl (fun cache request => (cache.serve request).2) empty

/-- The outcome of one step of a history. -/
def outcome (history : List Request) (step : Nat) : Option (Except InspectError Constants) :=
  history[step]?.bind fun request => ((after (history.take step)).serve request).1

/-- The step resolved the constants of a build. -/
def Resolves (history : List Request) (build : String) (step : Nat) : Prop :=
  ∃ t k, history[step]? = some (.resolve t) ∧ t.build = build ∧
    outcome history step = some (.ok k)

/-- Every step from the first one up to the last resolved the constants of the build. -/
def Unbroken (history : List Request) (build : String) (first last : Nat) : Prop :=
  first ≤ last ∧ ∀ step, first ≤ step → step ≤ last → Resolves history build step

variable {history : List Request} {build : String} {k : Constants} {step : Nat}

theorem after_append (history : List Request) (request : Request) :
    after (history ++ [request]) = ((after history).serve request).2 := by
  simp [after, List.foldl_append]

theorem outcome_append (earlier : step < history.length) (later : List Request) :
    outcome (history ++ later) step = outcome history step := by
  unfold outcome
  rw [List.getElem?_append_left earlier, List.take_append_of_le_length (Nat.le_of_lt earlier)]

theorem outcome_last (history : List Request) (request : Request) :
    outcome (history ++ [request]) history.length = ((after history).serve request).1 := by
  simp [outcome]

theorem resolves_append (earlier : step < history.length) (later : List Request) :
    Resolves (history ++ later) build step ↔ Resolves history build step := by
  unfold Resolves
  rw [outcome_append earlier, List.getElem?_append_left earlier]

theorem resolves_last {request : Request} :
    Resolves (history ++ [request]) build history.length ↔
      ∃ k, (after (history ++ [request])).kept = some (build, k) := by
  unfold Resolves
  rw [outcome_last, after_append]
  cases request with
  | invalidate => simp [serve, invalidate, Run.update, empty]
  | resolve t =>
    simp only [serve, kept_resolve]
    cases (resolve t (after history)).1 <;> simp [Except.toOption]

/-- The earliest step from which the history is unbroken is where the table that is kept was
resolved. A step that finds the table extends the run; one that does not find it starts a run of its
own, since a success for the build one step before would have left the table to be found. -/
theorem kept_since (kept : (after history).kept = some (build, k)) :
    ∃ t first, history[first]? = some (.resolve t) ∧ t.build = build ∧
      Constants.resolve t = .ok k ∧
      IsLeast {first | Unbroken history build first (history.length - 1)} first := by
  induction history using List.reverseRecOn with
  | nil => cases kept
  | append_singleton history request ih =>
    have last := resolves_last.mpr ⟨k, kept⟩
    rw [List.length_append, List.length_singleton, Nat.add_sub_cancel]
    rw [after_append] at kept
    cases request with
    | invalidate => cases kept
    | resolve t =>
      rw [serve, kept_resolve] at kept
      obtain ⟨table, returned, same⟩ := Option.map_eq_some_iff.mp kept
      obtain ⟨rfl, rfl⟩ := Prod.mk.inj same
      cases found : (after history).find? t.build with
      | some old =>
        rw [resolve_hit found] at returned
        cases returned
        obtain ⟨source, first, asked, named, resolved, run, least⟩ :=
          ih (find?_eq_some_iff.mp found)
        have bound := (List.getElem?_eq_some_iff.mp asked).1
        refine ⟨source, first, ?_, named, resolved, ⟨Nat.le_of_lt bound, ?_⟩, ?_⟩
        · rw [List.getElem?_append_left bound, asked]
        · intro step low high
          rcases Nat.lt_or_eq_of_le high with inside | rfl
          · exact (resolves_append inside _).mpr (run.2 step low (by omega))
          · exact last
        · intro other unbroken
          rcases Nat.lt_or_eq_of_le unbroken.1 with inside | rfl
          · refine least ⟨by omega, fun step low high => ?_⟩
            exact (resolves_append (by omega) _).mp (unbroken.2 step low (by omega))
          · exact Nat.le_of_lt bound
      | none =>
        rw [resolve_miss found] at returned
        have resolved : Constants.resolve t = .ok table := by
          cases answer : Constants.resolve t with
          | error e => rw [answer] at returned; cases returned
          | ok k => rw [answer] at returned; cases returned; rfl
        refine ⟨t, history.length, by simp, rfl, resolved, ⟨Nat.le_refl _, ?_⟩, ?_⟩
        · intro step low high
          rw [Nat.le_antisymm high low]
          exact last
        · intro other unbroken
          by_contra earlier
          have before := unbroken.2 (history.length - 1) (by omega) (by omega)
          rw [resolves_append (by omega)] at before
          cases history using List.reverseRecOn with
          | nil => simp at earlier
          | append_singleton history request =>
            rw [List.length_append, List.length_singleton, Nat.add_sub_cancel] at before
            obtain ⟨old, kept⟩ := resolves_last.mp before
            rw [find?_eq_some_iff.mpr kept] at found
            cases found

theorem resolves_take {other : Nat} (made : step < history.length) (before : other ≤ step) :
    Resolves (history.take (step + 1)) build other ↔ Resolves history build other := by
  have inside : other < (history.take (step + 1)).length := by
    rw [List.length_take]
    omega
  conv => rhs; rw [← List.take_append_drop (step + 1) history]
  exact (resolves_append inside _).symm

theorem resolves_iff_kept (made : step < history.length) :
    Resolves history build step ↔
      ∃ k, (after (history.take (step + 1))).kept = some (build, k) := by
  have length : (history.take step).length = step := by
    rw [List.length_take]
    omega
  rw [← resolves_take made (Nat.le_refl _), List.take_succ_eq_append_getElem made, ← resolves_last,
    length]

theorem unbroken_take {first : Nat} (made : step < history.length) :
    Unbroken (history.take (step + 1)) build first step ↔ Unbroken history build first step := by
  constructor
  · rintro ⟨before, run⟩
    exact ⟨before, fun other low high => (resolves_take made high).mp (run other low high)⟩
  · rintro ⟨before, run⟩
    exact ⟨before, fun other low high => (resolves_take made high).mpr (run other low high)⟩

/-- What a step hands out is what the cache holds after it. -/
theorem kept_of_outcome (made : step < history.length)
    (handed : outcome history step = some (.ok k)) :
    ∃ build, (after (history.take (step + 1))).kept = some (build, k) := by
  unfold outcome at handed
  rw [List.getElem?_eq_getElem made] at handed
  rw [List.take_succ_eq_append_getElem made, after_append]
  cases asked : history[step] with
  | invalidate => rw [asked] at handed; cases handed
  | resolve t =>
    rw [asked] at handed
    rw [serve, kept_resolve, Option.some.inj handed]
    exact ⟨t.build, rfl⟩

theorem resolve_error {t : Target} {cache : ConstantCache} {e : InspectError}
    (failed : (resolve t cache).1 = .error e) : Constants.resolve t = .error e := by
  cases found : cache.find? t.build with
  | some k => rw [resolve_hit found] at failed; cases failed
  | none => rwa [resolve_miss found] at failed

/-- After any step of any history a cache holds a table exactly when that step resolved one. A
table that a step hands out is the one resolved at the earliest step from which every step up to
this one resolved the constants of the same build; it has passed its check, so every shift in it is
a plain one. A step that fails does so because the constants of its own target do not resolve. -/
theorem history_serves (history : List Request) (step : Nat) (made : step < history.length) :
    ((after (history.take (step + 1))).isResolved = true ↔
        ∃ build, Resolves history build step) ∧
      (∀ k, outcome history step = some (.ok k) →
        (∃ t first, history[first]? = some (.resolve t) ∧ Constants.resolve t = .ok k ∧
          IsLeast {first | Unbroken history t.build first step} first) ∧
        k.validate = .ok () ∧
        ∀ shift : Constant, shift.isShift = true →
          k.get shift < 64 ∧ ∀ bits, k.shiftRight bits shift = bits >>> k.get shift) ∧
      ∀ e, outcome history step = some (.error e) →
        ∃ t, history[step]? = some (.resolve t) ∧ Constants.resolve t = .error e := by
  refine ⟨?_, ?_, ?_⟩
  · simp only [resolves_iff_kept made, isResolved, Option.isSome_iff_exists, Prod.exists]
  · intro k handed
    obtain ⟨build, kept⟩ := kept_of_outcome made handed
    obtain ⟨t, first, asked, rfl, resolved, least⟩ := kept_since kept
    have length : (history.take (step + 1)).length - 1 = step := by
      rw [List.length_take]
      omega
    simp only [length, unbroken_take made] at least
    have valid := Constants.validate_of_resolve resolved
    refine ⟨⟨t, first, ?_, resolved, least⟩, valid, ?_⟩
    · rwa [List.getElem?_take_of_lt (Nat.lt_succ_of_le least.1.1)] at asked
    · intro shift isShift
      have small := Constants.shift_lt_of_validate valid isShift
      exact ⟨small, Constants.shiftRight_of_lt small⟩
  · intro e failed
    unfold outcome at failed
    rw [List.getElem?_eq_getElem made] at failed ⊢
    cases asked : history[step] with
    | invalidate => rw [asked] at failed; cases failed
    | resolve t =>
      rw [asked] at failed
      exact ⟨t, rfl, resolve_error (Option.some.inj failed)⟩

/-- A build, another one, the first one again, and a last time when its target no longer knows any
constant. -/
def returning : List Request :=
  let t := Inspector.shared.target
  [.resolve t, .resolve { t with build := "other" }, .resolve t,
   .resolve { t with constant := fun name => .error (.unknownSymbol name) }]

/-- The last step hands out a table that its own target could not resolve. -/
theorem returning_serves :
    3 < returning.length ∧ outcome returning 3 = some (.ok .default) ∧
      (∃ t first, returning[first]? = some (.resolve t) ∧
        Constants.resolve t = .ok .default ∧
        IsLeast {first | Unbroken returning t.build first 3} first) ∧
      Constants.default.validate = .ok () := by
  have served := (history_serves returning 3 (by decide)).2.1 .default rfl
  exact ⟨by decide, rfl, served.1, served.2.1⟩

end ConstantCache
end HeapLens
