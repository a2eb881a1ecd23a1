import HeapLens.Proofs.View.Children

/-!
What a computation asks of memory. The trace only grows, so the reads of one computation are those
behind the trace that it started from; a failure keeps the reads that were made before it.
-/
namespace HeapLens
open Run

/-- Started after the trace `before`, the computation makes reads with the property `Q` and no
others, whether it fails or not. -/
structure Asks {α : Type} (x : Probe α) (before : Trace) (Q : List ReadRequest → Prop) : Prop where
  made : ∃ requests : List ReadRequest, (x before).2 = before ++ requests.toArray ∧ Q requests

section
variable {α β : Type} {x y : Probe α} {before : Trace} {P Q : List ReadRequest → Prop}

theorem asks_none {outcome : Except InspectError α} (run : x before = (outcome, before))
    (none : Q []) : Asks x before Q where
  made := ⟨[], by rw [run]; simp, none⟩

theorem asks_pure {a : α} (none : Q []) : Asks (pure a : Probe α) before Q :=
  asks_none rfl none

theorem asks_fail {e : InspectError} (none : Q []) : Asks (Run.fail e : Probe α) before Q :=
  asks_none rfl none

theorem Asks.mono (asks : Asks x before P) (weaker : ∀ requests, P requests → Q requests) :
    Asks x before Q := by
  obtain ⟨requests, grown, holds⟩ := asks.made
  exact ⟨requests, grown, weaker requests holds⟩

theorem asks_bind {f : α → Probe β} (first : Asks x before P)
    (stop : ∀ requests, P requests → Q requests)
    (next : ∀ a requests, x before = (.ok a, before ++ requests.toArray) → P requests →
      Asks (f a) (before ++ requests.toArray) fun more => Q (requests ++ more)) :
    Asks (x >>= f) before Q := by
  obtain ⟨requests, grown, holds⟩ := first.made
  cases run : x before with
  | mk outcome after =>
    rw [run] at grown
    dsimp only at grown
    subst grown
    constructor
    rw [bind_apply, run]
    cases outcome with
    | error e => exact ⟨requests, rfl, stop requests holds⟩
    | ok a =>
      obtain ⟨more, grown, holds⟩ := (next a requests run holds).made
      exact ⟨requests ++ more, grown.trans (by simp), holds⟩

theorem asks_then_pure {f : α → β} (asks : Asks x before Q) :
    Asks (do return f (← x)) before Q := by
  apply asks_bind asks fun _ holds => holds
  intro a requests _ holds
  exact asks_pure (by rwa [List.append_nil])

theorem asks_after_lift {z : Except InspectError α} {f : α → Probe β} (none : Q [])
    (next : ∀ a, z = .ok a → Asks (f a) before Q) :
    Asks ((liftM z : Probe α) >>= f) before Q := by
  cases z with
  | error e => exact asks_none rfl none
  | ok a => exact next a rfl

theorem asks_after_access {z : Except AccessError α} {f : α → Probe β} (none : Q [])
    (next : ∀ a, z = .ok a → Asks (f a) before Q) :
    Asks ((liftM z : Probe α) >>= f) before Q := by
  cases z with
  | error e => exact asks_none rfl none
  | ok a => exact next a rfl

theorem asks_after_found {z : Except AccessError α} {a : α} {f : α → Probe β} (found : z = .ok a)
    (next : Asks (f a) before Q) : Asks ((liftM z : Probe α) >>= f) before Q := by
  subst found
  exact next

theorem asks_ite {p : Prop} [Decidable p] (yes : p → Asks x before Q) (no : ¬ p → Asks y before Q) :
    Asks (if p then x else y) before Q := by
  split
  · next holds => exact yes holds
  · next fails => exact no fails

theorem asks_guard {p : Prop} [Decidable p] {e : InspectError} (none : Q [])
    (passed : ¬ p → Asks x before Q) : Asks (if p then Run.fail e else x) before Q :=
  asks_ite (fun _ => asks_fail none) passed

theorem asks_attempt (asks : Asks x before Q) : Asks x.attempt before Q := by
  obtain ⟨requests, grown, holds⟩ := asks.made
  exact ⟨requests, grown, holds⟩

theorem asks_read (t : Target) (address size : UInt64) :
    Asks (t.read address size) before (· = [⟨address, size⟩]) where
  made := ⟨[⟨address, size⟩], by rw [Target.read_apply, Array.push_eq_append], rfl⟩

end

end HeapLens
