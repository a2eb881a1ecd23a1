import HeapLens.Run

/-!
Laws of computations over a state that may fail. `Ensures` speaks about the results of one
computation, `Yields` also says that it has one, `Confined` is about the states it leads to and the
errors it ends in, `Agree` about the outcomes of two that may start in different states: both fail
with the same error, or both succeed with related results.
-/
namespace HeapLens

theorem bind_eq_ok {ε α β : Type} {x : Except ε α} {f : α → Except ε β} {b : β}
    (h : (x >>= f) = .ok b) : ∃ a, x = .ok a ∧ f a = .ok b := by
  cases x with
  | error e => cases h
  | ok a => exact ⟨a, rfl, h⟩

theorem Except.mapError_eq_ok {ε δ α : Type} {f : ε → δ} {x : Except ε α} {a : α}
    (ok : x.mapError f = .ok a) : x = .ok a := by
  cases x with
  | error e => cases ok
  | ok b => cases ok; rfl

namespace Run
variable {σ τ α β γ δ : Type}

instance : LawfulMonad (Run σ) := LawfulMonad.mk' _
  (by
    intro α x
    funext s
    change (match x s with
      | (.ok a, t) => (.ok a, t)
      | (.error e, t) => (.error e, t)) = x s
    split
    · next run => exact run.symm
    · next run => exact run.symm)
  (fun a f => rfl)
  (by
    intro α β γ x f g
    funext s
    simp only [bind_apply]
    cases x s with
    | mk outcome t => cases outcome <;> rfl)

theorem bind_congr_at {x : Run σ α} {y : Run σ α} {f g : α → Run σ β} {s : σ} (first : x s = y s)
    (next : ∀ a t, y s = (.ok a, t) → f a t = g a t) : (x >>= f) s = (y >>= g) s := by
  rw [bind_apply, bind_apply, first]
  cases run : y s with
  | mk outcome t =>
    cases outcome with
    | error e => rfl
    | ok a => exact next a t run

theorem bind_at {x : Run σ α} {f : α → Run σ β} {s t : σ} {a : α} (first : x s = (.ok a, t)) :
    (x >>= f) s = f a t := by
  rw [bind_apply, first]

theorem bind_error_at {x : Run σ α} {f : α → Run σ β} {s t : σ} {e : InspectError}
    (first : x s = (.error e, t)) : (x >>= f) s = (.error e, t) := by
  rw [bind_apply, first]

theorem bind_lift_at {x : Except InspectError α} {f : α → Run σ β} {s : σ} {a : α}
    (made : x = .ok a) : ((liftM x : Run σ α) >>= f) s = f a s := by
  subst made
  rfl

theorem bind_access_at {x : Except AccessError α} {f : α → Run σ β} {s : σ} {a : α}
    (made : x = .ok a) : ((liftM x : Run σ α) >>= f) s = f a s := by
  subst made
  rfl

theorem bind_ok {x : Run σ α} {f : α → Run σ β} {s u : σ} {b : β}
    (run : (x >>= f) s = (.ok b, u)) : ∃ a t, x s = (.ok a, t) ∧ f a t = (.ok b, u) := by
  rw [bind_apply] at run
  split at run
  · next a t first => exact ⟨a, t, first, run⟩
  · cases run

theorem ok_of_isOk {outcome : Except InspectError Unit} (ok : outcome.isOk = true) :
    outcome = .ok () := by
  cases outcome with
  | error e => cases ok
  | ok _ => rfl

theorem lift_ok {x : Except InspectError α} {s t : σ} {a : α}
    (run : (liftM x : Run σ α) s = (.ok a, t)) : x = .ok a ∧ s = t := by
  cases x with
  | error e => cases run
  | ok b => cases run; exact ⟨rfl, rfl⟩

theorem lift_bind_ok {x : Except InspectError α} {f : α → Run σ β} {s u : σ} {b : β}
    (run : ((liftM x : Run σ α) >>= f) s = (.ok b, u)) : ∃ a, x = .ok a ∧ f a s = (.ok b, u) := by
  cases x with
  | error e => cases run
  | ok a => exact ⟨a, rfl, run⟩

theorem access_bind_ok {x : Except AccessError α} {f : α → Run σ β} {s u : σ} {b : β}
    (run : ((liftM x : Run σ α) >>= f) s = (.ok b, u)) : ∃ a, x = .ok a ∧ f a s = (.ok b, u) := by
  cases x with
  | error e => cases run
  | ok a => exact ⟨a, rfl, run⟩

theorem guard_ok {p : Prop} [Decidable p] {e : InspectError} {x : Run σ α} {s t : σ} {a : α}
    (run : (if p then fail e else x) s = (.ok a, t)) : ¬ p ∧ x s = (.ok a, t) := by
  by_cases failed : p
  · rw [if_pos failed] at run
    cases run
  · rw [if_neg failed] at run
    exact ⟨failed, run⟩

theorem each_map (f : β → Run σ Unit) (g : α → β) (as : List α) :
    each f (as.map g) = each (fun a => f (g a)) as := by
  induction as with
  | nil => rfl
  | cons a as ih => simp only [List.map_cons, each, ih]

theorem each_cons (f : α → Run σ Unit) (a : α) (as : List α) :
    each f (a :: as) = (do f a; each f as) := rfl

theorem each_append (f : α → Run σ Unit) (as bs : List α) :
    each f (as ++ bs) = (do each f as; each f bs) := by
  induction as with
  | nil => rfl
  | cons a as ih => rw [List.cons_append, each_cons, each_cons, ih, bind_assoc]

/-- Every result of the computation has the property. -/
structure Ensures (x : Run σ α) (Q : α → Prop) : Prop where
  result : ∀ s a t, x s = (.ok a, t) → Q a

theorem ensures_trivial (x : Run σ α) : Ensures x fun _ => True where
  result _ _ _ _ := trivial

theorem ensures_pure {Q : α → Prop} {a : α} (h : Q a) : Ensures (pure a : Run σ α) Q := by
  constructor
  intro s b t run
  cases run
  exact h

theorem ensures_fail {Q : α → Prop} (e : InspectError) : Ensures (fail e : Run σ α) Q := by
  constructor
  intro s a t run
  cases run

theorem ensures_lift {Q : α → Prop} {x : Except InspectError α} (h : ∀ a, x = .ok a → Q a) :
    Ensures (liftM x : Run σ α) Q := by
  constructor
  intro s a t run
  cases x with
  | error e => cases run
  | ok b => cases run; exact h _ rfl

theorem ensures_access {Q : α → Prop} {x : Except AccessError α} (h : ∀ a, x = .ok a → Q a) :
    Ensures (liftM x : Run σ α) Q := by
  constructor
  intro s a t run
  cases x with
  | error cause => cases run
  | ok b => cases run; exact h _ rfl

theorem ensures_bind {x : Run σ α} {f : α → Run σ β} {P : α → Prop} {Q : β → Prop}
    (first : Ensures x P) (next : ∀ a, P a → Ensures (f a) Q) : Ensures (x >>= f) Q := by
  constructor
  intro s b u run
  obtain ⟨a, t, hx, hf⟩ := bind_ok run
  have holds := first.result s a t hx
  exact (next a holds).result t b u hf

theorem ensures_after {x : Run σ α} {f : α → Run σ β} {Q : β → Prop}
    (next : ∀ a, Ensures (f a) Q) : Ensures (x >>= f) Q :=
  ensures_bind (ensures_trivial x) fun a _ => next a

theorem ensures_after_lift {x : Except InspectError α} {f : α → Run σ β} {Q : β → Prop}
    (next : ∀ a, x = .ok a → Ensures (f a) Q) : Ensures ((liftM x : Run σ α) >>= f) Q :=
  ensures_bind (ensures_lift fun _ made => made) next

theorem ensures_after_access {x : Except AccessError α} {f : α → Run σ β} {Q : β → Prop}
    (next : ∀ a, x = .ok a → Ensures (f a) Q) : Ensures ((liftM x : Run σ α) >>= f) Q :=
  ensures_bind (ensures_access fun _ made => made) next

theorem ensures_ite {p : Prop} [Decidable p] {x y : Run σ α} {Q : α → Prop}
    (yes : Ensures x Q) (no : Ensures y Q) : Ensures (if p then x else y) Q := by
  split
  · exact yes
  · exact no

theorem ensures_guard {p : Prop} [Decidable p] {e : InspectError} {x : Run σ α} {Q : α → Prop}
    (passed : Ensures x Q) : Ensures (if p then fail e else x) Q :=
  ensures_ite (ensures_fail e) passed

/-- From this state the computation succeeds, and its result has the property. -/
structure Yields (x : Run σ α) (s : σ) (Q : α → Prop) : Prop where
  result : ∃ a t, x s = (.ok a, t) ∧ Q a

section Yields
variable {x : Run σ α} {s : σ} {Q : α → Prop}

theorem yields_of_run {a : α} {t : σ} (run : x s = (.ok a, t)) (h : Q a) : Yields x s Q :=
  ⟨a, t, run, h⟩

theorem yields_pure {a : α} (h : Q a) : Yields (pure a : Run σ α) s Q := yields_of_run rfl h

theorem yields_bind {f : α → Run σ β} {R : β → Prop} (first : Yields x s Q)
    (next : ∀ a t, Q a → Yields (f a) t R) : Yields (x >>= f) s R := by
  obtain ⟨a, t, run, holds⟩ := first.result
  obtain ⟨b, u, rest, final⟩ := (next a t holds).result
  exact yields_of_run ((bind_at run).trans rest) final

theorem yields_after_lift {y : Except InspectError α} {f : α → Run σ β} {R : β → Prop} {a : α}
    (made : y = .ok a) (next : Yields (f a) s R) : Yields ((liftM y : Run σ α) >>= f) s R := by
  subst made
  exact next

theorem yields_after_access {y : Except AccessError α} {f : α → Run σ β} {R : β → Prop} {a : α}
    (made : y = .ok a) (next : Yields (f a) s R) : Yields ((liftM y : Run σ α) >>= f) s R := by
  subst made
  exact next

theorem yields_if {p : Prop} [Decidable p] {y : Run σ α} (holds : p) (yes : Yields x s Q) :
    Yields (if p then x else y) s Q := by
  rwa [if_pos holds]

theorem yields_else {p : Prop} [Decidable p] {y : Run σ α} (fails : ¬ p) (no : Yields x s Q) :
    Yields (if p then y else x) s Q := by
  rwa [if_neg fails]

end Yields

/-- From a state with the property `P` the computation leads to a state with that property, whether
it fails or not, and it fails with no error but one that `E` allows. -/
structure Confined (x : Run σ α) (P : σ → Prop) (E : InspectError → Prop) : Prop where
  state : ∀ s, P s → P (x s).2
  error : ∀ s e, P s → (x s).1 = .error e → E e

section Confined
variable {x : Run σ α} {P : σ → Prop} {E : InspectError → Prop}

theorem Confined.after {outcome : Except InspectError α} {s t : σ} (confined : Confined x P E)
    (before : P s) (run : x s = (outcome, t)) : P t := by
  have kept := confined.state s before
  rwa [run] at kept

theorem confined_pure (a : α) : Confined (pure a : Run σ α) P E where
  state _ before := before
  error _ _ _ failed := by cases failed

theorem confined_fail {e : InspectError} (allowed : E e) :
    Confined (fail e : Run σ α) P E where
  state _ before := before
  error _ _ _ failed := by cases failed; exact allowed

theorem confined_lift {x : Except InspectError α} (allowed : ∀ e, x = .error e → E e) :
    Confined (liftM x : Run σ α) P E := by
  cases x with
  | error e => exact confined_fail (allowed e rfl)
  | ok a => exact confined_pure a

theorem confined_access {x : Except AccessError α}
    (allowed : ∀ cause, x = .error cause → E (.access cause)) :
    Confined (liftM x : Run σ α) P E := by
  cases x with
  | error cause => exact confined_fail (allowed cause rfl)
  | ok a => exact confined_pure a

/-- What follows needs to be confined for the results that the first computation can have. -/
theorem confined_bind_of {f : α → Run σ β} {Q : α → Prop} (first : Confined x P E)
    (results : Ensures x Q) (next : ∀ a, Q a → Confined (f a) P E) :
    Confined (x >>= f) P E := by
  constructor
  · intro s before
    have middle := first.state s before
    rw [bind_apply]
    cases run : x s with
    | mk outcome t =>
      rw [run] at middle
      cases outcome with
      | error e => exact middle
      | ok a => exact (next a (results.result s a t run)).state t middle
  · intro s e before failed
    have middle := first.state s before
    rw [bind_apply] at failed
    cases run : x s with
    | mk outcome t =>
      rw [run] at middle failed
      cases outcome with
      | error d => cases failed; exact first.error s _ before (by rw [run])
      | ok a => exact (next a (results.result s a t run)).error t e middle failed

theorem confined_bind {f : α → Run σ β} (first : Confined x P E)
    (next : ∀ a, Confined (f a) P E) : Confined (x >>= f) P E :=
  confined_bind_of first (ensures_trivial x) fun a _ => next a

theorem confined_bind_access {x : Except AccessError α} {f : α → Run σ β}
    (allowed : ∀ cause, x = .error cause → E (.access cause))
    (next : ∀ a, x = .ok a → Confined (f a) P E) :
    Confined ((liftM x : Run σ α) >>= f) P E :=
  confined_bind_of (confined_access allowed) (ensures_access fun _ made => made) next

theorem confined_ite {p : Prop} [Decidable p] {y : Run σ α} (yes : Confined x P E)
    (no : Confined y P E) : Confined (if p then x else y) P E := by
  split
  · exact yes
  · exact no

theorem confined_guard {p : Prop} [Decidable p] {e : InspectError} (allowed : E e)
    (passed : Confined x P E) : Confined (if p then fail e else x) P E :=
  confined_ite (confined_fail allowed) passed

theorem confined_attempt {F : InspectError → Prop} (h : Confined x P E) :
    Confined x.attempt P F where
  state := h.state
  error _ _ _ failed := by cases failed

theorem confined_each {f : α → Run σ Unit} (one : ∀ a, Confined (f a) P E) (as : List α) :
    Confined (each f as) P E := by
  induction as with
  | nil => exact confined_pure ()
  | cons a as ih =>
    rw [each_cons]
    exact confined_bind (one a) fun _ => ih

end Confined

/-- The same error, or related results. -/
inductive Alike (R : α → β → Prop) : Except InspectError α → Except InspectError β → Prop where
  | ok {a : α} {b : β} (related : R a b) : Alike R (.ok a) (.ok b)
  | error (e : InspectError) : Alike R (.error e) (.error e)

/-- The outcomes are alike, wherever the two computations start. -/
structure Agree (x : Run σ α) (y : Run τ β) (R : α → β → Prop) : Prop where
  outcome : ∀ s t, Alike R (x s).1 (y t).1

theorem agree_pure {R : α → β → Prop} {a : α} {b : β} (related : R a b) :
    Agree (pure a : Run σ α) (pure b : Run τ β) R where
  outcome _ _ := .ok related

theorem agree_fail {R : α → β → Prop} (e : InspectError) :
    Agree (fail e : Run σ α) (fail e : Run τ β) R where
  outcome _ _ := .error e

theorem agree_lift (x : Except InspectError α) :
    Agree (liftM x : Run σ α) (liftM x : Run τ α) Eq := by
  constructor
  intro s t
  cases x with
  | error e => exact .error e
  | ok a => exact .ok rfl

theorem agree_bind {x : Run σ α} {y : Run τ β} {f : α → Run σ γ} {g : β → Run τ δ}
    {R : α → β → Prop} {Q : γ → δ → Prop} (first : Agree x y R)
    (next : ∀ a b, R a b → Agree (f a) (g b) Q) : Agree (x >>= f) (y >>= g) Q := by
  constructor
  intro s t
  have alike := first.outcome s t
  rw [bind_apply, bind_apply]
  cases hx : x s with
  | mk outcome s' =>
    cases hy : y t with
    | mk other t' =>
      rw [hx, hy] at alike
      cases alike with
      | error e => exact .error e
      | ok related => exact (next _ _ related).outcome s' t'

theorem agree_after {x : Run σ α} {y : Run τ α} {f : α → Run σ γ} {g : α → Run τ δ}
    {Q : γ → δ → Prop} (first : Agree x y Eq) (next : ∀ a, Agree (f a) (g a) Q) :
    Agree (x >>= f) (y >>= g) Q :=
  agree_bind first fun a _ same => same ▸ next a

theorem agree_ite {p : Prop} [Decidable p] {x y : Run σ α} {x' y' : Run τ β} {R : α → β → Prop}
    (yes : Agree x x' R) (no : Agree y y' R) :
    Agree (if p then x else y) (if p then x' else y') R := by
  split
  · exact yes
  · exact no

theorem agree_guard {p : Prop} [Decidable p] {e : InspectError} {x : Run σ α} {y : Run τ β}
    {R : α → β → Prop} (passed : Agree x y R) :
    Agree (if p then fail e else x) (if p then fail e else y) R :=
  agree_ite (agree_fail e) passed

theorem Alike.eq {a b : Except InspectError α} (h : Alike Eq a b) : a = b := by
  cases h with
  | error e => rfl
  | ok same => rw [same]

end Run
end HeapLens
