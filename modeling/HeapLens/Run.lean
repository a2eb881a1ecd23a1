import HeapLens.Error

/-!
Computations over a state that may fail. The state survives a failure: reads that were made and
text that was written before an error stay made and written.
-/
namespace HeapLens

def Run (σ α : Type) : Type := σ → Except InspectError α × σ

namespace Run

variable {σ τ α β : Type}

def ret (a : α) : Run σ α := fun s => (.ok a, s)

def andThen (x : Run σ α) (f : α → Run σ β) : Run σ β := fun s =>
  match x s with
  | (.ok a, s) => f a s
  | (.error e, s) => (.error e, s)

instance : Monad (Run σ) where
  pure := ret
  bind := andThen

def fail (e : InspectError) : Run σ α := fun s => (.error e, s)

def ofExcept : Except InspectError α → Run σ α
  | .ok a => ret a
  | .error e => fail e

instance : MonadLift (Except InspectError) (Run σ) := ⟨ofExcept⟩

instance : MonadLift (Except AccessError) (Except InspectError) := ⟨Except.mapError .access⟩

/-- The outcome of a computation, a failure included, as a value. -/
def attempt (x : Run σ α) : Run σ (Except InspectError α) := fun s =>
  let (outcome, s) := x s
  (.ok outcome, s)

def state : Run σ σ := fun s => (.ok s, s)

def update (f : σ → σ) : Run σ Unit := fun s => (.ok (), f s)

def within (part : σ → τ) (put : τ → σ → σ) (x : Run τ α) : Run σ α := fun s =>
  let (outcome, t) := x (part s)
  (outcome, put t s)

/-- Runs a computation for each element in turn, up to the first failure. -/
def each (f : α → Run σ Unit) : List α → Run σ Unit
  | [] => ret ()
  | a :: as => andThen (f a) fun _ => each f as

@[simp] theorem pure_apply (a : α) (s : σ) : (pure a : Run σ α) s = (.ok a, s) := rfl

theorem bind_apply (x : Run σ α) (f : α → Run σ β) (s : σ) :
    (x >>= f) s = match x s with
      | (.ok a, s) => f a s
      | (.error e, s) => (.error e, s) := rfl

@[simp] theorem fail_apply (e : InspectError) (s : σ) :
    (fail e : Run σ α) s = (.error e, s) := rfl

end Run
end HeapLens
