import HeapLens.Proofs.Print.Failure
import HeapLens.Proofs.View.Effects
import HeapLens.Session

/-!
Batches of expressions. Whatever was inspected before, a session keeps nothing but the constants of
its target, and one expression leaves nothing behind for the next; so in memory that does not change
the text of a batch is made of answers, one for each expression, and an answer depends on its
expression alone.
-/
namespace HeapLens
open Run

def Target.wordOf (t : Target) (expression : String) : Except AccessError UInt64 := do
  (← t.evaluate expression).tagged

/-- The word of an expression, if there is one and it can be interpreted. -/
def Inspector.root (i : Inspector) (expression : String) : Except InspectError UInt64 := do
  let word ← i.target.wordOf expression
  let _ ← (i.interpret word #[]).1
  return word

/-- What a batch prints for an expression: the tree of its word, from an empty set of visited
objects, or a single line that says why there is none. -/
inductive Inspector.Answer (i : Inspector) (options : Options) (expression : String) :
    String → Prop where
  | tree {word : UInt64} {rows : List Row} {m : Moment} (root : i.root expression = .ok word)
      (outline : Outline i (options.depth - 1) 0 [⟨none, word⟩] ⟨#[], .empty⟩ rows m) :
      Answer i options expression (Row.text options.debug rows)
  | evaluation {cause : AccessError} (root : i.root expression = .error (.access cause)) :
      Answer i options expression
        ("Error evaluating expression '" ++ expression ++ "': " ++ cause.message ++ "\n")
  | processing {e : InspectError} (root : i.root expression = .error e)
      (other : ∀ cause, e ≠ .access cause) :
      Answer i options expression ("Error processing '" ++ expression ++ "': " ++ e.message ++ "\n")

theorem Inspector.Answer.unique {i : Inspector} {options : Options} {expression text other : String}
    (left : i.Answer options expression text) (right : i.Answer options expression other) :
    text = other := by
  cases left with
  | tree root outline =>
    cases right with
    | tree root' outline' =>
      cases root.symm.trans root'
      rw [(outline.unique outline').1]
    | evaluation root' => cases root.symm.trans root'
    | processing root' => cases root.symm.trans root'
  | evaluation root =>
    cases right with
    | tree root' => cases root.symm.trans root'
    | evaluation root' => cases root.symm.trans root'; rfl
    | processing root' different =>
      cases root.symm.trans root'
      exact absurd rfl (different _)
  | processing root different =>
    cases right with
    | tree root' => cases root.symm.trans root'
    | evaluation root' =>
      cases root.symm.trans root'
      exact absurd rfl (different _)
    | processing root' => cases root.symm.trans root'; rfl

namespace Console

/-- One expression of a batch. -/
def inspectNext (k : Constants) (options : Options) (expression : String) : Command Unit := do
  match ← (inspectOne k options expression).attempt with
  | .ok () => return ()
  | .error e => report expression e

theorem inspect_eq (expressions : List String) (options : Options) :
    inspect expressions options = (do
      options.validate
      let k ← constants
      Run.each (inspectNext k options) expressions) := rfl

section
variable {k : Constants} {options : Options} {expression : String} {c after : Console}

section
variable {word : UInt64} {after : Trace} (stable : c.session.target.Stable)
  (room : c.out.room = none) (found : c.session.target.wordOf expression = .ok word)
include stable room found

end

end

end Console

/-! Sessions that commands lead to. -/

/-- A session with a target whose cache keeps nothing but the constants of that target. -/
structure Session.Settled (t : Target) (k : Constants) (s : Session) : Prop where
  target : s.target = t
  cache : ∀ kept, s.cache.kept = some kept → kept = (t.build, k)

/-- What a session can be after inspections, with any options and into any sink, resolutions of the
constants and invalidations. -/
inductive Session.Reached (t : Target) : Session → Prop where
  | start : Reached t (.start t)
  | inspect {s : Session} (before : Reached t s) (expressions : List String) (options : Options)
      (out : Sink) : Reached t (Console.inspect expressions options ⟨s, out⟩).2.session
  | constants {s : Session} (before : Reached t s) (out : Sink) :
      Reached t (Console.constants ⟨s, out⟩).2.session
  | invalidate {s : Session} (before : Reached t s) (out : Sink) :
      Reached t (Console.invalidate ⟨s, out⟩).2.session

theorem ConstantCache.resolve_settled {t : Target} {k : Constants} {cache : ConstantCache}
    (resolved : Constants.resolve t = .ok k)
    (settled : ∀ kept, cache.kept = some kept → kept = (t.build, k)) :
    ConstantCache.resolve t cache = (.ok k, ⟨some (t.build, k)⟩) := by
  obtain ⟨_ | kept⟩ := cache
  · simp [ConstantCache.resolve, ConstantCache.find?, resolved]
  · cases settled kept rfl
    simp [ConstantCache.resolve, ConstantCache.find?]

section
variable {t : Target} {k : Constants}

theorem constants_settled (resolved : Constants.resolve t = .ok k) {c : Console}
    (settled : c.session.Settled t k) : Console.constants c =
      (.ok k, { c with session := { c.session with cache := ⟨some (t.build, k)⟩ } }) := by
  obtain ⟨⟨target, cache, trace⟩, out⟩ := c
  obtain ⟨rfl, settled⟩ := settled
  unfold Console.constants
  rw [bind_at (show Run.state _ = (.ok _, _) from rfl)]
  unfold Run.within
  dsimp only
  rw [ConstantCache.resolve_settled resolved settled]

/-- The command leaves a settled session settled. -/
abbrev Settles {α : Type} (t : Target) (k : Constants) (x : Command α) : Prop :=
  Confined x (fun c => c.session.Settled t k) fun _ => True

theorem write_settles (text : String) : Settles t k (Console.write text) where
  state _ settled := settled
  error _ _ _ _ := trivial

theorem printing_settles (x : Print Unit) : Settles t k (Console.printing x) where
  state _ settled := ⟨settled.target, settled.cache⟩
  error _ _ _ _ := trivial

theorem constants_settles (resolved : Constants.resolve t = .ok k) :
    Settles t k Console.constants where
  state c settled := by
    rw [constants_settled resolved settled]
    exact ⟨settled.target, fun kept found => (Option.some.inj found).symm⟩
  error _ _ _ _ := trivial

theorem inspectOne_settles (table : Constants) (options : Options) (expression : String) :
    Settles t k (Console.inspectOne table options expression) := by
  unfold Console.inspectOne
  apply confined_bind ⟨fun _ settled => settled, fun _ _ _ _ => trivial⟩
  intro c
  apply confined_bind (confined_lift fun _ _ => trivial)
  intro v
  apply confined_bind (confined_lift fun _ _ => trivial)
  intro word
  exact printing_settles _

theorem inspectNext_settles (table : Constants) (options : Options) (expression : String) :
    Settles t k (Console.inspectNext table options expression) := by
  unfold Console.inspectNext
  apply confined_bind (confined_attempt (inspectOne_settles table options expression))
  rintro (e | _)
  · cases e with
    | outputFailed => exact confined_fail trivial
    | _ => exact write_settles _
  · exact confined_pure _

theorem inspect_settles (resolved : Constants.resolve t = .ok k) (expressions : List String)
    (options : Options) : Settles t k (Console.inspect expressions options) := by
  rw [Console.inspect_eq]
  apply confined_bind (confined_lift fun _ _ => trivial)
  intro _
  apply confined_bind (constants_settles resolved)
  intro table
  exact confined_each (inspectNext_settles table options) expressions

theorem Session.Reached.settled (resolved : Constants.resolve t = .ok k) {s : Session}
    (reached : Session.Reached t s) : s.Settled t k := by
  induction reached with
  | start => exact ⟨rfl, nofun⟩
  | inspect before expressions options out ih =>
    exact (inspect_settles resolved expressions options).state _ ih
  | constants before out ih => exact (constants_settles resolved).state _ ih
  | invalidate before out ih => exact ⟨ih.target, nofun⟩

end

/-- What a batch writes into a sink without a bound. -/
def Session.output (s : Session) (expressions : List String) (options : Options) : String :=
  (Console.inspect expressions options ⟨s, .unbounded⟩).2.out.text

end HeapLens
