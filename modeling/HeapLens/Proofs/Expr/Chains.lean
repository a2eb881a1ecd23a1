import HeapLens.Proofs.Snapshot.Addressed
import HeapLens.Proofs.Target.Conversion
import HeapLens.Proofs.View.Plain

/-!
Chains of members. The names of a chain are joined with dots, longest first, and only a member that
does not exist sends evaluation on to a shorter name. Main statements: a chain is the member with
the joined name, wherever that member can be had; where no member has a dot in its name, a chain is
what the members make of its base one by one; and an arrow, a star in parentheses and an index of
zero in front of a chain give the same outcome.
-/
namespace HeapLens

/-! Types without dotted names. -/

namespace Layout

mutual

/-- No member has a dot in its name, here and in the types of targets and members. -/
def undotted : Layout → Bool
  | .integer _ _ _ | .float _ _ => true
  | .pointer _ _ target => target.undotted
  | .record _ _ members => undottedMembers members

def undottedMembers : List (String × UInt64 × Layout) → Bool
  | [] => true
  | (name, _, l) :: rest => !name.toList.contains '.' && l.undotted && undottedMembers rest

end

theorem undotted_target {l target : Layout} (plain : l.undotted = true)
    (known : l.target? = some target) : target.undotted = true := by
  cases l with
  | pointer name size inner =>
    cases known
    rwa [undotted] at plain
  | integer | float | record => cases known

theorem undotted_lookup {members : List (String × UInt64 × Layout)} {field : String}
    {offset : UInt64} {l : Layout} (plain : undottedMembers members = true)
    (known : members.lookup field = some (offset, l)) :
    '.' ∉ field.toList ∧ l.undotted = true := by
  induction members with
  | nil => cases known
  | cons entry rest ih =>
    obtain ⟨name, place, k⟩ := entry
    simp only [undottedMembers, Bool.and_eq_true, Bool.not_eq_true', List.contains_eq_mem,
      decide_eq_false_iff_not] at plain
    obtain ⟨⟨bare, inner⟩, others⟩ := plain
    rw [List.lookup_cons] at known
    split at known
    · next same =>
      cases known
      exact ⟨eq_of_beq same ▸ bare, inner⟩
    · exact ih others known

theorem undotted_member {l k : Layout} {field : String} {offset : UInt64}
    (plain : l.undotted = true) (known : l.member? field = some (offset, k)) :
    '.' ∉ field.toList ∧ k.undotted = true := by
  cases l with
  | record name size members =>
    rw [undotted] at plain
    exact undotted_lookup plain known
  | integer | float | pointer => cases known

theorem undotted_pointers {l : Layout} (plain : l.undotted = true) (count : Nat) :
    (Registry.pointers l count).undotted = true := by
  induction count with
  | zero => exact plain
  | succ count ih =>
    rw [Registry.pointers, pointerTo, undotted]
    exact ih

end Layout

/-- No type of the registry has a member with a dot in its name. -/
def Registry.Undotted (r : Registry) : Prop := ∀ entry ∈ r.entries, entry.2.undotted = true

instance (r : Registry) : Decidable r.Undotted := by
  unfold Registry.Undotted
  infer_instance

theorem Registry.Undotted.lookup {r : Registry} (plain : r.Undotted) {name : String} {l : Layout}
    (found : r.lookup name = .ok l) : l.undotted = true := by
  obtain ⟨base, key, stars, listed, rfl⟩ := Registry.lookup_ok found
  exact Layout.undotted_pointers (plain _ listed) stars

namespace Value
variable {v w : Value}

theorem deref_ok {read : UInt64 → UInt64 → Except AccessError Bytes}
    (run : v.deref read = .ok w) : v.type.target? = some w.type ∧
      ∃ address, read address w.type.size = .ok w.bytes := by
  unfold deref at run
  split at run
  · cases run
  · next target known =>
    obtain ⟨bytes, found, same⟩ := bind_eq_ok run
    cases same
    exact ⟨known, _, found⟩

theorem cast_ok {read : UInt64 → UInt64 → Except AccessError Bytes} {l : Layout}
    (run : v.cast read l = .ok w) : w.type = l ∧
      ((∃ address, read address l.size = .ok w.bytes) ∨ ∃ bits, w = scalar l bits) := by
  unfold cast at run
  split at run
  · obtain ⟨address, -, fetched⟩ := bind_eq_ok run
    obtain ⟨bytes, found, same⟩ := bind_eq_ok fetched
    cases same
    exact ⟨rfl, .inl ⟨address, found⟩⟩
  · cases run
    exact ⟨rfl, .inr ⟨_, rfl⟩⟩

theorem advance_ok {position : Int64} (run : v.advance position = .ok w) :
    ∃ target, v.type.target? = some target ∧
      w = scalar v.type (v.unsigned + position.toUInt64 * target.size) := by
  unfold advance at run
  split at run
  · cases run
  · next target known =>
    cases run
    exact ⟨target, known, rfl⟩

theorem member_unknown {field : String} (unknown : v.type.member? field = none) :
    v.member field = .error (.unknownMember v.type.name field) := by
  rw [member, unknown]

theorem member_dotted {field : String} (plain : v.type.undotted = true)
    (dotted : '.' ∈ field.toList) : v.member field = .error (.unknownMember v.type.name field) := by
  apply member_unknown
  cases known : v.type.member? field with
  | none => rfl
  | some entry => exact absurd dotted (Layout.undotted_member plain known).1

/-- A word that fits into the type is kept. -/
theorem unsigned_scalar_of_fits (fits : v.bytes.length ≤ v.type.size.toNat) :
    (scalar v.type v.unsigned).unsigned = v.unsigned := by
  apply UInt64.toNat_inj.mp
  rw [toNat_unsigned_scalar]
  apply Nat.mod_eq_of_lt
  refine Nat.lt_of_lt_of_le v.unsigned_lt (Nat.pow_le_pow_right (by decide) ?_)
  omega

theorem deref_target (read : UInt64 → UInt64 → Except AccessError Bytes) {target : Layout}
    (known : v.type.target? = some target) : v.deref read = fetch read target v.unsigned := by
  rw [deref, known]

/-- The element at zero is the target of the pointer. -/
theorem element_zero (read : UInt64 → UInt64 → Except AccessError Bytes)
    (fits : v.bytes.length ≤ v.type.size.toNat) : v.element read 0 = v.deref read := by
  cases known : v.type.target? with
  | none =>
    unfold element advance deref
    rw [known]
    rfl
  | some target =>
    have zero : (0 : Int64).toUInt64 = 0 := rfl
    have unmoved : v.advance 0 = .ok (scalar v.type v.unsigned) := by
      rw [advance, known]
      dsimp only
      rw [zero, UInt64.zero_mul, UInt64.add_zero]
    have first : v.element read 0 = (scalar v.type v.unsigned).deref read := by
      rw [element, unmoved]
      rfl
    have same : (scalar v.type v.unsigned).type.target? = some target := known
    rw [first, deref_target read same, unsigned_scalar_of_fits fits, deref_target read known]

end Value

namespace Expr

/-- Members selected with dots, one behind the other. -/
def dots (base : Expr) (fields : List String) : Expr :=
  fields.foldl (fun e field => .member e field false) base

theorem dots_append (base : Expr) (fields : List String) (last : String) :
    base.dots (fields ++ [last]) = .member (base.dots fields) last false := by
  rw [dots, List.foldl_append]
  rfl

namespace Scope
variable {s : Scope}

/-! One step of evaluation. -/

/-- Another attempt, made only where a member is unknown. -/
def retry (attempt again : Except AccessError Value) : Except AccessError Value :=
  match attempt with
  | .error (.unknownMember _ _) => again
  | outcome => outcome

theorem retry_settled {attempt : Except AccessError Value}
    (settled : ∀ type field, attempt ≠ .error (.unknownMember type field))
    (again : Except AccessError Value) : retry attempt again = attempt := by
  unfold retry
  split
  · next type field => exact absurd rfl (settled type field)
  · rfl

theorem retry_same (attempt : Except AccessError Value) : retry attempt attempt = attempt := by
  unfold retry
  split
  · rfl
  · rfl

theorem evalThen_dot (s : Scope) (base : Expr) (outer : String) (arrow : Bool) (field : String) :
    s.evalThen (.member base outer arrow) (some (field, false)) =
      retry (s.evalThen base (some (outer ++ "." ++ field, arrow)))
        (do s.select (← s.evalThen base (some (outer, arrow))) field false) := by
  rw [evalThen]
  rfl

/-- A member behind an arrow is never joined. -/
theorem evalThen_arrow (s : Scope) (e : Expr) (field : String) :
    s.evalThen e (some (field, true)) = (do s.select (← s.eval e) field true) := by
  unfold eval
  cases e with
  | member base outer arrow => rfl
  | number | symbol | deref | cast | index => simp only [evalThen, bind_assoc]; rfl

/-! Joined names. -/

theorem intercalate_join (first : String) (init : List String) (last field : String) :
    ".".intercalate (first :: init ++ [last ++ "." ++ field]) =
      ".".intercalate (first :: (init ++ [last]) ++ [field]) := by
  have whole : first :: init ≠ [] := List.cons_ne_nil _ _
  have longer : first :: (init ++ [last]) ≠ [] := List.cons_ne_nil _ _
  rw [String.intercalate_append_of_ne_nil whole (List.cons_ne_nil _ _),
    String.intercalate_append_of_ne_nil longer (List.cons_ne_nil _ _), ← List.cons_append,
    String.intercalate_append_of_ne_nil whole (List.cons_ne_nil _ _)]
  simp only [String.intercalate_singleton, String.append_assoc]

section
variable {base : Expr} {first : String} {arrow : Bool} {outcome : Except AccessError Value}

/-- The induction is on the names that are joined already, from the last one back. -/
theorem evalThen_dots_of_joined
    (settled : ∀ type field, outcome ≠ .error (.unknownMember type field)) (init : List String)
    (field : String)
    (joined : s.evalThen base (some (".".intercalate (first :: init ++ [field]), arrow)) =
      outcome) :
    s.evalThen (dots (.member base first arrow) init) (some (field, false)) = outcome := by
  induction init using List.reverseRecOn generalizing field with
  | nil =>
    have pair : ".".intercalate [first, field] = first ++ "." ++ field := by
      rw [String.intercalate_cons_of_ne_nil (List.cons_ne_nil _ _), String.intercalate_singleton]
    rw [List.singleton_append, pair] at joined
    rw [dots, List.foldl_nil, evalThen_dot, joined, retry_settled settled]
  | append_singleton init last ih =>
    rw [dots_append, evalThen_dot, ih (last ++ "." ++ field), retry_settled settled]
    rw [intercalate_join, joined]

/-- A chain is the member with the joined name, as long as getting it does not fail for want of a
member. -/
theorem eval_dots_of_joined (settled : ∀ type field, outcome ≠ .error (.unknownMember type field))
    (rest : List String)
    (joined : s.evalThen base (some (".".intercalate (first :: rest), arrow)) = outcome) :
    s.eval (dots (.member base first arrow) rest) = outcome := by
  rcases List.eq_nil_or_concat rest with rfl | ⟨init, last, rfl⟩
  · rwa [String.intercalate_singleton] at joined
  · rw [List.concat_eq_append] at joined ⊢
    rw [dots_append, eval, evalThen, evalThen_dots_of_joined settled init last joined]

end

/-! Evaluation without joined names. -/

/-- The value of an expression in which members are selected one by one. -/
def evalPlain (s : Scope) : Expr → Except AccessError Value
  | .number n => do return .scalar (← s.layout "VALUE") n
  | .symbol name => s.symbol name
  | .deref operand => do (← s.evalPlain operand).deref s.read
  | .cast type operand => do (← s.evalPlain operand).cast s.read (← s.layout type)
  | .index base position => do (← s.evalPlain base).element s.read position
  | .member base field arrow => do s.select (← s.evalPlain base) field arrow

/-- The types come from a registry, those of symbols too. -/
structure TypedBy (s : Scope) (types : Registry) : Prop where
  layout : s.layout = types.lookup
  symbol : ∀ name v, s.symbol name = .ok v → ∃ type, types.lookup type = .ok v.type

theorem Arises.undotted {types : Registry} (plain : types.Undotted) (typed : s.TypedBy types)
    {v : Value} (arises : s.Arises v) : v.type.undotted = true := by
  induction arises with
  | literal named n =>
    rw [typed.layout] at named
    exact plain.lookup named
  | symbol found =>
    obtain ⟨type, named⟩ := typed.symbol _ _ found
    exact plain.lookup named
  | deref base run ih => exact Layout.undotted_target ih (Value.deref_ok run).1
  | cast base named run ih =>
    rw [typed.layout] at named
    obtain ⟨rfl, -⟩ := Value.cast_ok run
    exact plain.lookup named
  | advance base run ih =>
    obtain ⟨target, -, rfl⟩ := Value.advance_ok run
    exact ih
  | member base run ih =>
    obtain ⟨offset, known, -⟩ := Value.member_ok run
    exact (Layout.undotted_member ih known).2

theorem typedBy_scope (image : LoadedSnapshot) (types : Registry) :
    (image.scope types).TypedBy types where
  layout := rfl
  symbol name v found := by
    change image.symbolValue types name = .ok v at found
    unfold LoadedSnapshot.symbolValue at found
    split at found
    · cases found
    · next d _ =>
      obtain ⟨l, named, found⟩ := bind_eq_ok found
      split at found
      · obtain ⟨bytes, -, rfl⟩ := Value.fetch_ok.mp found
        exact ⟨d.type, named⟩
      · cases found
        exact ⟨d.type, named⟩

/-- Every member is selected from the same value, or fails in the same way. -/
theorem select_cases {v : Value} (arises : s.Arises v) (arrow : Bool) :
    (∃ w, s.Arises w ∧ ∀ field, s.select v field arrow = w.member field) ∨
      ∃ fault, ∀ field, s.select v field arrow = .error fault := by
  have through (follows : arrow = true ∨ v.type.isPointer = true) (field : String) :
      s.select v field arrow = (do (← v.deref s.read).member field) := by
    unfold select Value.field
    split
    · rfl
    · rw [if_pos (follows.resolve_left ‹_›)]
      rfl
  by_cases follows : arrow = true ∨ v.type.isPointer = true
  · cases run : v.deref s.read with
    | error fault =>
      refine .inr ⟨fault, fun field => ?_⟩
      rw [through follows, run]
      rfl
    | ok w =>
      refine .inl ⟨w, arises.deref run, fun field => ?_⟩
      rw [through follows, run]
      rfl
  · refine .inl ⟨v, arises, fun field => ?_⟩
    rw [not_or] at follows
    rw [select, if_neg follows.1, Value.field, if_neg follows.2]
    rfl

/-- Where no member has a dot in its name, the attempt at a joined name is in vain. -/
theorem retry_dotted (plain : ∀ v, s.Arises v → v.type.undotted = true) {v : Value}
    (arises : s.Arises v) {name : String} (dotted : '.' ∈ name.toList) (field : String)
    (arrow : Bool) (behind : Value → Except AccessError Value) :
    retry (s.select v name arrow) (s.select v field arrow >>= behind) =
      s.select v field arrow >>= behind := by
  rcases select_cases arises arrow with ⟨w, selected, same⟩ | ⟨fault, same⟩
  · rw [same, Value.member_dotted (plain w selected) dotted]
    rfl
  · rw [same, same]
    exact retry_same _

theorem evalThen_eq_plain (plain : ∀ v, s.Arises v → v.type.undotted = true) (e : Expr)
    (pending : Pending) : s.evalThen e pending = (do s.finish (← s.evalPlain e) pending) := by
  induction e generalizing pending with
  | number n => simp only [evalThen, evalPlain, bind_assoc]; rfl
  | symbol name => rfl
  | deref operand ih => simp only [evalThen, evalPlain, ih none, bind_assoc]; rfl
  | cast type operand ih => simp only [evalThen, evalPlain, ih none, bind_assoc]; rfl
  | index base position ih => simp only [evalThen, evalPlain, ih none, bind_assoc]; rfl
  | member base outer arrow ih =>
    rcases pending with _ | ⟨field, _ | _⟩
    case none =>
      rw [evalThen, ih, evalPlain]
      exact (bind_pure _).symm
    case some.true =>
      rw [evalThen, ih, evalPlain]
      rfl
    case some.false =>
      rw [evalThen_dot, ih, ih, evalPlain]
      cases run : s.evalPlain base with
      | error fault => exact retry_same _
      | ok v =>
        have arises : s.Arises v := by
          apply evalThen_arises base none
          rw [ih, run]
          rfl
        have dotted : '.' ∈ (outer ++ "." ++ field).toList := by simp
        exact retry_dotted plain arises dotted outer arrow _

/-- A chain behind an arrow is the member with the joined name in what the base points to, or fails
as getting that member does, unless it is unknown; members with shorter names have no say. Where no
type has a member with a dot in its name, joining makes no difference to any expression. -/
theorem eval_joins (s : Scope) :
    (∀ p v first rest outcome, s.eval p = .ok v →
      (do (← v.deref s.read).member (".".intercalate (first :: rest))) = outcome →
      (∀ type field, outcome ≠ .error (.unknownMember type field)) →
      s.eval (dots (.member p first true) rest) = outcome) ∧
    ∀ types : Registry, types.Undotted → s.TypedBy types → ∀ e, s.eval e = s.evalPlain e := by
  constructor
  · intro p v first rest outcome evaluated got settled
    apply eval_dots_of_joined settled
    rw [evalThen_arrow, evaluated]
    exact got
  · intro types plain typed e
    rw [eval, evalThen_eq_plain (fun v arises => arises.undotted plain typed)]
    exact bind_pure _

/-- A record in a record, under a name without dots. -/
def nestedTypes : Registry :=
  ⟨[("VALUE", .value), ("outer", .record "outer" 16 [("inner", 0, .pair)])]⟩

/-- The string of the buffered image. -/
def bufferedString : Expr := .cast "struct RString *" (.number 4096)

theorem buffered_eval_joins : ∃ image, LoadedSnapshot.buffered.load = .ok image ∧
    (∃ w, (image.scope .standard).eval
        (dots (.member bufferedString "as" true) ["heap", "ptr"]) = .ok w ∧
      w.address = some 4120) ∧
    ((image.scope nestedTypes).eval
      (dots (.member (.cast "outer *" (.number 4096)) "inner" true) ["val"])).toOption.map
        Value.unsigned = some 17 := by
  obtain ⟨image, loaded⟩ : ∃ image, LoadedSnapshot.buffered.load = .ok image := ⟨_, rfl⟩
  obtain ⟨joined, -⟩ := eval_joins (image.scope .standard)
  obtain ⟨-, plain⟩ := eval_joins (image.scope nestedTypes)
  have evaluated : (image.scope .standard).eval bufferedString =
      .ok (.scalar Layout.string.pointerTo 4096) := rfl
  have found : (((Value.scalar Layout.string.pointerTo 4096).deref image.read).bind
      (·.member "as.heap.ptr")).toOption.bind Value.address = some 4120 := by
    cases loaded
    decide +kernel
  refine ⟨image, loaded, ?_, ?_⟩
  · cases got : ((Value.scalar Layout.string.pointerTo 4096).deref image.read).bind
        (·.member "as.heap.ptr") with
    | error fault => rw [got] at found; cases found
    | ok w =>
      rw [got] at found
      exact ⟨w, joined _ _ "as" ["heap", "ptr"] _ evaluated got nofun, found⟩
  · rw [plain nestedTypes (by decide) (typedBy_scope image nestedTypes)]
    cases loaded
    decide +kernel

/-! Spellings of the first step. -/

/-- What is selected from does not matter, only what each name gives. -/
theorem evalThen_member_congr {base other : Expr} {arrow way : Bool}
    (same : ∀ field, s.evalThen base (some (field, arrow)) =
      s.evalThen other (some (field, way))) (first : String) (pending : Pending) :
    s.evalThen (.member base first arrow) pending =
      s.evalThen (.member other first way) pending := by
  rcases pending with _ | ⟨field, _ | _⟩
  case none => rw [evalThen, evalThen, same]
  case some.true => rw [evalThen, evalThen, same]
  case some.false => rw [evalThen_dot, evalThen_dot, same, same]

theorem evalThen_dots_congr {e other : Expr}
    (same : ∀ pending, s.evalThen e pending = s.evalThen other pending) (fields : List String)
    (pending : Pending) :
    s.evalThen (e.dots fields) pending = s.evalThen (other.dots fields) pending := by
  induction fields generalizing e other with
  | nil => exact same pending
  | cons field rest ih => exact ih (evalThen_member_congr (fun _ => same _) field)

/-- A read gives as many bytes as it is asked for, and no symbol has more bytes than its type. -/
structure Sized (s : Scope) : Prop where
  read : ∀ address size bytes, s.read address size = .ok bytes → bytes.length = size.toNat
  symbol : ∀ name v, s.symbol name = .ok v → v.bytes.length ≤ v.type.size.toNat

theorem sized_scope (image : LoadedSnapshot) (types : Registry) : (image.scope types).Sized where
  read address size bytes found := Memory.length_read _ (LoadedSnapshot.read_eq_ok_iff.mp found)
  symbol name v found := by
    obtain ⟨stored, loose⟩ := LoadedSnapshot.symbolValue_faithful found
    cases place : v.address with
    | none =>
      rw [loose place]
      exact Nat.min_le_left ..
    | some address => exact Nat.le_of_eq (stored address place).1

theorem length_scalar_le (l : Layout) (bits : UInt64) :
    (Value.scalar l bits).bytes.length ≤ l.size.toNat := List.length_take_le ..

theorem Arises.fits (sized : s.Sized) {v : Value} (arises : s.Arises v) :
    v.bytes.length ≤ v.type.size.toNat := by
  induction arises with
  | literal named n => exact length_scalar_le _ _
  | symbol found => exact sized.symbol _ _ found
  | deref base run ih =>
    obtain ⟨-, address, found⟩ := Value.deref_ok run
    exact Nat.le_of_eq (sized.read _ _ _ found)
  | cast base named run ih =>
    obtain ⟨rfl, ⟨address, found⟩ | ⟨bits, same⟩⟩ := Value.cast_ok run
    · exact Nat.le_of_eq (sized.read _ _ _ found)
    · rw [same]
      exact length_scalar_le _ _
  | advance base run ih =>
    obtain ⟨target, -, rfl⟩ := Value.advance_ok run
    exact length_scalar_le _ _
  | member base run ih =>
    obtain ⟨offset, -, cut, -⟩ := Value.member_ok run
    exact Nat.le_of_eq (Bytes.length_slice? cut)

theorem select_deref {v : Value}
    (single : ∀ target, v.type.target? = some target → target.isPointer = false)
    (field : String) : (do s.select (← v.deref s.read) field false) = s.select v field true := by
  cases run : v.deref s.read with
  | error fault =>
    rw [select, if_pos rfl, run]
    rfl
  | ok w =>
    have last : w.type.isPointer = false := single _ (Value.deref_ok run).1
    change s.select w field false = s.select v field true
    rw [select, if_neg Bool.false_ne_true, Value.field, last, select, if_pos rfl, run]
    rfl

/-- Unless a pointer leads to another pointer, it makes no difference whether it is followed by an
arrow, by a star or as an array of which the first element is taken. -/
theorem eval_spellings {s : Scope} (sized : s.Sized) {p : Expr}
    (single : ∀ v target, s.eval p = .ok v → v.type.target? = some target →
      target.isPointer = false) (first : String) (rest : List String) :
    s.eval (dots (.member (.deref p) first false) rest) =
        s.eval (dots (.member p first true) rest) ∧
      s.eval (dots (.member (.index p 0) first false) rest) =
        s.eval (dots (.member p first true) rest) := by
  have starred (field : String) : s.evalThen (.deref p) (some (field, false)) =
      s.evalThen p (some (field, true)) := by
    change (do s.select (← (← s.eval p).deref s.read) field false) = _
    rw [evalThen_arrow]
    cases run : s.eval p with
    | error fault => rfl
    | ok v => exact select_deref (fun target => single v target run) field
  have indexed (field : String) : s.evalThen (.index p 0) (some (field, false)) =
      s.evalThen (.deref p) (some (field, false)) := by
    change (do s.select (← (← s.eval p).element s.read 0) field false) =
      (do s.select (← (← s.eval p).deref s.read) field false)
    cases run : s.eval p with
    | error fault => rfl
    | ok v =>
      have fits := (evalThen_arises p none run).fits sized
      change (do s.select (← v.element s.read 0) field false) =
        (do s.select (← v.deref s.read) field false)
      rw [Value.element_zero s.read fits]
  constructor
  · exact evalThen_dots_congr (evalThen_member_congr starred first) rest none
  · exact evalThen_dots_congr
      (evalThen_member_congr (fun field => (indexed field).trans (starred field)) first) rest none

theorem buffered_eval_spellings : ∃ image, LoadedSnapshot.buffered.load = .ok image ∧
    (image.scope .standard).eval
        (dots (.member (.deref bufferedString) "as" false) ["heap", "ptr"]) =
      (image.scope .standard).eval
        (dots (.member bufferedString "as" true) ["heap", "ptr"]) ∧
    (image.scope .standard).eval
        (dots (.member (.index bufferedString 0) "as" false) ["heap", "ptr"]) =
      (image.scope .standard).eval
        (dots (.member bufferedString "as" true) ["heap", "ptr"]) := by
  obtain ⟨image, loaded⟩ : ∃ image, LoadedSnapshot.buffered.load = .ok image := ⟨_, rfl⟩
  have pointed : ∀ v target, (image.scope .standard).eval bufferedString = .ok v →
      v.type.target? = some target → target.isPointer = false := by
    rintro v target ⟨⟩ ⟨⟩
    rfl
  exact ⟨image, loaded,
    eval_spellings (sized_scope image .standard) pointed "as" ["heap", "ptr"]⟩

end Scope
end Expr
end HeapLens
