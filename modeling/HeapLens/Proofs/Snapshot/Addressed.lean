import HeapLens.Proofs.Run
import HeapLens.Proofs.Snapshot.Memory

/-!
What the value of an expression says about memory. A value with an address holds the bytes that
memory holds there; its members are cut out of those bytes and their addresses are computed, and
yet a member is what a read at its own address would have given. A value without an address is a
word, cut to the size of its type.
-/
namespace HeapLens

namespace Memory

theorem read_ends {m : Memory} {address size : UInt64} {bytes : Bytes}
    (found : m.read address size = .ok bytes) : address.toNat + size.toNat < UInt64.size := by
  unfold read at found
  split at found
  · assumption
  · cases found

/-- A read gives every part of the bytes of a longer one. -/
theorem Represents.read_part {m : Memory} {regions : List Region} (h : m.Represents regions)
    {address size offset count : UInt64} {bytes part : Bytes}
    (found : m.read address size = .ok bytes)
    (cut : bytes.slice? offset.toNat count.toNat = some part) :
    (address + offset).toNat = address.toNat + offset.toNat ∧
      m.read (address + offset) count = .ok part := by
  obtain ⟨length, held⟩ := (h.read_eq_ok_iff address size bytes).mp found
  have ends := read_ends found
  unfold Bytes.slice? at cut
  split at cut
  · next inside =>
    cases cut
    have exact : (address + offset).toNat = address.toNat + offset.toNat := by
      rw [UInt64.toNat_add]
      exact Nat.mod_eq_of_lt (b := UInt64.size) (by omega)
    refine ⟨exact, (h.read_eq_ok_iff _ _ _).mpr ⟨?_, fun i byte there => ?_⟩⟩
    · rw [List.length_take, List.length_drop]
      omega
    · obtain ⟨short, -⟩ := List.getElem?_eq_some_iff.mp there
      rw [List.length_take] at short
      rw [List.getElem?_take_of_lt (by omega), List.getElem?_drop] at there
      rw [exact, Nat.add_assoc]
      exact held _ byte there
  · cases cut

end Memory

/-- With an address, the bytes that memory holds there, all of them below the end of the address
space; without one, those of a word. -/
structure Value.Faithful (m : Memory) (v : Value) : Prop where
  stored : ∀ address, v.address = some address →
    v.bytes.length = v.type.size.toNat ∧
      address.toNat + v.type.size.toNat < UInt64.size ∧
      m.read address v.type.size = .ok v.bytes
  loose : v.address = none → v.bytes.length = min v.type.size.toNat 8

theorem LoadedSnapshot.read_eq_ok_iff {image : LoadedSnapshot} {address size : UInt64}
    {bytes : Bytes} : image.read address size = .ok bytes ↔
      image.memory.read address size = .ok bytes := by
  unfold read
  cases image.memory.read address size with
  | error range => exact ⟨nofun, nofun⟩
  | ok found =>
    constructor
    · intro same
      cases same
      rfl
    · intro same
      cases same
      rfl

namespace Value
variable {image : LoadedSnapshot} {v w : Value}

theorem scalar_faithful (m : Memory) (l : Layout) (bits : UInt64) : (scalar l bits).Faithful m where
  stored _ there := by cases there
  loose _ := by simp [scalar, Bytes.ofWord]

theorem fetch_ok {l : Layout} {address : UInt64} :
    fetch image.read l address = .ok v ↔
      ∃ bytes, image.memory.read address l.size = .ok bytes ∧ v = ⟨l, bytes, some address⟩ := by
  constructor
  · intro run
    obtain ⟨bytes, found, same⟩ := bind_eq_ok run
    cases same
    exact ⟨bytes, LoadedSnapshot.read_eq_ok_iff.mp found, rfl⟩
  · rintro ⟨bytes, found, rfl⟩
    unfold fetch
    rw [LoadedSnapshot.read_eq_ok_iff.mpr found]
    rfl

theorem fetch_faithful {l : Layout} {address : UInt64} (run : fetch image.read l address = .ok v) :
    v.Faithful image.memory := by
  obtain ⟨bytes, found, rfl⟩ := fetch_ok.mp run
  constructor
  · rintro _ ⟨rfl⟩
    exact ⟨Memory.length_read _ found, Memory.read_ends found, found⟩
  · nofun

theorem member_ok {field : String} (run : v.member field = .ok w) :
    ∃ offset, v.type.member? field = some (offset, w.type) ∧
      v.bytes.slice? offset.toNat w.type.size.toNat = some w.bytes ∧
      w.address = v.address.map (· + offset) := by
  unfold member at run
  cases known : v.type.member? field with
  | none => rw [known] at run; cases run
  | some entry =>
    obtain ⟨offset, l⟩ := entry
    rw [known] at run
    dsimp only at run
    cases cut : v.bytes.slice? offset.toNat l.size.toNat with
    | none => rw [cut] at run; cases run
    | some bytes =>
      rw [cut] at run
      cases run
      exact ⟨offset, rfl, cut, rfl⟩

/-- A member lies at the sum of two numbers that does not wrap around, and it is what is read
there. -/
theorem Faithful.member_stored {regions : List Region} (h : image.memory.Represents regions)
    (faithful : v.Faithful image.memory) {field : String} (run : v.member field = .ok w)
    {address : UInt64} (place : v.address = some address) :
    ∃ offset, v.type.member? field = some (offset, w.type) ∧
      (address + offset).toNat = address.toNat + offset.toNat ∧
      w.address = some (address + offset) ∧
      image.memory.read (address + offset) w.type.size = .ok w.bytes := by
  obtain ⟨offset, known, cut, moved⟩ := member_ok run
  obtain ⟨-, -, found⟩ := faithful.stored address place
  obtain ⟨exact, part⟩ := h.read_part found cut
  rw [place] at moved
  exact ⟨offset, known, exact, moved, part⟩

theorem Faithful.member {regions : List Region} (h : image.memory.Represents regions)
    (faithful : v.Faithful image.memory) {field : String} (run : v.member field = .ok w) :
    w.Faithful image.memory := by
  constructor
  · intro address place
    obtain ⟨offset, -, -, moved⟩ := member_ok run
    obtain ⟨base, lies, -⟩ := Option.map_eq_some_iff.mp (moved ▸ place)
    obtain ⟨_, -, -, there, part⟩ := faithful.member_stored h run lies
    cases place.symm.trans there
    exact ⟨Memory.length_read _ part, Memory.read_ends part, part⟩
  · intro nowhere
    obtain ⟨offset, -, cut, moved⟩ := member_ok run
    have loose := faithful.loose (Option.map_eq_none_iff.mp (moved ▸ nowhere))
    have length := Bytes.length_slice? cut
    unfold Bytes.slice? at cut
    split at cut
    · omega
    · cases cut

end Value

namespace Expr.Scope

/-- The values that expressions lead to: literals, symbols, and what the operations make of values
that came up before. -/
inductive Arises (s : Scope) : Value → Prop where
  | literal {l : Layout} (named : s.layout "VALUE" = .ok l) (n : UInt64) : Arises s (.scalar l n)
  | symbol {name : String} {v : Value} (found : s.symbol name = .ok v) : Arises s v
  | deref {v w : Value} (base : Arises s v) (run : v.deref s.read = .ok w) : Arises s w
  | cast {v w : Value} {type : String} {l : Layout} (base : Arises s v)
      (named : s.layout type = .ok l) (run : v.cast s.read l = .ok w) : Arises s w
  | advance {v w : Value} {position : Int64} (base : Arises s v)
      (run : v.advance position = .ok w) : Arises s w
  | member {v w : Value} {field : String} (base : Arises s v) (run : v.member field = .ok w) :
      Arises s w

variable {s : Scope} {v w : Value}

theorem Arises.select {field : String} {arrow : Bool} (base : s.Arises v)
    (run : s.select v field arrow = .ok w) : s.Arises w := by
  unfold Scope.select Value.field at run
  split at run
  · obtain ⟨target, followed, run⟩ := bind_eq_ok run
    exact (base.deref followed).member run
  · split at run
    · obtain ⟨target, followed, run⟩ := bind_eq_ok run
      exact (base.deref followed).member run
    · exact base.member run

theorem Arises.finish {pending : Pending} (base : s.Arises v)
    (run : s.finish v pending = .ok w) : s.Arises w := by
  unfold Scope.finish at run
  split at run
  · cases run
    exact base
  · exact base.select run

/-- Evaluation takes no step but those operations, the attempts at joined names included. -/
theorem evalThen_arises (e : Expr) (pending : Pending) (run : s.evalThen e pending = .ok v) :
    s.Arises v := by
  induction e generalizing pending v with
  | number n =>
    obtain ⟨l, named, run⟩ := bind_eq_ok run
    exact (Arises.literal named n).finish run
  | symbol name =>
    obtain ⟨u, found, run⟩ := bind_eq_ok run
    exact (Arises.symbol found).finish run
  | deref operand ih =>
    obtain ⟨u, earlier, run⟩ := bind_eq_ok run
    obtain ⟨target, followed, run⟩ := bind_eq_ok run
    exact ((ih none earlier).deref followed).finish run
  | cast type operand ih =>
    obtain ⟨u, earlier, run⟩ := bind_eq_ok run
    obtain ⟨l, named, run⟩ := bind_eq_ok run
    obtain ⟨changed, made, run⟩ := bind_eq_ok run
    exact ((ih none earlier).cast named made).finish run
  | index base position ih =>
    obtain ⟨u, earlier, run⟩ := bind_eq_ok run
    obtain ⟨target, followed, run⟩ := bind_eq_ok run
    obtain ⟨moved, advanced, followed⟩ := bind_eq_ok followed
    exact (((ih none earlier).advance advanced).deref followed).finish run
  | member base outer outerArrow ih =>
    match pending with
    | none => exact ih _ run
    | some (field, true) =>
      obtain ⟨u, earlier, run⟩ := bind_eq_ok run
      exact (ih _ earlier).select run
    | some (field, false) =>
      rw [evalThen] at run
      split at run
      · obtain ⟨u, earlier, run⟩ := bind_eq_ok run
        exact (ih _ earlier).select run
      · exact ih _ run

end Expr.Scope

namespace LoadedSnapshot
variable {image : LoadedSnapshot} {types : Registry}

theorem symbolValue_faithful {name : String} {v : Value}
    (found : image.symbolValue types name = .ok v) : v.Faithful image.memory := by
  unfold symbolValue at found
  split at found
  · cases found
  · obtain ⟨l, -, found⟩ := bind_eq_ok found
    split at found
    · exact Value.fetch_faithful found
    · cases found
      exact Value.scalar_faithful _ _ _

/-- A string whose three bytes lie in a buffer behind it. -/
def buffered : Snapshot :=
  (Snapshot.empty.withWords 4096 [8197, 17, 3, 4136, 3]).withText 4136 "abc"

end LoadedSnapshot
end HeapLens
