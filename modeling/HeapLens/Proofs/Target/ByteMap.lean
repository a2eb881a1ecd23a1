import HeapLens.Proofs.Snapshot.Memory
import HeapLens.Proofs.Target.Members
import HeapLens.Proofs.View.Slot

/-!
Memory that does not change, as a map from addresses to bytes. A part of a range is the range of the
part, so it does not matter in how many reads the bytes of a row are fetched. An image, once it is
loaded, shows such a map, and so does a pattern that repeats.
-/
namespace HeapLens
open Run

abbrev ByteMap := Nat → UInt8

namespace ByteMap
variable (m : ByteMap)

/-- What a read of a range gives. -/
def bytes (address count : Nat) : Bytes := (List.range count).map fun k => m (address + k)

def word (address : Nat) : UInt64 := Bytes.word (m.bytes address 8)

@[simp] theorem length_bytes (address count : Nat) : (m.bytes address count).length = count := by
  rw [bytes, List.length_map, List.length_range]

theorem getElem?_bytes {address count k : Nat} (inside : k < count) :
    (m.bytes address count)[k]? = some (m (address + k)) := by
  rw [bytes, List.getElem?_map, List.getElem?_range inside, Option.map_some]

theorem of_getElem?_bytes {address count k : Nat} {byte : UInt8}
    (found : (m.bytes address count)[k]? = some byte) : byte = m (address + k) := by
  obtain ⟨inside, -⟩ := List.getElem?_eq_some_iff.mp found
  rw [length_bytes] at inside
  rw [m.getElem?_bytes inside] at found
  exact (Option.some.inj found).symm

theorem eq_bytes {address count : Nat} {bytes : Bytes} (length : bytes.length = count)
    (same : ∀ k byte, bytes[k]? = some byte → m (address + k) = byte) :
    bytes = m.bytes address count := by
  apply List.ext_getElem?
  intro k
  by_cases inside : k < count
  · have there := List.getElem?_eq_getElem (l := bytes) (i := k) (by omega)
    rw [m.getElem?_bytes inside, same k _ there, there]
  · rw [List.getElem?_eq_none (by omega), List.getElem?_eq_none (by rw [length_bytes]; omega)]

theorem take_bytes (address : Nat) {count part : Nat} (shorter : part ≤ count) :
    (m.bytes address count).take part = m.bytes address part := by
  rw [bytes, ← List.map_take, List.take_range, Nat.min_eq_left shorter, bytes]

theorem drop_bytes (address count offset : Nat) :
    (m.bytes address count).drop offset = m.bytes (address + offset) (count - offset) := by
  apply m.eq_bytes (by rw [List.length_drop, length_bytes])
  intro k byte there
  rw [List.getElem?_drop] at there
  rw [m.of_getElem?_bytes there, Nat.add_assoc]

theorem slice?_bytes {address count start length : Nat} {part : Bytes}
    (found : (m.bytes address count).slice? start length = some part) :
    part = m.bytes (address + start) length := by
  unfold Bytes.slice? at found
  split at found
  · next inside =>
    rw [length_bytes] at inside
    cases found
    rw [drop_bytes, take_bytes _ _ (by omega)]
  · cases found

theorem wordAt_bytes (address : Nat) {count offset : Nat} (inside : offset + 8 ≤ count) :
    (m.bytes address count).wordAt offset = m.word (address + offset) := by
  rw [Bytes.wordAt, drop_bytes, ← Bytes.word_take _ (Nat.le_refl 8), take_bytes _ _ (by omega),
    word]

/-- Runs of a row of bytes are ranges one behind the other. -/
theorem runs_bytes {stride : Nat} (positive : 0 < stride) (address count : Nat) :
    (m.bytes address (count * stride)).runs stride =
      (List.range count).map fun k => m.bytes (address + k * stride) stride := by
  induction count generalizing address with
  | zero =>
    rw [Bytes.runs, dif_neg (by rw [length_bytes]; omega)]
    rfl
  | succ count ih =>
    have whole : stride ≤ (count + 1) * stride := Nat.le_mul_of_pos_left stride (by omega)
    have rest : (count + 1) * stride - stride = count * stride := by
      rw [Nat.succ_mul, Nat.add_sub_cancel]
    rw [Bytes.runs, dif_pos ⟨positive, by rwa [length_bytes]⟩, take_bytes _ _ whole, drop_bytes,
      rest, ih, List.range_succ_eq_map, List.map_cons, List.map_map, Nat.zero_mul, Nat.add_zero]
    refine congrArg _ (List.map_congr_left fun k _ => ?_)
    rw [Function.comp, Nat.succ_mul, Nat.add_comm (k * stride), Nat.add_assoc]

end ByteMap

/-- Every read that succeeds, whenever it is made, gives what the map holds. That the same read has
the same answer every time would not be enough: reads of ranges that meet have to agree as well. -/
def Target.Shows (t : Target) (m : ByteMap) : Prop :=
  ∀ n address size bytes, t.memory n address size = .ok bytes →
    bytes = m.bytes address.toNat size.toNat

/-- Some read that succeeds gives this byte for this address. -/
def Target.Gives (t : Target) (address : Nat) (byte : UInt8) : Prop :=
  ∃ n start size bytes k, t.memory n start size = .ok bytes ∧ bytes[k]? = some byte ∧
    start.toNat + k = address

/-- There is such a map exactly when reads have the size that was asked for and no two of them
contradict each other. -/
theorem Target.exists_shows_iff (t : Target) :
    (∃ m, t.Shows m) ↔ t.Exact ∧ ∀ address b c, t.Gives address b → t.Gives address c → b = c := by
  constructor
  · rintro ⟨m, still⟩
    refine ⟨fun n address size bytes found => ?_, fun address b c one other => ?_⟩
    · rw [still _ _ _ _ found, m.length_bytes]
    · have given (byte : UInt8) (gives : t.Gives address byte) : byte = m address := by
        obtain ⟨n, start, size, bytes, k, found, there, rfl⟩ := gives
        rw [still _ _ _ _ found] at there
        exact m.of_getElem?_bytes there
      rw [given b one, given c other]
  · rintro ⟨exact, agree⟩
    have chosen : ∀ address, ∃ byte, ∀ c, t.Gives address c → byte = c := by
      intro address
      by_cases known : ∃ byte, t.Gives address byte
      · obtain ⟨byte, gives⟩ := known
        exact ⟨byte, fun c => agree address byte c gives⟩
      · exact ⟨0, fun c gives => absurd ⟨c, gives⟩ known⟩
    obtain ⟨m, given⟩ := Classical.skolem.mp chosen
    refine ⟨m, fun n address size bytes found => ByteMap.eq_bytes m (exact _ _ _ _ found) ?_⟩
    intro k byte there
    exact given _ _ ⟨n, address, size, bytes, k, found, there, rfl⟩

theorem Target.Shows.ensures_read {t : Target} {m : ByteMap} (still : t.Shows m)
    (address size : UInt64) :
    Ensures (t.read address size) (· = m.bytes address.toNat size.toNat) where
  result _ _ _ run := still _ _ _ _ (Target.read_ok run).1

def ByteMap.repeating (pattern : Bytes) : ByteMap := fun address =>
  pattern.toArray.getD (address % pattern.toArray.size) 0

theorem patternTarget_shows (pattern : Bytes) (types : Registry) :
    (patternTarget pattern types).Shows (.repeating pattern) := by
  intro n address size bytes found
  unfold patternTarget patternRead at found
  dsimp only at found
  split at found
  · cases found
    rfl
  · cases found

theorem Snapshot.load_shows {s : Snapshot} {image : LoadedSnapshot} (loaded : s.load = .ok image)
    (types : Registry) :
    (image.target types).Shows fun address => (image.memory.byte? address).getD 0 := by
  intro n address size bytes found
  have whole := represents_of_load loaded
  obtain ⟨length, held⟩ := (whole.read_eq_ok_iff address size bytes).mp found
  apply ByteMap.eq_bytes _ length
  intro k byte there
  have looked := (Memory.byte?_eq_some_iff whole.ordered).mpr
    ((whole.holds _ _).mpr (held k byte there))
  rw [looked, Option.getD_some]

end HeapLens
