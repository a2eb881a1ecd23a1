import HeapLens.Snapshot.Target
import HeapLens.View.Basic

/-!
What the targets made of images answer. A read that succeeds has the size that was asked for, and
only a sequence of images answers the same read in more than one way.
-/
namespace HeapLens

namespace Memory

theorem length_gather (m : Memory) {address count : Nat} {bytes : Bytes}
    (found : m.gather address count = some bytes) : bytes.length = count := by
  induction count using Nat.strongRecOn generalizing address bytes with
  | ind count ih =>
    rw [gather] at found
    split at found
    · next none =>
      cases found
      exact none.symm
    · split at found
      · cases found
      · next b _ =>
        dsimp only at found
        split at found
        · cases found
        · next some =>
          obtain ⟨rest, further, rfl⟩ := Option.map_eq_some_iff.mp found
          have taken := List.length_take_le count (b.data.drop (address - b.start.toNat))
          rw [List.length_append, ih _ (by omega) further]
          omega

theorem length_read (m : Memory) {address size : UInt64} {bytes : Bytes}
    (found : m.read address size = .ok bytes) : bytes.length = size.toNat := by
  unfold read at found
  split at found
  · split at found
    · next gathered => cases found; exact m.length_gather gathered
    · cases found
  · cases found

end Memory

theorem LoadedSnapshot.target_stable (image : LoadedSnapshot) (types : Registry) :
    (image.target types).Stable := fun _ => rfl

theorem LoadedSnapshot.moving_exact (first : LoadedSnapshot) (later : List LoadedSnapshot)
    (types : Registry) : (LoadedSnapshot.moving first later types).Exact :=
  fun _ _ _ _ found => Memory.length_read _ found

theorem LoadedSnapshot.target_exact (image : LoadedSnapshot) (types : Registry) :
    (image.target types).Exact := fun _ _ _ _ found => Memory.length_read _ found

theorem length_patternRead {pattern : Bytes} {address size : UInt64} {bytes : Bytes}
    (found : patternRead pattern address size = .ok bytes) : bytes.length = size.toNat := by
  unfold patternRead at found
  split at found
  · cases found
    rw [List.length_map, List.length_range]
  · cases found

theorem patternTarget_layout (pattern : Bytes) (types : Registry) :
    (patternTarget pattern types).layout = types.lookup := rfl

theorem patternTarget_exact (pattern : Bytes) (types : Registry) :
    (patternTarget pattern types).Exact := fun _ _ _ _ found => length_patternRead found

def Inspector.ofWords (words : List UInt64) : Inspector :=
  ⟨patternTarget (words.flatMap Bytes.ofWord) .standard, .default, defaultLimit⟩

/-- An array of an array and of the object that that array holds, an array of the number five. -/
def Inspector.shared : Inspector :=
  .ofWords [73735, 0, 160, 200, 0, 40967, 0, 200, 0, 0, 40967, 0, 11, 0, 0]

end HeapLens
