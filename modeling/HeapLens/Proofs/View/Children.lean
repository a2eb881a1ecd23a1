import HeapLens.Proofs.Run
import HeapLens.View.Basic

/-!
How many words a view has below it. Only a collection has any, and a collection is an object. When
a successful read has the size that was asked for, a view of at most `limit` entries has at most
twice as many children: a pair counts as two.
-/
namespace HeapLens
open Run

theorem min_limit_le (length limit : UInt64) : (min length limit).toNat ≤ limit.toNat :=
  UInt64.le_iff_toNat_le.mp Std.min_le_right

namespace Target

theorem read_apply (t : Target) (address size : UInt64) (trace : Trace) :
    t.read address size trace =
      ((t.memory trace.size address size).mapError fun range => .access (.unreadable range),
        trace.push ⟨address, size⟩) := by
  have asked : t.tryRead address size trace =
      (.ok (t.memory trace.size address size), trace.push ⟨address, size⟩) := rfl
  unfold read
  rw [bind_at asked]
  cases t.memory trace.size address size <;> rfl

end Target

namespace Inspector
variable {i : Inspector}

end Inspector

namespace View

theorem children_of_immediate {v : View} (immediate : v.address? = none) : v.children = [] := by
  cases v <;> simp_all [address?, object?, children]

theorem omitted_of_immediate {v : View} (immediate : v.address? = none) : v.omitted = 0 := by
  cases v <;> simp_all [address?, object?, omitted]

end View

namespace Inspector
variable {i : Inspector}

end Inspector
end HeapLens
