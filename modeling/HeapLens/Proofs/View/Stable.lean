import HeapLens.Proofs.View.Children
import HeapLens.Proofs.View.Reread

/-!
Interpretation in memory that does not change. The outcome for a word does not depend on the reads
made before it, and two words that refer to the same object have the same children: decoding looks
at the address and the header of an object and only passes its word on.
-/
namespace HeapLens
open Run

theorem Target.read_agree {t : Target} (stable : t.Stable) (address size : UInt64) :
    Agree (t.read address size) (t.read address size) Eq := by
  constructor
  intro trace other
  rw [read_apply, read_apply, stable trace.size, stable other.size]
  dsimp only
  cases (t.memory 0 address size).mapError fun range =>
      InspectError.access (AccessError.unreadable range) with
  | error e => exact .error e
  | ok bytes => exact .ok rfl

/-- The same object, referred to by another word. -/
def HeapObject.withWord (w : UInt64) (o : HeapObject) : HeapObject := { o with word := w }

def ObjectRead.withWord (w : UInt64) (r : ObjectRead) : ObjectRead :=
  { r with object := r.object.withWord w }

def View.withWord (w : UInt64) : View → View
  | .immediate word value => .immediate word value
  | .basic o => .basic (o.withWord w)
  | .string v => .string { v with object := v.object.withWord w }
  | .array v => .array { v with object := v.object.withWord w }
  | .hash v => .hash { v with object := v.object.withWord w }
  | .record v => .record { v with object := v.object.withWord w }
  | .float v => .float { v with object := v.object.withWord w }
  | .bignum v => .bignum { v with object := v.object.withWord w }
  | .symbol v => .symbol { v with object := v.object.withWord w }

namespace View

end View

namespace Inspector
variable {i : Inspector}

theorem readSlot_agree (stable : i.target.Stable) (o : HeapObject) (w : UInt64) (l : Layout)
    (extent : Value → Header → Except InspectError UInt64) (size : UInt64) :
    Agree (i.readSlot o l extent size) (i.readSlot (o.withWord w) l extent size)
      fun a b => b = a.map (ObjectRead.withWord w) id := by
  unfold readSlot
  apply agree_after (Target.read_agree stable _ _)
  intro bytes
  split
  · exact agree_fail _
  · apply agree_after (agree_lift _)
    intro header
    apply agree_after (agree_lift _)
    intro needed
    split
    · exact agree_pure rfl
    · exact agree_pure rfl

theorem readObject_agree (stable : i.target.Stable) (o : HeapObject) (w : UInt64) (type : String)
    (hint : UInt64) (extent : Value → Header → Except InspectError UInt64) :
    Agree (i.readObject o type hint extent) (i.readObject (o.withWord w) type hint extent)
      fun a b => b = a.withWord w := by
  unfold readObject
  apply agree_after (agree_lift _)
  intro l
  apply agree_bind (readSlot_agree stable o w l extent _)
  rintro (r | needed) _ rfl
  · exact agree_pure rfl
  · apply agree_bind (readSlot_agree stable o w l extent _)
    rintro (r | more) _ rfl
    · exact agree_pure rfl
    · exact agree_fail _

theorem decodeString_agree (stable : i.target.Stable) (o : HeapObject) (w : UInt64) :
    Agree (i.decodeString o) (i.decodeString (o.withWord w))
      fun a b => b = { a with object := a.object.withWord w } := by
  unfold decodeString
  apply agree_after (agree_lift _)
  intro offset
  apply agree_bind (readObject_agree stable o w _ _ _)
  rintro r _ rfl
  apply agree_after (agree_lift _)
  intro length
  apply agree_guard
  apply agree_ite
  · exact agree_after (agree_lift _) fun bytes => agree_pure rfl
  · apply agree_after (agree_lift _)
    intro pointer
    apply agree_guard
    refine agree_ite (agree_pure rfl) ?_
    exact agree_after (Target.read_agree stable _ _) fun bytes => agree_pure rfl

theorem fetch_agree {t : Target} (stable : t.Stable) (l : Layout) (address : UInt64) :
    Agree (Value.fetch t.read l address) (Value.fetch t.read l address) Eq := by
  unfold Value.fetch
  exact agree_after (Target.read_agree stable _ _) fun bytes => agree_pure rfl

theorem deref_agree {t : Target} (stable : t.Stable) (v : Value) :
    Agree (v.deref t.read) (v.deref t.read) Eq := by
  unfold Value.deref
  split
  · exact agree_lift _
  · exact fetch_agree stable _ _

theorem cast_agree {t : Target} (stable : t.Stable) (v : Value) (l : Layout) :
    Agree (v.cast t.read l) (v.cast t.read l) Eq := by
  unfold Value.cast
  refine agree_ite ?_ (agree_pure rfl)
  exact agree_after (agree_lift _) fun address => fetch_agree stable _ _

theorem classifyObject_agree {t : Target} (stable : t.Stable) (k : Constants) (word : UInt64) :
    Agree (classifyObject t k word) (classifyObject t k word) Eq := by
  unfold classifyObject
  apply agree_after (agree_lift _)
  intro l
  apply agree_after (agree_lift _)
  intro p
  apply agree_after (cast_agree stable _ _)
  intro pointer
  apply agree_after (deref_agree stable _)
  intro basic
  exact agree_after (agree_lift _) fun header => agree_pure rfl

theorem classify_agree (stable : i.target.Stable) (word : UInt64) :
    Agree (i.classify word) (i.classify word) Eq := by
  unfold classify HeapLens.classify
  split
  · exact agree_pure rfl
  · apply agree_guard
    exact agree_after (classifyObject_agree stable _ _) fun o => agree_pure rfl

theorem stringBytes_agree (stable : i.target.Stable) (word : UInt64) :
    Agree (i.stringBytes word) (i.stringBytes word) Eq := by
  unfold stringBytes
  apply agree_after (classify_agree stable _)
  intro c
  cases c with
  | immediate word value => exact agree_pure rfl
  | heap o =>
    refine agree_ite ?_ (agree_pure rfl)
    apply agree_bind (decodeString_agree stable o o.word)
    rintro v _ rfl
    exact agree_pure rfl

end Inspector

theorem cast_scalar_ok {t : Target} {l m : Layout} {word : UInt64} {v : Value}
    {trace after : Trace} (run : (Value.scalar l word).cast t.read m trace = (.ok v, after)) :
    v.type = m ∧ after = trace := by
  unfold Value.cast at run
  split at run
  · obtain ⟨address, s, found, run⟩ := bind_ok run
    cases (lift_ok found).1
  · cases run
    exact ⟨rfl, rfl⟩

theorem deref_ok {t : Target} {pointer v : Value} {trace after : Trace}
    (run : pointer.deref t.read trace = (.ok v, after)) :
    ∃ l bytes, pointer.type.target? = some l ∧ v = ⟨l, bytes, some pointer.unsigned⟩ ∧
      t.read pointer.unsigned l.size trace = (.ok bytes, after) := by
  unfold Value.deref at run
  cases found : pointer.type.target? with
  | none => rw [found] at run; cases (lift_ok run).1
  | some l =>
    rw [found] at run
    obtain ⟨bytes, s, read, run⟩ := bind_ok run
    cases run
    exact ⟨l, bytes, rfl, rfl, read⟩

/-- The header of a classified object is the one stored at its address, and reading it is all that
classification does. -/
theorem classifyObject_ok {t : Target} {k : Constants} {word : UInt64} {o : HeapObject}
    {trace after : Trace} (run : classifyObject t k word trace = (.ok o, after)) :
    ∃ p l bytes, t.layout "struct RBasic *" = .ok p ∧ p.target? = some l ∧
      t.read o.address l.size trace = (.ok bytes, after) ∧
      Header.ofValue ⟨l, bytes, some o.address⟩ = .ok o.header ∧
      o = ⟨word, o.header, o.header.tag k, k.typeOf (o.header.tag k)⟩ := by
  unfold classifyObject at run
  obtain ⟨value, _, run⟩ := access_bind_ok run
  obtain ⟨p, named, run⟩ := access_bind_ok run
  obtain ⟨pointer, s, casted, run⟩ := bind_ok run
  obtain ⟨basic, s', derefed, run⟩ := bind_ok run
  obtain ⟨header, parsed, run⟩ := access_bind_ok run
  cases run
  obtain ⟨typed, rfl⟩ := cast_scalar_ok casted
  obtain ⟨l, bytes, found, rfl, read⟩ := deref_ok derefed
  rw [typed] at found
  have place : pointer.unsigned = header.address := Option.some.inj (Header.ofValue_address parsed)
  rw [place] at parsed read
  exact ⟨p, l, bytes, named, found, read, parsed, rfl⟩

namespace Inspector
variable {i : Inspector}

/-- A view of an object comes from its classification and then from its decoder. -/
theorem interpret_object {word : UInt64} {v : View} {p : HeapObject} {trace after : Trace}
    (run : i.interpret word trace = (.ok v, after)) (object : v.object? = some p) :
    ∃ o middle, classifyObject i.target i.constants word trace = (.ok o, middle) ∧
      i.decodeObject o middle = (.ok v, after) ∧ o.Reread p := by
  unfold interpret at run
  obtain ⟨c, middle, classified, decoded⟩ := bind_ok run
  cases c with
  | immediate w value => cases decoded; cases object
  | heap o =>
    obtain ⟨q, shown, reread⟩ := (decodeObject_ensures_reread o).result _ _ _ decoded
    cases shown.symm.trans object
    unfold classify HeapLens.classify at classified
    cases encoded : Immediate.ofWord? i.constants word with
    | some value => rw [encoded] at classified; cases classified
    | none =>
      rw [encoded] at classified
      obtain ⟨_, classified⟩ := guard_ok classified
      obtain ⟨q, t, found, classified⟩ := bind_ok classified
      cases classified
      exact ⟨o, _, found, decoded, reread⟩

end Inspector
end HeapLens
