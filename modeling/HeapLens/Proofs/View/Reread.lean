import HeapLens.Proofs.Run
import HeapLens.View.Basic

/-!
The object that a view shows. A decoder takes word, tag and type from classification and the header
from its own read, which is a read at the same address.
-/
namespace HeapLens
open Run

theorem Header.ofValue_ok {v : Value} {h : Header} (parsed : Header.ofValue v = .ok h) :
    v.address = some h.address ∧ v.unsignedMember "basic.flags" = .ok h.flags ∧
      v.unsignedMember "basic.klass" = .ok h.klass := by
  unfold Header.ofValue Value.requireAddress at parsed
  cases place : v.address with
  | none => rw [place] at parsed; cases parsed
  | some address =>
    rw [place] at parsed
    cases flags : v.unsignedMember "basic.flags" with
    | error e => rw [flags] at parsed; cases parsed
    | ok f =>
      rw [flags] at parsed
      cases klass : v.unsignedMember "basic.klass" with
      | error e => rw [klass] at parsed; cases parsed
      | ok c => rw [klass] at parsed; cases parsed; exact ⟨rfl, rfl, rfl⟩

theorem Header.ofValue_address {v : Value} {h : Header} (parsed : Header.ofValue v = .ok h) :
    v.address = some h.address := (Header.ofValue_ok parsed).1

/-- The object with a header that was read again at the same address. -/
def HeapObject.Reread (o p : HeapObject) : Prop := p = o.withHeader p.header ∧ p.address = o.address

namespace Inspector
variable {i : Inspector}

theorem readSlot_ensures_reread (o : HeapObject) (l : Layout)
    (extent : Value → Header → Except InspectError UInt64) (size : UInt64) :
    Ensures (i.readSlot o l extent size) (Sum.elim (fun r => o.Reread r.object) fun _ => True) := by
  unfold readSlot
  apply ensures_after
  intro bytes
  split
  · exact ensures_fail _
  · next own part =>
    refine ensures_after_lift fun header parsed => ?_
    have place := Header.ofValue_address (Except.mapError_eq_ok parsed)
    apply ensures_after
    intro needed
    split
    · exact ensures_pure ⟨rfl, (Option.some.inj place).symm⟩
    · exact ensures_pure trivial

theorem readObject_ensures_reread (o : HeapObject) (type : String) (hint : UInt64)
    (extent : Value → Header → Except InspectError UInt64) :
    Ensures (i.readObject o type hint extent) fun r => o.Reread r.object := by
  unfold readObject
  apply ensures_after
  intro l
  apply ensures_bind (readSlot_ensures_reread o l extent _)
  rintro (r | needed) first
  · exact ensures_pure first
  · apply ensures_bind (readSlot_ensures_reread o l extent _)
    rintro (r | more) second
    · exact ensures_pure second
    · exact ensures_fail _

theorem decodeString_ensures_reread (o : HeapObject) :
    Ensures (i.decodeString o) fun v => o.Reread v.object := by
  unfold decodeString
  apply ensures_after
  intro offset
  apply ensures_bind (readObject_ensures_reread o _ _ _)
  intro r reread
  apply ensures_after
  intro length
  apply ensures_guard
  refine ensures_ite (ensures_after fun bytes => ensures_pure reread) ?_
  apply ensures_after
  intro pointer
  apply ensures_guard
  apply ensures_ite
  · exact ensures_pure reread
  · exact ensures_after fun bytes => ensures_pure reread

theorem decodeArray_ensures_reread (o : HeapObject) :
    Ensures (i.decodeArray o) fun v => o.Reread v.object := by
  unfold decodeArray
  apply ensures_after
  intro offset
  apply ensures_bind (readObject_ensures_reread o _ _ _)
  intro r reread
  refine ensures_ite (ensures_after fun ws => ensures_pure reread) ?_
  apply ensures_after
  intro length
  apply ensures_guard
  apply ensures_after
  intro pointer
  apply ensures_guard
  exact ensures_after fun ws => ensures_pure reread

theorem decodeRecord_ensures_reread (o : HeapObject) :
    Ensures (i.decodeRecord o) fun v => o.Reread v.object := by
  unfold decodeRecord
  apply ensures_after
  intro offset
  apply ensures_bind (readObject_ensures_reread o _ _ _)
  intro r reread
  refine ensures_ite ?_ (ensures_after fun ws => ensures_pure reread)
  apply ensures_after
  intro length
  apply ensures_guard
  exact ensures_after fun pointer => ensures_after fun ws => ensures_pure reread

theorem decodeHash_ensures_reread (o : HeapObject) :
    Ensures (i.decodeHash o) fun v => o.Reread v.object := by
  unfold decodeHash
  apply ensures_after
  intro own
  apply ensures_after
  intro table
  apply ensures_after
  intro p
  apply ensures_after
  intro hint
  apply ensures_bind (readObject_ensures_reread o _ _ _)
  intro r reread
  apply ensures_after
  intro default
  apply ensures_after
  intro address
  apply ensures_ite
  · exact ensures_after fun inline => ensures_after fun entries => ensures_pure reread
  · exact ensures_after fun counts => ensures_after fun bytes => ensures_pure reread

theorem decodeFloat_ensures_reread (o : HeapObject) :
    Ensures (i.decodeFloat o) fun v => o.Reread v.object := by
  unfold decodeFloat
  apply ensures_bind (readObject_ensures_reread o _ _ _)
  intro r reread
  exact ensures_after fun v => ensures_pure reread

theorem decodeBignum_ensures_reread (o : HeapObject) :
    Ensures (i.decodeBignum o) fun v => o.Reread v.object := by
  unfold decodeBignum
  apply ensures_after
  intro offset
  apply ensures_after
  intro digit
  apply ensures_bind (readObject_ensures_reread o _ _ _)
  intro r reread
  apply ensures_ite
  · apply ensures_ite
    · exact ensures_after fun bytes => ensures_pure reread
    · exact ensures_pure reread
  · apply ensures_after
    intro length
    apply ensures_after
    intro digits
    apply ensures_guard
    refine ensures_ite (ensures_pure reread) ?_
    apply ensures_ite
    · exact ensures_after fun bytes => ensures_pure reread
    · exact ensures_pure reread

theorem decodeSymbol_ensures_reread (o : HeapObject) :
    Ensures (i.decodeSymbol o) fun v => o.Reread v.object := by
  unfold decodeSymbol
  apply ensures_bind (readObject_ensures_reread o _ _ _)
  intro r reread
  apply ensures_after
  intro id
  apply ensures_after
  intro name
  apply ensures_after
  intro outcome
  split
  · exact ensures_pure reread
  · exact ensures_pure reread

theorem decodeObject_ensures_reread (o : HeapObject) :
    Ensures (i.decodeObject o) fun v => ∃ p, v.object? = some p ∧ o.Reread p := by
  have shown : ∀ (v : View) (p : HeapObject), v.object? = some p → o.Reread p →
      ∃ p, v.object? = some p ∧ o.Reread p := fun v p found reread => ⟨p, found, reread⟩
  unfold decodeObject
  split
  · exact ensures_bind (decodeString_ensures_reread o) fun v h => ensures_pure (shown _ _ rfl h)
  · exact ensures_bind (decodeArray_ensures_reread o) fun v h => ensures_pure (shown _ _ rfl h)
  · exact ensures_bind (decodeHash_ensures_reread o) fun v h => ensures_pure (shown _ _ rfl h)
  · exact ensures_bind (decodeRecord_ensures_reread o) fun v h => ensures_pure (shown _ _ rfl h)
  · exact ensures_bind (decodeFloat_ensures_reread o) fun v h => ensures_pure (shown _ _ rfl h)
  · exact ensures_bind (decodeBignum_ensures_reread o) fun v h => ensures_pure (shown _ _ rfl h)
  · exact ensures_bind (decodeSymbol_ensures_reread o) fun v h => ensures_pure (shown _ _ rfl h)
  · exact ensures_pure (shown _ o rfl ⟨rfl, rfl⟩)

theorem interpret_heap {word : UInt64} {o : HeapObject} {trace after : Trace}
    (run : i.classify word trace = (.ok (.heap o), after)) :
    i.interpret word trace = i.decodeObject o after := by
  rw [interpret, bind_at run]
  rfl

end Inspector
end HeapLens
