import HeapLens.Proofs.View.Effects
import HeapLens.Proofs.View.Reread

/-!
The slot of an object. However often it is read, what comes out was parsed from the answer of the
last read alone: the fields, the header and the inline bytes, with no part of an earlier header.
-/
namespace HeapLens
open Run

theorem Target.read_ok {t : Target} {address size : UInt64} {bytes : Bytes} {trace after : Trace}
    (run : t.read address size trace = (.ok bytes, after)) :
    t.memory trace.size address size = .ok bytes ∧ after = trace.push ⟨address, size⟩ := by
  rw [Target.read_apply] at run
  cases answer : t.memory trace.size address size with
  | error range => rw [answer] at run; cases run
  | ok found => rw [answer] at run; cases run; exact ⟨rfl, rfl⟩

theorem ObjectRead.inline_ok {r : ObjectRead} {offset length : UInt64} {bytes : Bytes}
    (inside : r.inline offset length = .ok bytes) :
    r.bytes.slice? offset.toNat length.toNat = some bytes := by
  unfold ObjectRead.inline at inside
  split at inside
  · next found => cases inside; exact found
  · cases inside

theorem ObjectRead.inlineWords_ok {r : ObjectRead} {offset count : UInt64} {ws : List UInt64}
    (inside : r.inlineWords offset count = .ok ws) :
    ∃ bytes, r.bytes.slice? offset.toNat (count * wordSize).toNat = some bytes ∧
      ws = bytes.words := by
  unfold ObjectRead.inlineWords at inside
  cases found : r.inline offset (count * wordSize) with
  | error e => rw [found] at inside; cases inside
  | ok bytes => rw [found] at inside; cases inside; exact ⟨bytes, r.inline_ok found, rfl⟩

theorem ObjectRead.addressAt_ok {r : ObjectRead} {offset address : UInt64}
    (inside : r.addressAt offset = .ok address) : address = r.object.address + offset := by
  unfold ObjectRead.addressAt at inside
  split at inside
  · cases inside; rfl
  · cases inside

/-- All that is known of an object comes from the answer to one read at its address, the one that
was made after the trace `before`. -/
structure ObjectRead.FromSlot (t : Target) (type : String) (before : Trace) (size : UInt64)
    (r : ObjectRead) : Prop where
  answer : t.memory before.size r.object.address size = .ok r.bytes
  fields : ∃ l own, t.layout type = .ok l ∧ r.bytes.slice? 0 l.size.toNat = some own ∧
    r.fields = ⟨l, own, some r.object.address⟩
  header : Header.ofValue r.fields = .ok r.object.header

namespace Inspector
variable {i : Inspector} {o : HeapObject} {type : String} {l : Layout}
  {extent : Value → Header → Except InspectError UInt64} {r : ObjectRead} {trace after : Trace}

theorem readSlot_ok {size : UInt64} (named : i.target.layout type = .ok l)
    (run : i.readSlot o l extent size trace = (.ok (.inl r), after)) :
    r.FromSlot i.target type trace size ∧ after = trace.push ⟨r.object.address, size⟩ := by
  unfold readSlot at run
  obtain ⟨bytes, middle, read, run⟩ := bind_ok run
  obtain ⟨answer, rfl⟩ := Target.read_ok read
  cases part : bytes.slice? 0 l.size.toNat with
  | none => rw [part] at run; cases run
  | some own =>
    rw [part] at run
    obtain ⟨header, parsed, run⟩ := access_bind_ok run
    obtain ⟨needed, _, run⟩ := lift_bind_ok run
    have place : o.address = header.address := Option.some.inj (Header.ofValue_address parsed)
    rw [place] at answer parsed run
    by_cases fits : needed.toNat ≤ bytes.length
    · rw [if_pos fits] at run
      cases run
      exact ⟨⟨answer, ⟨l, own, named, part, rfl⟩, parsed⟩, rfl⟩
    · rw [if_neg fits] at run
      cases run

/-- The second read, if there is one, is the one that counts. -/
theorem readObject_ok {hint : UInt64}
    (run : i.readObject o type hint extent trace = (.ok r, after)) :
    ∃ before size, trace.size ≤ before.size ∧ r.FromSlot i.target type before size ∧
      after = before.push ⟨r.object.address, size⟩ := by
  unfold readObject at run
  obtain ⟨l, named, run⟩ := access_bind_ok run
  obtain ⟨first, middle, read, run⟩ := bind_ok run
  cases first with
  | inl found =>
    cases run
    obtain ⟨slot, rfl⟩ := readSlot_ok named read
    exact ⟨trace, _, Nat.le_refl _, slot, rfl⟩
  | inr needed =>
    obtain ⟨second, later, again, run⟩ := bind_ok run
    have grows : Confined (i.readSlot o l extent (max l.size hint))
        (fun reads => trace.size ≤ reads.size) fun _ => True :=
      i.readSlot_confined (lasting_size _) (fun _ _ => trivial) o (Target.lays_of_layout named)
        (fun _ _ _ _ _ => trivial) _
    have longer := grows.after (Nat.le_refl _) read
    cases second with
    | inl found =>
      cases run
      obtain ⟨slot, rfl⟩ := readSlot_ok named again
      exact ⟨middle, needed, longer, slot, rfl⟩
    | inr more => cases run

end Inspector
end HeapLens
