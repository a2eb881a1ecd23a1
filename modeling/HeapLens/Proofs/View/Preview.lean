import HeapLens.Proofs.Text.Escape
import HeapLens.Proofs.Text.Plain
import HeapLens.Proofs.View.Contents

/-!
Strings as they are shown. Of a string in memory the decoder takes the first bytes, wherever they
are held and however the flag for this is defined. Main statement: what is shown of a long text is
a front of what all of it would be shown as exactly when no character is cut.
-/
namespace HeapLens
open HeapLens.Text Run

/-! Strings that are shown whole. -/

theorem StringView.summary_whole {v : StringView} (whole : v.isTruncated = false) :
    v.summary = "\"" ++ escaped v.bytes ++ "\"" := by
  rw [summary, whole]
  exact String.append_empty

/-- Strings with the same bytes look the same, and so do a text of control characters and a string
that respells it, but no other two. -/
theorem StringView.alike_iff (a b : Bytes) :
    (escaped a = escaped b ↔ a = b ∨ Respells a b ∨ Respells b a) ∧
      ∀ v w : StringView, v.bytes = a → w.bytes = b → v.isTruncated = false →
        w.isTruncated = false → (v.summary = w.summary ↔ escaped a = escaped b) := by
  refine ⟨String.ofList_inj.trans (escape_eq_escape_iff a b), ?_⟩
  rintro v w rfl rfl whole whole'
  rw [summary_whole whole, summary_whole whole', String.append_left_inj, String.append_right_inj]

/-- An accented letter is not taken for the byte that has its code. -/
theorem StringView.accent_unlike_byte :
    StringView.summary ⟨⟨8, ⟨8, 5, 0⟩, 5, some .string⟩, 2, true, none, [0xc3, 0xa9]⟩ ≠
      StringView.summary ⟨⟨8, ⟨8, 5, 0⟩, 5, some .string⟩, 1, true, none, [0xe9]⟩ := by
  have alike := alike_iff [0xc3, 0xa9] [0xe9]
  rw [ne_eq, alike.2 _ _ rfl rfl rfl rfl, alike.1]
  rintro (same | ⟨-, cs, read, codes⟩ | ⟨broken, -⟩)
  · cases same
  · obtain rfl : ['é'] = cs := Option.some.inj read
    cases codes with
    | cons first _ => exact absurd first.2 (by decide)
  · cases broken

theorem StringView.control_like_byte :
    escaped [0xc2, 0x80] = "\\x80" ∧ escaped [0x80] = "\\x80" := by
  decide

/-! Lengths. -/

/-- A signed length that is not negative is the same number without its sign. -/
theorem natural_of_toInt {w : UInt64} {length : Nat} (counted : w.toInt64.toInt = length) :
    ¬ w.toInt64 < 0 ∧ w.toNat = length := by
  have signed : w.toInt64.toInt = w.toBitVec.toInt := rfl
  have plain : w.toBitVec.toNat = w.toNat := rfl
  have bound := w.toNat_lt
  rw [Int64.lt_iff_toInt_lt, counted]
  rw [signed, BitVec.toInt_eq_toNat_cond, plain] at counted
  refine ⟨Int.not_lt.mpr (Int.natCast_nonneg length), ?_⟩
  split at counted <;> omega

namespace Inspector
variable {i : Inspector}

/-- The part of a text that is read. -/
theorem toNat_preview {length : UInt64} {text : Bytes} (counted : length.toNat = text.length) :
    (min length previewBytes).toNat = min text.length 256 := by
  rw [UInt64.toNat_min, counted]
  rfl

theorem take_preview {length : UInt64} {text : Bytes} (counted : length.toNat = text.length) :
    text.take (min length previewBytes).toNat = text.take 256 := by
  rw [toNat_preview counted, Nat.min_comm, ← List.take_take, List.take_length]

theorem flag_set (constants : i.constants = .default) {flags : UInt64} {c : Constant}
    (set : flags &&& c.defaultValue ≠ 0) : i.flag flags c = true := by
  rw [flag, constants]
  exact bne_iff_ne.mpr set

theorem flag_clear (constants : i.constants = .default) {flags : UInt64} {c : Constant}
    (clear : flags &&& c.defaultValue = 0) : i.flag flags c = false := by
  rw [flag, constants]
  exact bne_eq_false_iff_eq.mpr clear

theorem framed_string : Framed .string := ⟨Nat.le_refl 40, by decide, rfl, rfl⟩

/-- The string at the address stays as it is, with its bytes behind the fields or in a buffer. One
without bytes needs no buffer. -/
inductive HoldsText (i : Inspector) (address : UInt64) (text : Bytes) : Prop where
  | inSlot {slot : Bytes} (held : i.target.Holds address slot) (long : 40 ≤ slot.length)
      (counted : (slot.wordAt 16).toInt64.toInt = text.length)
      (embedded : i.stringEmbedded (slot.wordAt 0) = true) (front : text <+: slot.drop 24) :
      HoldsText i address text
  | elsewhere {slot : Bytes} (held : i.target.Holds address slot) (long : 40 ≤ slot.length)
      (counted : (slot.wordAt 16).toInt64.toInt = text.length)
      (away : i.stringEmbedded (slot.wordAt 0) = false) (live : slot.wordAt 24 = 0 → text = [])
      (buffer : i.target.Holds (slot.wordAt 24) text) : HoldsText i address text

section
variable {word : UInt64} {slot text : Bytes} (constants : i.constants = .default)
  (object : i.target.HoldsObject word .string slot)
include constants object

theorem holdsText_inSlot (inside : (Content.string text).InSlot slot) :
    i.HoldsText (HeapObject.ofSlot word .string slot).address text := by
  obtain ⟨embedded, counted, front⟩ := inside
  have flagged : i.stringEmbedded (slot.wordAt 0) = true := by
    rw [stringEmbedded, flag_clear constants embedded]
    rfl
  exact .inSlot object.held object.long counted flagged front

theorem holdsText_elsewhere {pointer : UInt64}
    (outside : (Content.string text).Elsewhere slot pointer) (live : pointer ≠ 0)
    (buffer : i.target.Holds pointer text) :
    i.HoldsText (HeapObject.ofSlot word .string slot).address text := by
  obtain ⟨away, counted, rfl⟩ := outside
  have flagged : i.stringEmbedded (slot.wordAt 0) = false := by
    rw [stringEmbedded, flag_set constants away]
    rfl
  exact .elsewhere object.held object.long counted flagged (fun null => absurd null live) buffer

end

section
variable (layouts : i.target.layout = Registry.standard.lookup) {o : HeapObject}
  {slot text : Bytes} (held : i.target.Holds o.address slot) (long : 40 ≤ slot.length)
  (counted : (slot.wordAt 16).toInt64.toInt = text.length) (trace : Trace)
include layouts held long counted

theorem decodeString_embedded (embedded : i.stringEmbedded (slot.wordAt 0) = true)
    (front : text <+: slot.drop 24) :
    Yields (i.decodeString o) trace (StringView.Presents text) := by
  obtain ⟨natural, count⟩ := natural_of_toInt counted
  have length : (fieldsOf .string o.address slot).signedMember "len" =
      .ok (slot.wordAt 16).toInt64 := signedMember_held 16 rfl rfl (by decide) long
  have preview : (min (slot.wordAt 16) previewBytes).toNat = min text.length 256 :=
    toNat_preview count
  have needed : (24 + min (slot.wordAt 16) previewBytes).toNat = 24 + min text.length 256 := by
    have sum : (24 + min (slot.wordAt 16) previewBytes).toNat =
        (24 + (min (slot.wordAt 16) previewBytes).toNat) % 2 ^ 64 := UInt64.toNat_add ..
    omega
  have sized : i.stringExtent 24 (fieldsOf .string o.address slot)
      ⟨o.address, slot.wordAt 0, slot.wordAt 8⟩ =
      .ok (24 + min (slot.wordAt 16) previewBytes) := by
    rw [stringExtent, if_pos embedded, length]
    exact congrArg (fun n => Except.ok (24 + min n previewBytes)) (if_neg natural)
  have room := front.length_le
  rw [List.length_drop] at room
  have named := layout_standard layouts Registry.lookup_string
  unfold decodeString
  apply yields_after_access (offsetOf_standard layouts Registry.lookup_string rfl)
  apply yields_bind (readObject_held framed_string held sized long named
    (Nat.zero_le _) (by omega) trace)
  rintro _ later ⟨size, rfl, enough, short⟩
  have inline : ObjectRead.inline ⟨fieldsOf .string o.address slot,
        o.withHeader ⟨o.address, slot.wordAt 0, slot.wordAt 8⟩, slot.take size⟩ 24
        (min (slot.wordAt 16) previewBytes) = .ok (text.take 256) := by
    have start : (24 : UInt64).toNat = 24 := rfl
    rw [inline_held front (by omega) (by omega) short, take_preview count]
  apply yields_after_access length
  apply yields_else natural
  apply yields_if embedded
  apply yields_after_lift inline
  exact yields_pure ⟨count, rfl⟩

theorem decodeString_buffered (away : i.stringEmbedded (slot.wordAt 0) = false)
    (live : slot.wordAt 24 = 0 → text = []) (buffer : i.target.Holds (slot.wordAt 24) text) :
    Yields (i.decodeString o) trace (StringView.Presents text) := by
  obtain ⟨natural, count⟩ := natural_of_toInt counted
  have flagged := Bool.eq_false_iff.mp away
  have length : (fieldsOf .string o.address slot).signedMember "len" =
      .ok (slot.wordAt 16).toInt64 := signedMember_held 16 rfl rfl (by decide) long
  have pointer : (fieldsOf .string o.address slot).unsignedMember "as.heap.ptr" =
      .ok (slot.wordAt 24) := unsignedMember_held 24 rfl rfl (by decide) long
  have sized : i.stringExtent 24 (fieldsOf .string o.address slot)
      ⟨o.address, slot.wordAt 0, slot.wordAt 8⟩ = .ok 0 := if_neg flagged
  have safe : ¬ (slot.wordAt 24 = 0 ∧ 0 < slot.wordAt 16) := by
    rintro ⟨null, positive⟩
    have bytes : 0 < (slot.wordAt 16).toNat := positive
    rw [live null] at count
    exact absurd count (Nat.ne_of_gt bytes)
  have front := take_preview count
  have named := layout_standard layouts Registry.lookup_string
  unfold decodeString
  apply yields_after_access (offsetOf_standard layouts Registry.lookup_string rfl)
  apply yields_bind (readObject_held framed_string held sized long named
    (Nat.zero_le _) (Nat.zero_le _) trace)
  rintro _ later ⟨size, rfl, -, -⟩
  apply yields_after_access length
  apply yields_else natural
  apply yields_else flagged
  apply yields_after_access pointer
  apply yields_else safe
  by_cases none : min (slot.wordAt 16) previewBytes = 0
  · rw [none] at front
    exact yields_if none (yields_pure ⟨count, front⟩)
  · apply yields_else none
    have few : (min (slot.wordAt 16) previewBytes).toNat ≤ text.length := by
      rw [toNat_preview count]
      exact Nat.min_le_left _ _
    apply yields_bind (buffer.read few later)
    rintro _ after rfl
    exact yields_pure ⟨count, front⟩

end

section
variable (layouts : i.target.layout = Registry.standard.lookup) {o : HeapObject} {text : Bytes}
  (holds : i.HoldsText o.address text)
include layouts holds

theorem decodeString_held (trace : Trace) :
    Yields (i.decodeString o) trace (StringView.Presents text) := by
  cases holds with
  | inSlot held long counted embedded front =>
    exact decodeString_embedded layouts held long counted trace embedded front
  | elsewhere held long counted away live buffer =>
    exact decodeString_buffered layouts held long counted trace away live buffer

theorem interpret_string {word : UInt64} {trace middle : Trace}
    (classified : i.classify word trace = (.ok (.heap o), middle))
    (type : o.type = some .string) :
    ∃ v after, i.interpret word trace = (.ok (.string v), after) ∧ v.Presents text := by
  obtain ⟨v, after, run, shown⟩ := (decodeString_held layouts holds middle).result
  refine ⟨v, after, ?_, shown⟩
  rw [interpret_heap classified, decodeObject, type]
  exact bind_at run

end

/-- A text is shown up to the cut. What stands between the quotes is a front of what all of the
text would be shown as exactly when the cut is between two characters; otherwise every byte is shown
by itself. -/
theorem preview_prefix_iff (layouts : i.target.layout = Registry.standard.lookup) {word : UInt64}
    {o : HeapObject} {trace middle : Trace}
    (classified : i.classify word trace = (.ok (.heap o), middle)) (type : o.type = some .string)
    {s : String} (holds : i.HoldsText o.address (Utf8.encode s)) :
    ∃ v after note, i.interpret word trace = (.ok (.string v), after) ∧
      v.bytes = (Utf8.encode s).take 256 ∧
      v.summary = "\"" ++ escaped v.bytes ++ "\"" ++ note ∧
      closeQuote (escaped v.bytes ++ "\"" ++ note).toList =
        some (escape v.bytes, note.toList) ∧
      note = (if 256 < s.utf8ByteSize then "... (" ++ toString s.utf8ByteSize ++ " bytes)"
        else "") ∧
      (escape v.bytes <+: escape (Utf8.encode s) ↔
        s.utf8ByteSize ≤ 256 ∨ ∃ t u, s = t ++ u ∧ t.utf8ByteSize = 256) ∧
      (¬ escape v.bytes <+: escape (Utf8.encode s) →
        escape v.bytes = v.bytes.flatMap escapeByte) := by
  obtain ⟨v, after, run, shown⟩ := interpret_string layouts holds classified type
  refine ⟨v, after, _, run, shown.bytes, ?_, ?_, rfl, ?_, ?_⟩
  · rw [shown.summary, shown.bytes, Utf8.length_encode]
  · rw [String.toList_append, String.toList_append, escaped, String.toList_ofList,
      List.append_assoc]
    exact closeQuote_escape v.bytes _
  · rw [shown.bytes]
    exact escape_take_prefix_iff s 256
  · intro hidden
    cases kept : Utf8.decode v.bytes with
    | some cs =>
      rw [shown.bytes] at kept hidden
      exact absurd ((escape_prefix_iff (Utf8.decode_encode s) (List.take_prefix _ _)).mpr
        (kept ▸ rfl)) hidden
    | none => exact escape_bytes kept

/-- A text in a buffer, however long it is. -/
theorem held_string {text : Bytes} (short : text.length < 2 ^ 63) (limit : UInt64) :
    ∃ o middle, classify ⟨(Content.string text).target, .default, limit⟩ 8192 #[] =
        (.ok (.heap o), middle) ∧ o.type = some .string ∧
      HoldsText ⟨(Content.string text).target, .default, limit⟩ o.address text := by
  obtain ⟨-, slot, pointer, object, outside, live, buffer⟩ :=
    Content.held_in_both_ways (c := .string text) short
  have classified := classify_held (i := ⟨(Content.string text).target, .default, limit⟩)
    (Content.target_layout _) rfl object #[]
  exact ⟨_, _, classified, rfl, holdsText_elsewhere rfl object outside live buffer⟩

/-- A row of letters and an accented one, which takes two bytes. -/
def accentBehind (count : Nat) : String := .ofList (List.replicate count 'a' ++ ['é'])

theorem encode_accentBehind (count : Nat) :
    Utf8.encode (accentBehind count) = List.replicate count 0x61 ++ [0xc3, 0xa9] := by
  have letters : Utf8.bytes (List.replicate count 'a') = List.replicate count 0x61 := by
    rw [Utf8.bytes, List.flatMap_replicate]
    exact List.flatten_replicate_singleton
  rw [Utf8.encode_eq_bytes, accentBehind, String.toList_ofList, Utf8.bytes_append, letters]
  rfl

theorem utf8ByteSize_accentBehind (count : Nat) :
    (accentBehind count).utf8ByteSize = count + 2 := by
  rw [← Utf8.length_encode, encode_accentBehind, List.length_append, List.length_replicate]
  rfl

theorem preview_whole_characters : ∃ v after note,
    Inspector.interpret ⟨(Content.string (Utf8.encode (accentBehind 256))).target, .default, 64⟩
        8192 #[] = (.ok (.string v), after) ∧
      v.summary = "\"" ++ escaped v.bytes ++ "\"" ++ note ∧ note = "... (258 bytes)" ∧
      escape v.bytes <+: escape (Utf8.encode (accentBehind 256)) := by
  have size := utf8ByteSize_accentBehind 256
  have short : (Utf8.encode (accentBehind 256)).length < 2 ^ 63 := by
    rw [Utf8.length_encode, size]
    decide
  obtain ⟨o, middle, classified, type, holds⟩ := held_string short 64
  obtain ⟨v, after, note, run, -, shown, -, counted, front, -⟩ :=
    preview_prefix_iff (Content.target_layout _) classified type holds
  rw [size] at counted front
  refine ⟨v, after, note, run, shown, counted, front.mpr (.inr ?_)⟩
  exact ⟨.ofList (List.replicate 256 'a'), "é", by decide +kernel, by decide +kernel⟩

/-- One letter fewer, and the cut is inside the accented one. -/
theorem preview_cut_character : ∃ v after,
    Inspector.interpret ⟨(Content.string (Utf8.encode (accentBehind 255))).target, .default, 64⟩
        8192 #[] = (.ok (.string v), after) ∧
      escape v.bytes = List.replicate 255 'a' ++ ['\\', 'x', 'C', '3'] ∧
      escape (Utf8.encode (accentBehind 255)) = List.replicate 255 'a' ++ ['é'] ∧
      ¬ escape v.bytes <+: escape (Utf8.encode (accentBehind 255)) := by
  have short : (Utf8.encode (accentBehind 255)).length < 2 ^ 63 := by
    rw [Utf8.length_encode, utf8ByteSize_accentBehind]
    decide
  obtain ⟨o, middle, classified, type, holds⟩ := held_string short 64
  obtain ⟨v, after, run, shown⟩ := interpret_string (Content.target_layout _) holds classified type
  refine ⟨v, after, run, ?_⟩
  rw [shown.bytes, encode_accentBehind]
  decide +kernel

end Inspector
end HeapLens
