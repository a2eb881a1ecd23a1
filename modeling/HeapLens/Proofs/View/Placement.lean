import HeapLens.Proofs.View.Preview

/-!
Where objects hold their content makes no difference to how they are shown. Each of the decoders of
arrays, records, strings and integers has a path for data in the slot and one for data elsewhere;
for both it succeeds and its view presents the content. Main statement: two objects that hold the
same content, one in its slot and one in a buffer, are shown alike, whatever the limit.
-/
namespace HeapLens
open Run

/-! Lengths. -/

/-- The part of a row of words that the limit lets through. -/
theorem take_min {count limit : UInt64} {ws : List UInt64} (counted : count.toNat = ws.length) :
    ws.take (min count limit).toNat = ws.take limit.toNat := by
  rw [UInt64.toNat_min, counted, Nat.min_comm, ← List.take_take, List.take_length]

theorem toNat_min_le {count limit : UInt64} : (min count limit).toNat ≤ count.toNat := by
  rw [UInt64.toNat_min]
  exact Nat.min_le_left _ _

theorem toNat_words {count : UInt64} (small : count.toNat ≤ 127) :
    (count * wordSize).toNat = 8 * count.toNat := by
  have product : (count * wordSize).toNat = count.toNat * 8 % 2 ^ 64 := UInt64.toNat_mul ..
  omega

theorem toNat_row {count : UInt64} (small : count.toNat ≤ 127) :
    (16 + count * wordSize).toNat = 16 + 8 * count.toNat := by
  have sum : (16 + count * wordSize).toNat = (16 + (count * wordSize).toNat) % 2 ^ 64 :=
    UInt64.toNat_add ..
  rw [toNat_words small] at sum
  omega

/-! Rows of words, inside a slot and elsewhere. -/

section Rows
variable {ws : List UInt64} {slot : Bytes} {count : UInt64}

theorem row_inside {limit : UInt64} (front : Bytes.ofWords ws <+: slot.drop 16)
    (counted : count.toNat = ws.length) (small : count.toNat ≤ 127) (long : 40 ≤ slot.length) :
    (16 + min count limit * wordSize).toNat ≤ slot.length := by
  have cut : (min count limit).toNat ≤ count.toNat := toNat_min_le
  have room := front.length_le
  rw [Bytes.length_ofWords, List.length_drop] at room
  rw [toNat_row (by omega)]
  omega

theorem inline_row {fields : Value} {o : HeapObject} {size : Nat}
    (front : Bytes.ofWords ws <+: slot.drop 16) (few : count.toNat ≤ ws.length)
    (small : count.toNat ≤ 127) (inside : (16 + count * wordSize).toNat ≤ size)
    (short : size ≤ slot.length) :
    ObjectRead.inline ⟨fields, o, slot.take size⟩ 16 (count * wordSize) =
      .ok (Bytes.ofWords (ws.take count.toNat)) := by
  have whole := Bytes.length_ofWords ws
  have bytes := toNat_words small
  have sixteen : (16 : UInt64).toNat = 16 := rfl
  rw [toNat_row small] at inside
  rw [Inspector.inline_held front (by omega) (by omega) short, bytes, Bytes.take_ofWords]

theorem read_row {t : Target} {pointer : UInt64} (held : t.Holds pointer (Bytes.ofWords ws))
    (few : count.toNat ≤ ws.length) (small : count.toNat ≤ 127) (trace : Trace) :
    Yields (t.read pointer (count * wordSize)) trace
      (· = Bytes.ofWords (ws.take count.toNat)) := by
  have whole := Bytes.length_ofWords ws
  have bytes := toNat_words small
  have read : Yields (t.read pointer (count * wordSize)) trace _ := held.read (by omega) trace
  rwa [bytes, Bytes.take_ofWords] at read

theorem readWords_row {i : Inspector} {pointer : UInt64}
    (held : i.target.Holds pointer (Bytes.ofWords ws)) (few : count.toNat ≤ ws.length)
    (small : count.toNat ≤ 127) (trace : Trace) :
    Yields (i.readWords pointer count) trace (· = ws.take count.toNat) := by
  unfold Inspector.readWords
  by_cases none : count = 0
  · rw [if_pos none, none]
    exact yields_pure rfl
  · rw [if_neg none, if_neg (by rw [UInt64.size]; omega)]
    apply yields_bind (read_row held few small trace)
    rintro _ later rfl
    exact yields_pure (Bytes.words_ofWords _)

/-- The elements of an array or a record that has them in its slot. -/
theorem sequence_inSlot {fields : Value} {o : HeapObject} {size : Nat} {limit : UInt64}
    (front : Bytes.ofWords ws <+: slot.drop 16) (counted : count.toNat = ws.length)
    (small : count.toNat ≤ 127) (inside : (16 + min count limit * wordSize).toNat ≤ size)
    (short : size ≤ slot.length) (trace : Trace) :
    Yields (do
      return ⟨o, count, true, none,
        ← ObjectRead.inlineWords ⟨fields, o, slot.take size⟩ 16 (min count limit)⟩) trace
      (SequenceView.Presents limit.toNat ws) := by
  have cut : (min count limit).toNat ≤ count.toNat := toNat_min_le
  have bytes : ObjectRead.inline ⟨fields, o, slot.take size⟩ 16 (min count limit * wordSize) =
      .ok (Bytes.ofWords (ws.take limit.toNat)) := by
    rw [inline_row front (by omega) (by omega) inside short, take_min counted]
  have words : ObjectRead.inlineWords ⟨fields, o, slot.take size⟩ 16 (min count limit) =
      .ok (ws.take limit.toNat) := by
    rw [ObjectRead.inlineWords, bytes]
    exact congrArg Except.ok (Bytes.words_ofWords _)
  apply yields_after_lift words
  exact yields_pure ⟨counted, rfl⟩

/-- The elements of an array or a record that has them in a table elsewhere. -/
theorem sequence_elsewhere {i : Inspector} {o : HeapObject} {pointer : UInt64}
    (held : i.target.Holds pointer (Bytes.ofWords ws)) (counted : count.toNat = ws.length)
    (small : count.toNat ≤ 127) (trace : Trace) :
    Yields (do
      return ⟨o, count, false, some pointer, ← i.readWords pointer (min count i.limit)⟩) trace
      (SequenceView.Presents i.limit.toNat ws) := by
  have cut : (min count i.limit).toNat ≤ count.toNat := toNat_min_le
  apply yields_bind (readWords_row held (by omega) (by omega) trace)
  rintro _ later rfl
  exact yields_pure ⟨counted, take_min counted⟩

end Rows

namespace Inspector
variable {i : Inspector} {word : UInt64} {slot : Bytes}

theorem framed_array : Framed .array := ⟨Nat.le_refl 40, by decide, rfl, rfl⟩

theorem framed_struct : Framed .struct := ⟨Nat.le_refl 40, by decide, rfl, rfl⟩

theorem framed_bignum : Framed .bignum := ⟨Nat.le_refl 40, by decide, rfl, rfl⟩

theorem sign_default (constants : i.constants = .default) {flags : UInt64} {negative : Bool}
    (sign : flags &&& 0x2000 = 0 ↔ negative = true) :
    (!i.flag flags .bignumSign) = negative := by
  by_cases clear : flags &&& 0x2000 = 0
  · rw [flag_clear constants clear, sign.mp clear]
    rfl
  · rw [flag_set constants clear, Bool.eq_false_iff.mpr (mt sign.mpr clear)]
    rfl

section
variable (layouts : i.target.layout = Registry.standard.lookup)
  (constants : i.constants = .default) (trace : Trace)
include layouts constants

theorem decodeArray_inSlot {ws : List UInt64} (object : i.target.HoldsObject word .array slot)
    (inside : (Content.array ws).InSlot slot) :
    Yields (i.decodeArray (.ofSlot word .array slot)) trace
      (SequenceView.Presents i.limit.toNat ws) := by
  obtain ⟨embedded, counted, front⟩ := inside
  have flagged : i.flag (slot.wordAt 0) .arrayEmbedFlag = true := flag_set constants embedded
  have length : i.arrayLength (slot.wordAt 0) = (slot.wordAt 0 &&& 0x3f8000) >>> 15 := by
    rw [arrayLength, constants]
    rfl
  have small : ((slot.wordAt 0 &&& 0x3f8000) >>> 15).toNat ≤ 127 := toNat_field_le _ _ _
  rw [← length] at counted small
  have extent : i.arrayExtent 16 (slot.wordAt 0) =
      16 + min (i.arrayLength (slot.wordAt 0)) i.limit * wordSize := if_pos flagged
  have room : (i.arrayExtent 16 (slot.wordAt 0)).toNat ≤ slot.length := by
    rw [extent]
    exact row_inside front counted small object.long
  have named := layout_standard layouts Registry.lookup_array
  unfold decodeArray
  apply yields_after_access (offsetOf_standard layouts Registry.lookup_array rfl)
  apply yields_bind (readRow_held framed_array object named _ room trace)
  rintro _ later ⟨size, rfl, enough, short⟩
  rw [extent] at enough
  apply yields_if flagged
  exact sequence_inSlot front counted small enough short later

theorem decodeArray_elsewhere {ws : List UInt64} {pointer : UInt64} (few : ws.length ≤ 127)
    (object : i.target.HoldsObject word .array slot)
    (outside : (Content.array ws).Elsewhere slot pointer) (live : pointer ≠ 0)
    (held : i.target.Holds pointer (Bytes.ofWords ws)) :
    Yields (i.decodeArray (.ofSlot word .array slot)) trace
      (SequenceView.Presents i.limit.toNat ws) := by
  obtain ⟨away, counted, rfl⟩ := outside
  have flagged := Bool.eq_false_iff.mp (flag_clear (c := .arrayEmbedFlag) constants away)
  obtain ⟨natural, count⟩ := natural_of_toInt counted
  have length : (fieldsOf .array word slot).signedMember "as.heap.len" =
      .ok (slot.wordAt 16).toInt64 := signedMember_held 16 rfl rfl (by decide) object.long
  have pointer : (fieldsOf .array word slot).unsignedMember "as.heap.ptr" =
      .ok (slot.wordAt 32) := unsignedMember_held 32 rfl rfl (by decide) object.long
  have room : (i.arrayExtent 16 (slot.wordAt 0)).toNat ≤ slot.length := by
    rw [arrayExtent, if_neg flagged]
    exact Nat.zero_le _
  have named := layout_standard layouts Registry.lookup_array
  unfold decodeArray
  apply yields_after_access (offsetOf_standard layouts Registry.lookup_array rfl)
  apply yields_bind (readRow_held framed_array object named _ room trace)
  rintro _ later ⟨size, rfl, -, -⟩
  apply yields_else flagged
  apply yields_after_access length
  apply yields_else natural
  apply yields_after_access pointer
  apply yields_else fun null => live null.1
  exact sequence_elsewhere held count (by omega) later

theorem decodeRecord_inSlot {ws : List UInt64} (object : i.target.HoldsObject word .record slot)
    (inside : (Content.record ws).InSlot slot) :
    Yields (i.decodeRecord (.ofSlot word .record slot)) trace
      (SequenceView.Presents i.limit.toNat ws) := by
  obtain ⟨filled, counted, front⟩ := inside
  have length : i.recordLength (slot.wordAt 0) = (slot.wordAt 0 &&& 0xfe000) >>> 13 := by
    rw [recordLength, constants]
    rfl
  have small : ((slot.wordAt 0 &&& 0xfe000) >>> 13).toNat ≤ 127 := toNat_field_le _ _ _
  rw [← length] at counted small
  have embedded : i.recordLength (slot.wordAt 0) ≠ 0 := by
    intro none
    rw [none] at counted
    exact filled (List.length_eq_zero_iff.mp counted.symm)
  have extent : i.recordExtent 16 (slot.wordAt 0) =
      16 + min (i.recordLength (slot.wordAt 0)) i.limit * wordSize := if_neg embedded
  have room : (i.recordExtent 16 (slot.wordAt 0)).toNat ≤ slot.length := by
    rw [extent]
    exact row_inside front counted small object.long
  have named := layout_standard layouts Registry.lookup_struct
  unfold decodeRecord
  apply yields_after_access (offsetOf_standard layouts Registry.lookup_struct rfl)
  apply yields_bind (readRow_held framed_struct object named _ room trace)
  rintro _ later ⟨size, rfl, enough, short⟩
  rw [extent] at enough
  apply yields_else embedded
  exact sequence_inSlot front counted small enough short later

theorem decodeRecord_elsewhere {ws : List UInt64} {pointer : UInt64} (few : ws.length ≤ 127)
    (object : i.target.HoldsObject word .record slot)
    (outside : (Content.record ws).Elsewhere slot pointer)
    (held : i.target.Holds pointer (Bytes.ofWords ws)) :
    Yields (i.decodeRecord (.ofSlot word .record slot)) trace
      (SequenceView.Presents i.limit.toNat ws) := by
  obtain ⟨away, counted, rfl⟩ := outside
  have none : i.recordLength (slot.wordAt 0) = 0 := by
    rw [recordLength, constants]
    exact away
  obtain ⟨natural, count⟩ := natural_of_toInt counted
  have length : (fieldsOf .struct word slot).signedMember "as.heap.len" =
      .ok (slot.wordAt 16).toInt64 := signedMember_held 16 rfl rfl (by decide) object.long
  have pointer : (fieldsOf .struct word slot).unsignedMember "as.heap.ptr" =
      .ok (slot.wordAt 24) := unsignedMember_held 24 rfl rfl (by decide) object.long
  have room : (i.recordExtent 16 (slot.wordAt 0)).toNat ≤ slot.length := by
    rw [recordExtent, none]
    exact Nat.zero_le _
  have named := layout_standard layouts Registry.lookup_struct
  unfold decodeRecord
  apply yields_after_access (offsetOf_standard layouts Registry.lookup_struct rfl)
  apply yields_bind (readRow_held framed_struct object named _ room trace)
  rintro _ later ⟨size, rfl, -, -⟩
  apply yields_if none
  apply yields_after_access length
  apply yields_else natural
  apply yields_after_access pointer
  exact sequence_elsewhere held count (by omega) later

theorem decodeString_inSlot {text : Bytes} (object : i.target.HoldsObject word .string slot)
    (inside : (Content.string text).InSlot slot) :
    Yields (i.decodeString (.ofSlot word .string slot)) trace (StringView.Presents text) :=
  decodeString_held layouts (holdsText_inSlot constants object inside) trace

theorem decodeString_elsewhere {text : Bytes} {pointer : UInt64}
    (object : i.target.HoldsObject word .string slot)
    (outside : (Content.string text).Elsewhere slot pointer) (live : pointer ≠ 0)
    (held : i.target.Holds pointer text) :
    Yields (i.decodeString (.ofSlot word .string slot)) trace (StringView.Presents text) :=
  decodeString_held layouts (holdsText_elsewhere constants object outside live held) trace

theorem decodeBignum_inSlot {ds : List UInt64} {negative : Bool}
    (object : i.target.HoldsObject word .bignum slot)
    (inside : (Content.bignum negative ds).InSlot slot) :
    Yields (i.decodeBignum (.ofSlot word .bignum slot)) trace
      (BignumView.Presents i.limit.toNat negative ds) := by
  obtain ⟨sign, embedded, counted, front⟩ := inside
  have flagged : i.flag (slot.wordAt 0) .bignumEmbedFlag = true := flag_set constants embedded
  have minus := sign_default constants sign
  have length : i.bignumLength (slot.wordAt 0) = (slot.wordAt 0 &&& 0x38000) >>> 15 := by
    rw [bignumLength, constants]
    rfl
  have small : ((slot.wordAt 0 &&& 0x38000) >>> 15).toNat ≤ 7 := toNat_field_le _ _ _
  rw [← length] at counted small
  have whole : ds.take (i.bignumLength (slot.wordAt 0)).toNat = ds := by
    rw [counted, List.take_length]
  have extent : i.bignumExtent 16 wordSize (slot.wordAt 0) =
      if i.bignumLength (slot.wordAt 0) ≤ i.limit
        then 16 + i.bignumLength (slot.wordAt 0) * wordSize else 0 := by
    simp only [bignumExtent, flagged, Bool.true_and, decide_eq_true_eq]
  have room : (i.bignumExtent 16 wordSize (slot.wordAt 0)).toNat ≤ slot.length := by
    have data := front.length_le
    have long := object.long
    rw [Bytes.length_ofWords, List.length_drop] at data
    rw [extent]
    split
    · rw [toNat_row (by omega)]
      omega
    · exact Nat.zero_le _
  have named := layout_standard layouts Registry.lookup_bignum
  unfold decodeBignum
  apply yields_after_access (offsetOf_standard layouts Registry.lookup_bignum rfl)
  apply yields_after_access (layout_standard layouts Registry.lookup_bigDigit)
  apply yields_bind (readRow_held framed_bignum object named _ room trace)
  rintro _ later ⟨size, rfl, enough, short⟩
  apply yields_if flagged
  by_cases few : i.bignumLength (slot.wordAt 0) ≤ i.limit
  · rw [extent, if_pos few] at enough
    have fits : ds.length ≤ i.limit.toNat := counted ▸ UInt64.le_iff_toNat_le.mp few
    apply yields_if few
    apply yields_after_lift (inline_row front (by omega) (by omega) enough short)
    rw [whole, Bytes.limbs_ofWords]
    exact yields_pure ⟨counted, minus, (if_pos fits).symm⟩
  · have many : ¬ ds.length ≤ i.limit.toNat := counted ▸ mt UInt64.le_iff_toNat_le.mpr few
    apply yields_else few
    exact yields_pure ⟨counted, minus, (if_neg many).symm⟩

theorem decodeBignum_elsewhere {ds : List UInt64} {negative : Bool} {pointer : UInt64}
    (few : ds.length ≤ 7) (object : i.target.HoldsObject word .bignum slot)
    (outside : (Content.bignum negative ds).Elsewhere slot pointer) (live : pointer ≠ 0)
    (held : i.target.Holds pointer (Bytes.ofWords ds)) :
    Yields (i.decodeBignum (.ofSlot word .bignum slot)) trace
      (BignumView.Presents i.limit.toNat negative ds) := by
  obtain ⟨sign, away, counted, rfl⟩ := outside
  have flagged := Bool.eq_false_iff.mp (flag_clear (c := .bignumEmbedFlag) constants away)
  have minus := sign_default constants sign
  have length : (fieldsOf .bignum word slot).unsignedMember "as.heap.len" =
      .ok (slot.wordAt 16) := unsignedMember_held 16 rfl rfl (by decide) object.long
  have digits : (fieldsOf .bignum word slot).unsignedMember "as.heap.digits" =
      .ok (slot.wordAt 24) := unsignedMember_held 24 rfl rfl (by decide) object.long
  have whole : ds.take (slot.wordAt 16).toNat = ds := by
    rw [counted, List.take_length]
  have room : (i.bignumExtent 16 wordSize (slot.wordAt 0)).toNat ≤ slot.length := by
    rw [bignumExtent, Bool.eq_false_iff.mpr flagged]
    exact Nat.zero_le _
  have named := layout_standard layouts Registry.lookup_bignum
  unfold decodeBignum
  apply yields_after_access (offsetOf_standard layouts Registry.lookup_bignum rfl)
  apply yields_after_access (layout_standard layouts Registry.lookup_bigDigit)
  apply yields_bind (readRow_held framed_bignum object named _ room trace)
  rintro _ later ⟨size, rfl, -, -⟩
  apply yields_else flagged
  apply yields_after_access length
  apply yields_after_access digits
  apply yields_else fun null => live null.1
  by_cases none : slot.wordAt 16 = 0
  · rw [none] at counted
    obtain rfl : ds = [] := List.length_eq_zero_iff.mp counted.symm
    apply yields_if none
    exact yields_pure ⟨congrArg UInt64.toNat none, minus, (if_pos (Nat.zero_le _)).symm⟩
  · apply yields_else none
    by_cases short : slot.wordAt 16 ≤ i.limit
    · have fits : ds.length ≤ i.limit.toNat := counted ▸ UInt64.le_iff_toNat_le.mp short
      apply yields_if short
      apply yields_bind (read_row held (by omega) (by omega) later)
      rintro _ after rfl
      rw [whole, Bytes.limbs_ofWords]
      exact yields_pure ⟨counted, minus, (if_pos fits).symm⟩
    · have many : ¬ ds.length ≤ i.limit.toNat := counted ▸ mt UInt64.le_iff_toNat_le.mpr short
      apply yields_else short
      exact yields_pure ⟨counted, minus, (if_neg many).symm⟩

theorem decodeObject_inSlot {c : Content} (object : i.target.HoldsObject word c.type slot)
    (inside : c.InSlot slot) :
    Yields (i.decodeObject (.ofSlot word c.type slot)) trace (View.Presents i.limit.toNat c) := by
  cases c with
  | array ws =>
    exact yields_bind (decodeArray_inSlot layouts constants trace object inside)
      fun v _ shown => yields_pure (.array shown)
  | record ws =>
    exact yields_bind (decodeRecord_inSlot layouts constants trace object inside)
      fun v _ shown => yields_pure (.record shown)
  | string text =>
    exact yields_bind (decodeString_inSlot layouts constants trace object inside)
      fun v _ shown => yields_pure (.string shown)
  | bignum negative ds =>
    exact yields_bind (decodeBignum_inSlot layouts constants trace object inside)
      fun v _ shown => yields_pure (.bignum shown)

theorem decodeObject_elsewhere {c : Content} {pointer : UInt64} (fits : c.Fits)
    (object : i.target.HoldsObject word c.type slot) (outside : c.Elsewhere slot pointer)
    (live : pointer ≠ 0) (held : i.target.Holds pointer c.data) :
    Yields (i.decodeObject (.ofSlot word c.type slot)) trace (View.Presents i.limit.toNat c) := by
  cases c with
  | array ws =>
    exact yields_bind (decodeArray_elsewhere layouts constants trace fits object outside live held)
      fun v _ shown => yields_pure (.array shown)
  | record ws =>
    exact yields_bind (decodeRecord_elsewhere layouts constants trace fits.2 object outside held)
      fun v _ shown => yields_pure (.record shown)
  | string text =>
    exact yields_bind (decodeString_elsewhere layouts constants trace object outside live held)
      fun v _ shown => yields_pure (.string shown)
  | bignum negative ds =>
    exact yields_bind (decodeBignum_elsewhere layouts constants trace fits object outside live held)
      fun v _ shown => yields_pure (.bignum shown)

/-- An object with its content in its slot is shown with this content. -/
theorem interpret_inline {c : Content} (inline : c.Inline i.target word) :
    Yields (i.interpret word) trace (View.Presents i.limit.toNat c) := by
  obtain ⟨slot, object, inside⟩ := inline
  exact interpret_held layouts constants object fun later =>
    decodeObject_inSlot layouts constants later object inside

/-- So is an object with its content elsewhere. -/
theorem interpret_outOfLine {c : Content} (fits : c.Fits) (away : c.OutOfLine i.target word) :
    Yields (i.interpret word) trace (View.Presents i.limit.toNat c) := by
  obtain ⟨slot, pointer, object, outside, live, held⟩ := away
  exact interpret_held layouts constants object fun later =>
    decodeObject_elsewhere layouts constants later fits object outside live held

end

/-- Objects that hold the same content, one in its slot and one in a buffer elsewhere, are shown
alike: both views present the content, with the children, the number of entries left out and the
summary that it has. -/
theorem interpret_layouts_agree {t u : Target} (standard : t.layout = Registry.standard.lookup)
    (standard' : u.layout = Registry.standard.lookup) {c : Content} {word other : UInt64}
    (inline : c.Inline t word) (away : c.OutOfLine u other) (limit : UInt64)
    (before earlier : Trace) :
    ∃ v x, (Inspector.interpret ⟨t, .default, limit⟩ word before).1 = .ok v ∧
      (Inspector.interpret ⟨u, .default, limit⟩ other earlier).1 = .ok x ∧
      v.Presents limit.toNat c ∧ x.Presents limit.toNat c ∧
      v.children = c.children limit.toNat ∧ x.children = c.children limit.toNat ∧
      v.omitted = c.omitted limit.toNat ∧ x.omitted = c.omitted limit.toNat ∧
      v.summary = c.summary limit.toNat ∧ x.summary = c.summary limit.toNat := by
  have fits : c.Fits := by
    obtain ⟨slot, object, inside⟩ := inline
    exact inside.fits
  obtain ⟨v, after, run, shown⟩ := (interpret_inline (i := ⟨t, .default, limit⟩) standard rfl
    before inline).result
  obtain ⟨x, later, run', shown'⟩ := (interpret_outOfLine (i := ⟨u, .default, limit⟩) standard' rfl
    earlier fits away).result
  exact ⟨v, x, congrArg Prod.fst run, congrArg Prod.fst run', shown, shown', shown.children,
    shown'.children, shown.omitted, shown'.omitted, shown.summary, shown'.summary⟩

theorem interpret_layouts_agree_array : ∃ v x,
    (Inspector.interpret ⟨(Content.array [7, 9, 11]).target, .default, 2⟩ 4096 #[]).1 = .ok v ∧
    (Inspector.interpret ⟨(Content.array [7, 9, 11]).target, .default, 2⟩ 8192 #[]).1 = .ok x ∧
    v.children = [⟨"[0]", 7⟩, ⟨"[1]", 9⟩] ∧ x.children = [⟨"[0]", 7⟩, ⟨"[1]", 9⟩] ∧
    v.omitted = 1 ∧ x.omitted = 1 ∧ v.summary = "length=3" ∧ x.summary = "length=3" := by
  have fits : (Content.array [7, 9, 11]).Fits := Nat.le_of_ble_eq_true rfl
  obtain ⟨inline, away⟩ := Content.held_in_both_ways fits
  have standard := Content.target_layout (.array [7, 9, 11])
  obtain ⟨v, x, run, run', -, -, shown⟩ :=
    interpret_layouts_agree standard standard inline away 2 #[] #[]
  exact ⟨v, x, run, run', shown⟩

end Inspector
end HeapLens
