import HeapLens.Proofs.View.Held

/-!
What objects hold, wherever they hold it. Arrays, records, strings and integers keep their data in
their own slot or in a buffer elsewhere, and say which by flags and fields that differ from type to
type. A view that presents a content is determined by it as far as it is printed. Main statement:
whatever fits in a slot can be held in both ways.
-/
namespace HeapLens
open HeapLens.Text Run

inductive Content where
  | array (elements : List UInt64)
  | record (members : List UInt64)
  | string (text : Bytes)
  | bignum (negative : Bool) (digits : List UInt64)
  deriving DecidableEq, Repr

namespace Content

def type : Content → ValueType
  | .array _ => .array
  | .record _ => .record
  | .string _ => .string
  | .bignum _ _ => .bignum

/-- The number of words, bytes or digits. -/
def length : Content → Nat
  | .array ws | .record ws | .bignum _ ws => ws.length
  | .string text => text.length

def data : Content → Bytes
  | .array ws | .record ws | .bignum _ ws => Bytes.ofWords ws
  | .string text => text

/-- Content whose length fits the bits or the field that give it in a slot. -/
def Fits : Content → Prop
  | .array ws => ws.length ≤ 127
  | .record ws => 1 ≤ ws.length ∧ ws.length ≤ 127
  | .string text => text.length < 2 ^ 63
  | .bignum _ ds => ds.length ≤ 7

/-- The slot has the content behind its first fields. The number of words is in the flags, the
number of bytes in a field. -/
def InSlot (slot : Bytes) : Content → Prop
  | .array ws => slot.wordAt 0 &&& 0x2000 ≠ 0 ∧
      ((slot.wordAt 0 &&& 0x3f8000) >>> 15).toNat = ws.length ∧
      Bytes.ofWords ws <+: slot.drop 16
  | .record ws => ws ≠ [] ∧ ((slot.wordAt 0 &&& 0xfe000) >>> 13).toNat = ws.length ∧
      Bytes.ofWords ws <+: slot.drop 16
  | .string text => slot.wordAt 0 &&& 0x2000 = 0 ∧
      (slot.wordAt 16).toInt64.toInt = text.length ∧ text <+: slot.drop 24
  | .bignum negative ds => (slot.wordAt 0 &&& 0x2000 = 0 ↔ negative = true) ∧
      slot.wordAt 0 &&& 0x4000 ≠ 0 ∧ ((slot.wordAt 0 &&& 0x38000) >>> 15).toNat = ds.length ∧
      Bytes.ofWords ds <+: slot.drop 16

/-- The slot gives the length of the content and points to a buffer. -/
def Elsewhere (slot : Bytes) (pointer : UInt64) : Content → Prop
  | .array ws => slot.wordAt 0 &&& 0x2000 = 0 ∧
      (slot.wordAt 16).toInt64.toInt = ws.length ∧ slot.wordAt 32 = pointer
  | .record ws => (slot.wordAt 0 &&& 0xfe000) >>> 13 = 0 ∧
      (slot.wordAt 16).toInt64.toInt = ws.length ∧ slot.wordAt 24 = pointer
  | .string text => slot.wordAt 0 &&& 0x2000 ≠ 0 ∧
      (slot.wordAt 16).toInt64.toInt = text.length ∧ slot.wordAt 24 = pointer
  | .bignum negative ds => (slot.wordAt 0 &&& 0x2000 = 0 ↔ negative = true) ∧
      slot.wordAt 0 &&& 0x4000 = 0 ∧ (slot.wordAt 16).toNat = ds.length ∧
      slot.wordAt 24 = pointer

/-- A word refers to an object in memory with the content in its slot. -/
def Inline (c : Content) (t : Target) (word : UInt64) : Prop :=
  ∃ slot, t.HoldsObject word c.type slot ∧ c.InSlot slot

/-- A word refers to an object in memory with the content in a buffer elsewhere. -/
def OutOfLine (c : Content) (t : Target) (word : UInt64) : Prop :=
  ∃ slot pointer, t.HoldsObject word c.type slot ∧ c.Elsewhere slot pointer ∧ pointer ≠ 0 ∧
    t.Holds pointer c.data

/-! How content is shown. -/

/-- The first words, as many as the limit lets through, labelled by their positions. -/
def children (limit : Nat) : Content → List Child
  | .array ws | .record ws =>
    (ws.take limit).zipIdx.map fun e => ⟨"[" ++ toString e.2 ++ "]", e.1⟩
  | _ => []

def omitted (limit : Nat) : Content → Nat
  | .array ws | .record ws => ws.length - limit
  | _ => 0

def summary (limit : Nat) : Content → String
  | .array ws | .record ws => "length=" ++ toString ws.length
  | .string text => "\"" ++ escaped (text.take 256) ++ "\"" ++
      (if 256 < text.length then "... (" ++ toString text.length ++ " bytes)" else "")
  | .bignum negative ds => (if negative then "-" else "") ++
      (if ds.length ≤ limit then Magnitude.decimal ds
        else "(" ++ toString ds.length ++ " digits not read)")

end Content

structure SequenceView.Presents (limit : Nat) (ws : List UInt64) (v : SequenceView) : Prop where
  length : v.length.toNat = ws.length
  elements : v.elements = ws.take limit

structure StringView.Presents (text : Bytes) (v : StringView) : Prop where
  length : v.length.toNat = text.length
  bytes : v.bytes = text.take 256

structure BignumView.Presents (limit : Nat) (negative : Bool) (ds : List UInt64)
    (v : BignumView) : Prop where
  length : v.length.toNat = ds.length
  negative : v.negative = negative
  limbs : v.limbs = if ds.length ≤ limit then some ds else none

/-- The view has the content, cut to the limit. -/
inductive View.Presents (limit : Nat) : Content → View → Prop where
  | array {ws : List UInt64} {v : SequenceView} (shown : v.Presents limit ws) :
      View.Presents limit (.array ws) (.array v)
  | record {ws : List UInt64} {v : SequenceView} (shown : v.Presents limit ws) :
      View.Presents limit (.record ws) (.record v)
  | string {text : Bytes} {v : StringView} (shown : v.Presents text) :
      View.Presents limit (.string text) (.string v)
  | bignum {negative : Bool} {ds : List UInt64} {v : BignumView}
      (shown : v.Presents limit negative ds) :
      View.Presents limit (.bignum negative ds) (.bignum v)

section
variable {limit : Nat} {ws : List UInt64}

theorem SequenceView.Presents.children {v : SequenceView} (shown : v.Presents limit ws) :
    v.children = (ws.take limit).zipIdx.map fun e => ⟨"[" ++ toString e.2 ++ "]", e.1⟩ := by
  rw [SequenceView.children, shown.elements]
  rfl

theorem SequenceView.Presents.omitted {v : SequenceView} (shown : v.Presents limit ws) :
    v.omitted = ws.length - limit := by
  rw [SequenceView.omitted, shown.elements, shown.length, List.length_take]
  omega

theorem SequenceView.Presents.summary {v : SequenceView} (shown : v.Presents limit ws) :
    v.summary = "length=" ++ toString ws.length := by
  rw [SequenceView.summary, shown.length]

theorem StringView.Presents.summary {text : Bytes} {v : StringView} (shown : v.Presents text) :
    v.summary = "\"" ++ escaped (text.take 256) ++ "\"" ++
      (if 256 < text.length then "... (" ++ toString text.length ++ " bytes)" else "") := by
  have cut : v.isTruncated = decide (256 < text.length) := by
    rw [StringView.isTruncated, shown.bytes, shown.length, List.length_take]
    exact decide_eq_decide.mpr (by omega)
  rw [StringView.summary, cut, shown.bytes, shown.length]
  simp only [decide_eq_true_eq]

theorem BignumView.Presents.summary {negative : Bool} {v : BignumView}
    (shown : v.Presents limit negative ws) :
    v.summary = (if negative then "-" else "") ++
      (if ws.length ≤ limit then Magnitude.decimal ws
        else "(" ++ toString ws.length ++ " digits not read)") := by
  rw [BignumView.summary, shown.negative, shown.limbs, shown.length]
  by_cases few : ws.length ≤ limit
  · rw [if_pos few, if_pos few]
  · rw [if_neg few, if_neg few]

end

namespace View.Presents
variable {limit : Nat} {c : Content} {v : View}

theorem children (shown : v.Presents limit c) : v.children = c.children limit := by
  cases shown with
  | array shown => exact shown.children
  | record shown => exact shown.children
  | string _ | bignum _ => rfl

theorem omitted (shown : v.Presents limit c) : v.omitted = c.omitted limit := by
  cases shown with
  | array shown => exact shown.omitted
  | record shown => exact shown.omitted
  | string _ | bignum _ => rfl

theorem summary (shown : v.Presents limit c) : v.summary = c.summary limit := by
  cases shown with
  | array shown => exact shown.summary
  | record shown => exact shown.summary
  | string shown => exact shown.summary
  | bignum shown => exact shown.summary

end View.Presents

/-! Slots for every content. -/

/-- A field of flag bits is no larger than its mask. -/
theorem toNat_field_le (flags mask shift : UInt64) :
    ((flags &&& mask) >>> shift).toNat ≤ mask.toNat / 2 ^ (shift.toNat % 64) := by
  rw [UInt64.toNat_shiftRight, UInt64.toNat_and, Nat.shiftRight_eq_div_pow]
  exact Nat.div_le_div_right Nat.and_le_right

namespace Content

theorem InSlot.fits {slot : Bytes} {c : Content} (inside : c.InSlot slot) : c.Fits := by
  cases c with
  | array ws =>
    rw [Fits, ← inside.2.1]
    exact toNat_field_le _ _ _
  | record ws =>
    refine ⟨List.length_pos_iff.mpr inside.1, ?_⟩
    rw [← inside.2.1]
    exact toNat_field_le _ _ _
  | string text =>
    have signed := Int64.toInt_lt (slot.wordAt 16).toInt64
    rw [inside.2.1] at signed
    exact Int.ofNat_lt.mp signed
  | bignum negative ds =>
    rw [Fits, ← inside.2.2.1]
    exact toNat_field_le _ _ _

/-- A slot with the content in it, filled up to the smallest size. -/
def slotInside : Content → Bytes
  | .array ws => Bytes.ofWords [(0x2007 : UInt64) ||| UInt64.ofNat ws.length <<< 15, 0] ++
      (Bytes.ofWords ws ++ List.replicate 24 0)
  | .record ws => Bytes.ofWords [(9 : UInt64) ||| UInt64.ofNat ws.length <<< 13, 0] ++
      (Bytes.ofWords ws ++ List.replicate 24 0)
  | .string text => Bytes.ofWords [5, 0, UInt64.ofNat text.length] ++
      (text ++ List.replicate 16 0)
  | .bignum negative ds => Bytes.ofWords
      [(if negative then (0x400a : UInt64) else 0x600a) ||| UInt64.ofNat ds.length <<< 15, 0] ++
      (Bytes.ofWords ds ++ List.replicate 24 0)

/-- A slot that gives the length of the content and points to it. -/
def slotElsewhere (pointer : UInt64) : Content → Bytes
  | .array ws => Bytes.ofWords [7, 0, UInt64.ofNat ws.length, 0, pointer]
  | .record ws => Bytes.ofWords [9, 0, UInt64.ofNat ws.length, pointer, 0]
  | .string text => Bytes.ofWords [0x2005, 0, UInt64.ofNat text.length, pointer, 0]
  | .bignum negative ds => Bytes.ofWords
      [if negative then 10 else 0x200a, 0, UInt64.ofNat ds.length, pointer, 0]

theorem toInt_ofNat {n : Nat} (small : n < 2 ^ 63) : (UInt64.ofNat n).toInt64.toInt = n := by
  have plain : (UInt64.ofNat n).toNat = n := UInt64.toNat_ofNat_of_lt' (by rw [UInt64.size]; omega)
  have signed : (UInt64.ofNat n).toInt64.toInt = (UInt64.ofNat n).toBitVec.toInt := rfl
  have bits : (UInt64.ofNat n).toBitVec.toNat = (UInt64.ofNat n).toNat := rfl
  rw [signed, BitVec.toInt_eq_toNat_cond, bits, plain, if_pos (by omega)]

/-! The number of words among the flags. -/

theorem array_flags : ∀ n < 128,
    ((0x2007 : UInt64) ||| UInt64.ofNat n <<< 15) &&& 0x1f = 7 ∧
      ((0x2007 : UInt64) ||| UInt64.ofNat n <<< 15) &&& 0x2000 ≠ 0 ∧
      ((((0x2007 : UInt64) ||| UInt64.ofNat n <<< 15) &&& 0x3f8000) >>> 15).toNat = n := by
  decide

theorem record_flags : ∀ n < 128,
    ((9 : UInt64) ||| UInt64.ofNat n <<< 13) &&& 0x1f = 9 ∧
      ((((9 : UInt64) ||| UInt64.ofNat n <<< 13) &&& 0xfe000) >>> 13).toNat = n := by
  decide

theorem bignum_flags : ∀ negative, ∀ n < 8,
    let flags := (if negative then (0x400a : UInt64) else 0x600a) ||| UInt64.ofNat n <<< 15
    flags &&& 0x1f = 10 ∧ (flags &&& 0x2000 = 0 ↔ negative = true) ∧ flags &&& 0x4000 ≠ 0 ∧
      ((flags &&& 0x38000) >>> 15).toNat = n := by
  decide

theorem long_slotInside (c : Content) : 40 ≤ c.slotInside.length := by
  cases c <;> simp only [slotInside, List.length_append, List.length_replicate,
    Bytes.length_ofWords, List.length_cons, List.length_nil] <;> omega

theorem inSlot_slotInside {c : Content} (fits : c.Fits) :
    c.slotInside.wordAt 0 &&& 0x1f = c.type.defaultTag ∧ c.InSlot c.slotInside := by
  cases c with
  | array ws =>
    have first : Bytes.wordAt (slotInside (.array ws)) 0 = _ :=
      Bytes.wordAt_ofWords_append 0 rfl _
    have rest : (slotInside (.array ws)).drop 16 = Bytes.ofWords ws ++ List.replicate 24 0 := rfl
    obtain ⟨tag, embedded, length⟩ := array_flags ws.length (Nat.lt_succ_of_le fits)
    rw [InSlot, first, rest]
    exact ⟨tag, embedded, length, List.prefix_append _ _⟩
  | record ws =>
    have first : Bytes.wordAt (slotInside (.record ws)) 0 = _ :=
      Bytes.wordAt_ofWords_append 0 rfl _
    have rest : (slotInside (.record ws)).drop 16 = Bytes.ofWords ws ++ List.replicate 24 0 := rfl
    obtain ⟨tag, length⟩ := record_flags ws.length (Nat.lt_succ_of_le fits.2)
    rw [InSlot, first, rest]
    exact ⟨tag, List.length_pos_iff.mp fits.1, length, List.prefix_append _ _⟩
  | string text =>
    have first : Bytes.wordAt (slotInside (.string text)) 0 = 5 :=
      Bytes.wordAt_ofWords_append 0 rfl _
    have length : Bytes.wordAt (slotInside (.string text)) 16 = UInt64.ofNat text.length :=
      Bytes.wordAt_ofWords_append 2 rfl _
    have rest : (slotInside (.string text)).drop 24 = text ++ List.replicate 16 0 := rfl
    rw [InSlot, first, length, rest]
    exact ⟨rfl, rfl, toInt_ofNat fits, List.prefix_append _ _⟩
  | bignum negative ds =>
    have first : Bytes.wordAt (slotInside (.bignum negative ds)) 0 = _ :=
      Bytes.wordAt_ofWords_append 0 rfl _
    have rest : (slotInside (.bignum negative ds)).drop 16 =
        Bytes.ofWords ds ++ List.replicate 24 0 := rfl
    obtain ⟨tag, sign, embedded, length⟩ :=
      bignum_flags negative ds.length (Nat.lt_succ_of_le fits)
    rw [InSlot, first, rest]
    exact ⟨tag, sign, embedded, length, List.prefix_append _ _⟩

theorem elsewhere_slotElsewhere {c : Content} (fits : c.Fits) (pointer : UInt64) :
    (c.slotElsewhere pointer).wordAt 0 &&& 0x1f = c.type.defaultTag ∧
      c.Elsewhere (c.slotElsewhere pointer) pointer := by
  have small : c.length < 2 ^ 63 := by
    cases c with
    | array ws => exact Nat.lt_of_le_of_lt fits (by decide)
    | record ws => exact Nat.lt_of_le_of_lt fits.2 (by decide)
    | string text => exact fits
    | bignum negative ds => exact Nat.lt_of_le_of_lt fits (by decide)
  have length : (c.slotElsewhere pointer).wordAt 16 = UInt64.ofNat c.length := by
    cases c <;> exact Bytes.wordAt_ofWords 2 rfl
  cases c with
  | array ws =>
    have first : (slotElsewhere pointer (.array ws)).wordAt 0 = 7 := Bytes.wordAt_ofWords 0 rfl
    have last : (slotElsewhere pointer (.array ws)).wordAt 32 = pointer :=
      Bytes.wordAt_ofWords 4 rfl
    rw [Elsewhere, first, length]
    exact ⟨rfl, rfl, toInt_ofNat small, last⟩
  | record ws =>
    have first : (slotElsewhere pointer (.record ws)).wordAt 0 = 9 := Bytes.wordAt_ofWords 0 rfl
    have last : (slotElsewhere pointer (.record ws)).wordAt 24 = pointer :=
      Bytes.wordAt_ofWords 3 rfl
    rw [Elsewhere, first, length]
    exact ⟨rfl, rfl, toInt_ofNat small, last⟩
  | string text =>
    have first : (slotElsewhere pointer (.string text)).wordAt 0 = 0x2005 :=
      Bytes.wordAt_ofWords 0 rfl
    have last : (slotElsewhere pointer (.string text)).wordAt 24 = pointer :=
      Bytes.wordAt_ofWords 3 rfl
    rw [Elsewhere, first, length]
    exact ⟨rfl, by decide, toInt_ofNat small, last⟩
  | bignum negative ds =>
    have first : (slotElsewhere pointer (.bignum negative ds)).wordAt 0 =
        if negative then 10 else 0x200a := Bytes.wordAt_ofWords 0 rfl
    have last : (slotElsewhere pointer (.bignum negative ds)).wordAt 24 = pointer :=
      Bytes.wordAt_ofWords 3 rfl
    have plain : (UInt64.ofNat ds.length).toNat = ds.length :=
      UInt64.toNat_ofNat_of_lt' (Nat.lt_trans small (by decide))
    rw [Elsewhere, first, length]
    cases negative with
    | false => exact ⟨rfl, by decide, rfl, plain, last⟩
    | true => exact ⟨rfl, by decide, rfl, plain, last⟩

theorem long_slotElsewhere (pointer : UInt64) (c : Content) :
    40 ≤ (c.slotElsewhere pointer).length := by
  cases c <;> rw [slotElsewhere, Bytes.length_ofWords] <;> exact Nat.le_refl 40

/-- Memory with the content in three places: an object that has it inside, one that points to it,
and the buffer that this one points to. -/
def memory (c : Content) (address size : UInt64) : Except Unreadable Bytes :=
  let bytes := if address = 4096 then c.slotInside
    else if address = 8192 then c.slotElsewhere 12288 else c.data
  if size.toNat ≤ bytes.length then .ok (bytes.take size.toNat) else .error ⟨address, size⟩

def target (c : Content) : Target :=
  { patternTarget [] .standard with memory := fun _ => c.memory }

theorem target_layout (c : Content) : c.target.layout = Registry.standard.lookup := rfl

theorem target_holds (c : Content) : c.target.Holds 4096 c.slotInside ∧
    c.target.Holds 8192 (c.slotElsewhere 12288) ∧ c.target.Holds 12288 c.data :=
  ⟨fun _ _ short => if_pos short, fun _ _ short => if_pos short, fun _ _ short => if_pos short⟩

/-- Content that fits can be held in both ways. -/
theorem held_in_both_ways {c : Content} (fits : c.Fits) :
    c.Inline c.target 4096 ∧ c.OutOfLine c.target 8192 := by
  obtain ⟨inside, outside, buffer⟩ := c.target_holds
  obtain ⟨tagged, placed⟩ := inSlot_slotInside fits
  obtain ⟨tagged', pointed⟩ := elsewhere_slotElsewhere fits 12288
  have inline : c.Inline c.target 4096 :=
    ⟨c.slotInside, ⟨by decide, inside, long_slotInside c, tagged⟩, placed⟩
  have outOfLine : c.OutOfLine c.target 8192 := ⟨c.slotElsewhere 12288, 12288,
    ⟨by decide, outside, long_slotElsewhere 12288 c, tagged'⟩, pointed, by decide, buffer⟩
  exact ⟨inline, outOfLine⟩

end Content
end HeapLens
