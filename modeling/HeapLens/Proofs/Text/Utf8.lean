import HeapLens.Text.Utf8
import Mathlib.Data.List.Basic

/-!
Byte strings that are text. Decoding looks at ranges of bytes, encoding at ranges of codes; for each
number of bytes the two are the same condition. Main statement: a byte string decodes to a text
exactly when it is the encoding of that text, so it is the encoding of no other one.
-/
namespace HeapLens.Text.Utf8

/-- The bytes of a text, character by character. -/
def bytes (cs : List Char) : List UInt8 := cs.flatMap String.utf8EncodeChar

@[simp] theorem bytes_nil : bytes [] = [] := rfl

@[simp] theorem bytes_cons (c : Char) (cs : List Char) :
    bytes (c :: cs) = String.utf8EncodeChar c ++ bytes cs := rfl

@[simp] theorem bytes_append (cs ds : List Char) : bytes (cs ++ ds) = bytes cs ++ bytes ds :=
  List.flatMap_append

theorem toNat_ofNat_of_valid {n : Nat} (valid : n.isValidChar) : (Char.ofNat n).toNat = n := by
  rw [Char.ofNat, dif_pos valid]
  rfl

theorem continuation_eq_some_iff {b : UInt8} {n : Nat} :
    continuation b = some n ↔ 0x80 ≤ b.toNat ∧ b.toNat ≤ 0xbf ∧ b.toNat % 64 = n := by
  simp only [continuation, UInt8.le_iff_toNat_le, UInt8.reduceToNat, Bool.and_eq_true,
    decide_eq_true_eq, Option.ite_none_right_eq_some, Option.some.injEq, and_assoc]

/-! The bytes of one character, by their number. -/

section
variable {a b c d : UInt8} {ch : Char}

theorem encode_eq_one_iff :
    String.utf8EncodeChar ch = [a] ↔ a.toNat < 0x80 ∧ ch.toNat = a.toNat := by
  have code : ch.val.toNat = ch.toNat := rfl
  have first := a.toNat_lt
  simp only [String.utf8EncodeChar, code]
  split
  · simp [← UInt8.toNat_inj]; omega
  split
  · simp; omega
  split
  · simp; omega
  · simp; omega

theorem encode_eq_two_iff :
    String.utf8EncodeChar ch = [a, b] ↔ 0xc2 ≤ a.toNat ∧ a.toNat ≤ 0xdf ∧
      0x80 ≤ b.toNat ∧ b.toNat ≤ 0xbf ∧ ch.toNat = a.toNat % 32 * 64 + b.toNat % 64 := by
  have code : ch.val.toNat = ch.toNat := rfl
  have first := a.toNat_lt
  have second := b.toNat_lt
  simp only [String.utf8EncodeChar, code]
  split
  · simp; omega
  split
  · simp [← UInt8.toNat_inj]; omega
  split
  · simp; omega
  · simp; omega

theorem encode_eq_three_iff :
    String.utf8EncodeChar ch = [a, b, c] ↔ 0xe0 ≤ a.toNat ∧ a.toNat ≤ 0xef ∧
      0x80 ≤ b.toNat ∧ b.toNat ≤ 0xbf ∧ 0x80 ≤ c.toNat ∧ c.toNat ≤ 0xbf ∧ 0x800 ≤ ch.toNat ∧
      ch.toNat = (a.toNat % 16 * 64 + b.toNat % 64) * 64 + c.toNat % 64 := by
  have code : ch.val.toNat = ch.toNat := rfl
  have first := a.toNat_lt
  have second := b.toNat_lt
  have third := c.toNat_lt
  simp only [String.utf8EncodeChar, code]
  split
  · simp; omega
  split
  · simp; omega
  split
  · simp [← UInt8.toNat_inj]; omega
  · simp; omega

theorem encode_eq_four_iff :
    String.utf8EncodeChar ch = [a, b, c, d] ↔ 0xf0 ≤ a.toNat ∧ a.toNat ≤ 0xf4 ∧
      0x80 ≤ b.toNat ∧ b.toNat ≤ 0xbf ∧ 0x80 ≤ c.toNat ∧ c.toNat ≤ 0xbf ∧
      0x80 ≤ d.toNat ∧ d.toNat ≤ 0xbf ∧ 0x10000 ≤ ch.toNat ∧
      ch.toNat = ((a.toNat % 8 * 64 + b.toNat % 64) * 64 + c.toNat % 64) * 64 + d.toNat % 64 := by
  have code : ch.val.toNat = ch.toNat := rfl
  have valid : ch.toNat < 0xd800 ∨ 0xdfff < ch.toNat ∧ ch.toNat < 0x110000 := ch.valid
  have first := a.toNat_lt
  have second := b.toNat_lt
  have third := c.toNat_lt
  have fourth := d.toNat_lt
  simp only [String.utf8EncodeChar, code]
  split
  · simp; omega
  split
  · simp; omega
  split
  · simp; omega
  · simp [← UInt8.toNat_inj]; omega

theorem twoBytes_eq_some_iff : twoBytes a b = some ch ↔ String.utf8EncodeChar ch = [a, b] := by
  rw [encode_eq_two_iff]
  constructor
  · intro found
    obtain ⟨x, read, found⟩ := Option.bind_eq_some_iff.mp found
    obtain ⟨low, high, rfl⟩ := continuation_eq_some_iff.mp read
    simp only [UInt8.le_iff_toNat_le, UInt8.reduceToNat, Bool.and_eq_true, decide_eq_true_eq,
      Option.ite_none_right_eq_some, Option.some.injEq] at found
    obtain ⟨lead, rfl⟩ := found
    rw [toNat_ofNat_of_valid (by omega)]
    omega
  · rintro ⟨least, most, low, high, code⟩
    unfold twoBytes
    rw [continuation_eq_some_iff.mpr ⟨low, high, rfl⟩]
    simp [UInt8.le_iff_toNat_le, least, most, ← code, Char.ofNat_toNat]

theorem threeBytes_eq_some_iff :
    threeBytes a b c = some ch ↔ String.utf8EncodeChar ch = [a, b, c] := by
  rw [encode_eq_three_iff]
  constructor
  · intro found
    obtain ⟨x, read, found⟩ := Option.bind_eq_some_iff.mp found
    obtain ⟨low, high, rfl⟩ := continuation_eq_some_iff.mp read
    obtain ⟨y, read, found⟩ := Option.bind_eq_some_iff.mp found
    obtain ⟨low', high', rfl⟩ := continuation_eq_some_iff.mp read
    simp only [UInt8.le_iff_toNat_le, UInt8.reduceToNat, Bool.and_eq_true, decide_eq_true_eq,
      Bool.or_eq_true, Option.ite_none_right_eq_some, Option.some.injEq] at found
    obtain ⟨lead, rfl⟩ := found
    rw [toNat_ofNat_of_valid (by omega)]
    omega
  · rintro ⟨least, most, low, high, low', high', long, code⟩
    have valid : ch.toNat < 0xd800 ∨ 0xdfff < ch.toNat ∧ ch.toNat < 0x110000 := ch.valid
    unfold threeBytes
    rw [continuation_eq_some_iff.mpr ⟨low, high, rfl⟩,
      continuation_eq_some_iff.mpr ⟨low', high', rfl⟩]
    simp [UInt8.le_iff_toNat_le, least, most, ← code, Char.ofNat_toNat]
    omega

theorem fourBytes_eq_some_iff :
    fourBytes a b c d = some ch ↔ String.utf8EncodeChar ch = [a, b, c, d] := by
  rw [encode_eq_four_iff]
  constructor
  · intro found
    obtain ⟨x, read, found⟩ := Option.bind_eq_some_iff.mp found
    obtain ⟨low, high, rfl⟩ := continuation_eq_some_iff.mp read
    obtain ⟨y, read, found⟩ := Option.bind_eq_some_iff.mp found
    obtain ⟨low', high', rfl⟩ := continuation_eq_some_iff.mp read
    obtain ⟨z, read, found⟩ := Option.bind_eq_some_iff.mp found
    obtain ⟨low'', high'', rfl⟩ := continuation_eq_some_iff.mp read
    simp only [UInt8.le_iff_toNat_le, UInt8.reduceToNat, Bool.and_eq_true, decide_eq_true_eq,
      Option.ite_none_right_eq_some, Option.some.injEq] at found
    obtain ⟨lead, rfl⟩ := found
    rw [toNat_ofNat_of_valid (by omega)]
    omega
  · rintro ⟨least, most, low, high, low', high', low'', high'', long, code⟩
    have valid : ch.toNat < 0xd800 ∨ 0xdfff < ch.toNat ∧ ch.toNat < 0x110000 := ch.valid
    unfold fourBytes
    rw [continuation_eq_some_iff.mpr ⟨low, high, rfl⟩,
      continuation_eq_some_iff.mpr ⟨low', high', rfl⟩,
      continuation_eq_some_iff.mpr ⟨low'', high'', rfl⟩]
    simp [UInt8.le_iff_toNat_le, least, most, ← code, Char.ofNat_toNat]
    omega

end

theorem decode_ascii {a : UInt8} (small : a < 0x80) (rest : List UInt8) :
    decode (a :: rest) = (decode rest).map (Char.ofNat a.toNat :: ·) := by
  rw [decode.eq_def]
  exact if_pos small

/-- The first byte of a character says how many more it has. -/
theorem decode_append (ch : Char) (rest : List UInt8) :
    decode (String.utf8EncodeChar ch ++ rest) = (decode rest).map (ch :: ·) := by
  have length := String.length_utf8EncodeChar ch
  have positive := Char.utf8Size_pos ch
  have most := Char.utf8Size_le_four ch
  generalize row : String.utf8EncodeChar ch = unit at length
  -- One case for each number of bytes, as `decode` tells them apart by the first.
  match unit with
  | [] => simp at length; omega
  | [a] =>
    obtain ⟨small, code⟩ := encode_eq_one_iff.mp row
    rw [List.singleton_append, decode_ascii small, ← code, Char.ofNat_toNat]
  | [a, b] =>
    obtain ⟨least, most, -⟩ := encode_eq_two_iff.mp row
    have large : ¬ a.toNat < 0x80 := by omega
    have lead : a.toNat < 0xe0 := by omega
    simp only [List.cons_append, List.nil_append, decode, UInt8.lt_iff_toNat_lt,
      UInt8.reduceToNat, large, lead, ↓reduceIte, twoBytes_eq_some_iff.mpr row,
      Option.bind_eq_bind, Option.bind_some]
    exact Option.map_eq_bind.symm
  | [a, b, c] =>
    obtain ⟨least, most, -⟩ := encode_eq_three_iff.mp row
    have large : ¬ a.toNat < 0x80 := by omega
    have larger : ¬ a.toNat < 0xe0 := by omega
    have lead : a.toNat < 0xf0 := by omega
    simp only [List.cons_append, List.nil_append, decode, UInt8.lt_iff_toNat_lt,
      UInt8.reduceToNat, large, larger, lead, ↓reduceIte, threeBytes_eq_some_iff.mpr row,
      Option.bind_eq_bind, Option.bind_some]
    exact Option.map_eq_bind.symm
  | [a, b, c, d] =>
    obtain ⟨least, most, -⟩ := encode_eq_four_iff.mp row
    have large : ¬ a.toNat < 0x80 := by omega
    have larger : ¬ a.toNat < 0xe0 := by omega
    have largest : ¬ a.toNat < 0xf0 := by omega
    simp only [List.cons_append, List.nil_append, decode, UInt8.lt_iff_toNat_lt,
      UInt8.reduceToNat, large, larger, largest, ↓reduceIte, fourBytes_eq_some_iff.mpr row,
      Option.bind_eq_bind, Option.bind_some]
    exact Option.map_eq_bind.symm
  | a :: b :: c :: d :: e :: rest => simp at length; omega

theorem decode_bytes (cs : List Char) : decode (bytes cs) = some cs := by
  induction cs with
  | nil => rfl
  | cons c cs ih => rw [bytes_cons, decode_append, ih, Option.map_some]

theorem of_cons_eq_some {first : Option Char} {more : Option (List Char)} {cs : List Char}
    (read : (do let ch ← first; let ds ← more; some (ch :: ds)) = some cs) :
    ∃ ch ds, first = some ch ∧ more = some ds ∧ cs = ch :: ds := by
  obtain ⟨ch, one, read⟩ := Option.bind_eq_some_iff.mp read
  obtain ⟨ds, later, same⟩ := Option.bind_eq_some_iff.mp read
  exact ⟨ch, ds, one, later, (Option.some.inj same).symm⟩

theorem eq_bytes_of_decode {text : List UInt8} {cs : List Char} (read : decode text = some cs) :
    text = bytes cs := by
  fun_induction decode text generalizing cs with
  | case1 => cases read; rfl
  | case2 a rest small ih =>
    obtain ⟨ds, later, rfl⟩ := Option.map_eq_some_iff.mp read
    have one : String.utf8EncodeChar (Char.ofNat a.toNat) = [a] := by
      have low : a.toNat < 0x80 := small
      exact encode_eq_one_iff.mpr ⟨low, toNat_ofNat_of_valid (by omega)⟩
    rw [bytes_cons, one, ← ih later, List.singleton_append]
  | case3 a _ _ b rest ih =>
    obtain ⟨ch, ds, two, later, rfl⟩ := of_cons_eq_some read
    rw [bytes_cons, twoBytes_eq_some_iff.mp two, ← ih later]
    rfl
  | case5 a _ _ _ b c rest ih =>
    obtain ⟨ch, ds, three, later, rfl⟩ := of_cons_eq_some read
    rw [bytes_cons, threeBytes_eq_some_iff.mp three, ← ih later]
    rfl
  | case7 a _ _ _ b c d rest ih =>
    obtain ⟨ch, ds, four, later, rfl⟩ := of_cons_eq_some read
    rw [bytes_cons, fourBytes_eq_some_iff.mp four, ← ih later]
    rfl
  | case4 | case6 | case8 => cases read

/-- The text that bytes decode to is the one that they encode. -/
theorem decode_eq_some_iff {text : List UInt8} {cs : List Char} :
    decode text = some cs ↔ text = bytes cs :=
  ⟨eq_bytes_of_decode, fun encoded => encoded ▸ decode_bytes cs⟩

theorem decode_inj {text text' : List UInt8} {cs : List Char} (read : decode text = some cs)
    (same : decode text' = some cs) : text = text' := by
  rw [eq_bytes_of_decode read, eq_bytes_of_decode same]

theorem decode_bytes_append (cs : List Char) (rest : List UInt8) :
    decode (bytes cs ++ rest) = (decode rest).map (cs ++ ·) := by
  induction cs with
  | nil => simp
  | cons c cs ih =>
    rw [bytes_cons, List.append_assoc, decode_append, ih, Option.map_map]
    rfl

/-- A character begins with a byte that is the whole of it, or with one that no other byte of a
character can be. -/
theorem encode_head {ch : Char} {a : UInt8} {rest : List UInt8}
    (row : String.utf8EncodeChar ch = a :: rest) :
    a.toNat < 0x80 ∧ rest = [] ∧ ch.toNat = a.toNat ∨ 0xc2 ≤ a.toNat ∧ 0x80 ≤ ch.toNat := by
  have length := String.length_utf8EncodeChar ch
  have most := Char.utf8Size_le_four ch
  rw [row] at length
  match rest with
  | [] =>
    obtain ⟨small, code⟩ := encode_eq_one_iff.mp row
    exact .inl ⟨small, rfl, code⟩
  | [b] =>
    have shape := encode_eq_two_iff.mp row
    omega
  | [b, c] =>
    have shape := encode_eq_three_iff.mp row
    omega
  | [b, c, d] =>
    have shape := encode_eq_four_iff.mp row
    omega
  | b :: c :: d :: e :: rest => simp at length; omega

/-! Strings. -/

theorem encode_eq_bytes (s : String) : encode s = bytes s.toList := by
  have made : s.toByteArray = s.toList.utf8Encode := by
    rw [← String.toByteArray_ofList, String.ofList_toList]
  rw [encode, String.toUTF8, made, List.utf8Encode, List.data_toByteArray]
  rfl

theorem length_encode (s : String) : (encode s).length = s.utf8ByteSize := rfl

theorem encode_append (s t : String) : encode (s ++ t) = encode s ++ encode t := by
  rw [encode_eq_bytes, encode_eq_bytes, encode_eq_bytes, String.toList_append, bytes_append]

theorem decode_encode (s : String) : decode (encode s) = some s.toList := by
  rw [encode_eq_bytes, decode_bytes]

/-- The front of a text is a text itself exactly when it is not cut inside a character. -/
theorem decode_take_isSome_iff {s : String} {count : Nat} (inside : count ≤ (encode s).length) :
    (decode ((encode s).take count)).isSome ↔ ∃ t u, s = t ++ u ∧ t.utf8ByteSize = count := by
  constructor
  · intro read
    obtain ⟨cs, read⟩ := Option.isSome_iff_exists.mp read
    have front := eq_bytes_of_decode read
    have whole := decode_encode s
    rw [← List.take_append_drop count (encode s), front, decode_bytes_append] at whole
    obtain ⟨ds, -, same⟩ := Option.map_eq_some_iff.mp whole
    refine ⟨.ofList cs, .ofList ds, ?_, ?_⟩
    · rw [← String.toList_inj, String.toList_append, String.toList_ofList, String.toList_ofList,
        same]
    · rw [← length_encode, encode_eq_bytes, String.toList_ofList, ← front,
        List.length_take_of_le inside]
  · rintro ⟨t, u, rfl, rfl⟩
    rw [encode_append, List.take_left' (length_encode t), decode_encode]
    rfl

end HeapLens.Text.Utf8
