import HeapLens.Proofs.Text.Utf8
import HeapLens.Text.Escape
import Mathlib.Data.List.Forall2

/-!
What escaped bytes tell of the bytes behind them. Characters and bytes are written as units that are
found again whatever follows them, and a unit gives back the code that it was made from, but not
whether a character or a byte had this code. Main statement: two byte strings look the same only if
they are equal or one of them has a byte for each character of the text that the other one encodes.
-/
namespace HeapLens.Text

/-! Units. -/

/-- How many characters the unit at the front of escaped bytes has. -/
def unitLength : List Char → Nat
  | '\\' :: 'x' :: _ => 4
  | '\\' :: _ => 2
  | _ => 1

/-- The codes that are written as one character behind a backslash. -/
def namedCodes : List (Char × Nat) :=
  [('"', 0x22), ('\\', 0x5c), ('n', 0x0a), ('t', 0x09), ('r', 0x0d), ('0', 0), ('e', 0x1b)]

/-- The code that a unit was made from. -/
def unitCode : List Char → Option Nat
  | [] => none
  | [c] => some c.toNat
  | [_, c] => namedCodes.lookup c
  | _ :: _ :: digits => readDigits 16 0 digits

structure IsUnitOf (u : List Char) (code : Nat) : Prop where
  length : ∀ rest, unitLength (u ++ rest) = u.length
  code : unitCode u = some code

namespace IsUnitOf
variable {u v s t : List Char} {m n : Nat}

theorem ne_nil (unit : IsUnitOf u m) : u ≠ [] := by
  rintro rfl
  cases unit.code

theorem code_eq (left : IsUnitOf u m) (right : IsUnitOf u n) : m = n :=
  Option.some.inj (left.code.symm.trans right.code)

theorem append_prefix_append (left : IsUnitOf u m) (right : IsUnitOf v n)
    (front : u ++ s <+: v ++ t) : u = v ∧ s <+: t := by
  obtain ⟨rest, same⟩ := front
  rw [List.append_assoc] at same
  have lengths : u.length = v.length := by
    rw [← left.length (s ++ rest), ← right.length t, same]
  obtain ⟨rfl, rfl⟩ := List.append_inj same lengths
  exact ⟨rfl, List.prefix_append ..⟩

theorem append_eq_append (left : IsUnitOf u m) (right : IsUnitOf v n) (same : u ++ s = v ++ t) :
    u = v ∧ s = t :=
  List.append_inj same (by rw [← left.length s, ← right.length t, same])

end IsUnitOf

theorem hexUpper_byte :
    ∀ n < 256, (hexUpper n).length = 2 ∧ readDigits 16 0 (hexUpper n) = some n := by
  decide +kernel

theorem isUnitOf_hex {n : Nat} (small : n < 256) : IsUnitOf ('\\' :: 'x' :: hexUpper n) n := by
  obtain ⟨two, read⟩ := hexUpper_byte n small
  refine ⟨fun rest => congrArg (· + 2) two.symm, ?_⟩
  generalize hexUpper n = digits at two read
  cases digits with
  | nil => cases two
  | cons d ds => exact read

theorem isUnitOf_self {c : Char} (slash : c ≠ '\\') : IsUnitOf [c] c.toNat where
  length rest := by
    rw [List.singleton_append, unitLength.eq_3] <;> simp [slash]
  code := rfl

theorem isUnitOf_char (c : Char) : IsUnitOf (escapeChar c) c.toNat := by
  unfold escapeChar
  split
  · subst c; exact ⟨fun _ => rfl, rfl⟩
  split
  · subst c; exact ⟨fun _ => rfl, rfl⟩
  next slash =>
  split
  · subst c; exact ⟨fun _ => rfl, rfl⟩
  split
  · subst c; exact ⟨fun _ => rfl, rfl⟩
  split
  · subst c; exact ⟨fun _ => rfl, rfl⟩
  split
  · subst c; exact ⟨fun _ => rfl, rfl⟩
  split
  · subst c; exact ⟨fun _ => rfl, rfl⟩
  split
  · next control =>
    have small : c.toNat < 256 := by
      simp only [isControl, Bool.or_eq_true, Bool.and_eq_true, decide_eq_true_eq] at control
      omega
    exact isUnitOf_hex small
  · exact isUnitOf_self slash

theorem isUnitOf_byte (b : UInt8) : IsUnitOf (escapeByte b) b.toNat := by
  unfold escapeByte
  split
  · next small =>
    have low : b.toNat < 0x80 := small
    have unit := isUnitOf_char (Char.ofNat b.toNat)
    rwa [Utf8.toNat_ofNat_of_valid (by omega)] at unit
  · exact isUnitOf_hex b.toNat_lt

theorem escapeChar_inj {c d : Char} : escapeChar c = escapeChar d ↔ c = d :=
  ⟨fun same => Char.toNat_inj.mp ((isUnitOf_char c).code_eq (same ▸ isUnitOf_char d)),
    congrArg escapeChar⟩

theorem escapeByte_inj {a b : UInt8} : escapeByte a = escapeByte b ↔ a = b :=
  ⟨fun same => UInt8.toNat_inj.mp ((isUnitOf_byte a).code_eq (same ▸ isUnitOf_byte b)),
    congrArg escapeByte⟩

theorem escapeChar_of_large {c : Char} (large : 0x80 ≤ c.toNat) :
    escapeChar c = if isControl c then '\\' :: 'x' :: hexUpper c.toNat else [c] := by
  have other : ∀ d : Char, d.toNat < 0x80 → c ≠ d := by
    rintro d small rfl
    omega
  unfold escapeChar
  rw [if_neg (other _ (by decide)), if_neg (other _ (by decide)), if_neg (other _ (by decide)),
    if_neg (other _ (by decide)), if_neg (other _ (by decide)), if_neg (other _ (by decide)),
    if_neg (other _ (by decide))]

/-- The control characters behind the ASCII ones are written as a byte with their code is. -/
theorem escapeChar_eq_escapeByte_iff {c : Char} {b : UInt8} :
    escapeChar c = escapeByte b ↔ c.toNat = b.toNat ∧ c.toNat < 0xa0 := by
  constructor
  · intro same
    have code : c.toNat = b.toNat := (isUnitOf_char c).code_eq (same ▸ isUnitOf_byte b)
    refine ⟨code, ?_⟩
    by_contra! large
    have printed : isControl c = false := by simp [isControl]; omega
    have high : ¬ b < 0x80 := by
      simp only [UInt8.lt_iff_toNat_lt, UInt8.reduceToNat, ← code]
      omega
    rw [escapeChar_of_large (by omega), printed, escapeByte, if_neg high] at same
    cases same
  · rintro ⟨code, small⟩
    unfold escapeByte
    split
    · rw [← code, Char.ofNat_toNat]
    · next high =>
      simp only [UInt8.lt_iff_toNat_lt, UInt8.reduceToNat, ← code] at high
      have control : isControl c = true := by simp [isControl]; omega
      rw [escapeChar_of_large (by omega), if_pos control, code]

theorem flatMap_eq_iff {α β : Type} {f : α → List Char} {g : β → List Char} {m : α → Nat}
    {n : β → Nat} (left : ∀ a, IsUnitOf (f a) (m a)) (right : ∀ b, IsUnitOf (g b) (n b))
    {as : List α} {bs : List β} :
    as.flatMap f = bs.flatMap g ↔ List.Forall₂ (fun a b => f a = g b) as bs := by
  induction as generalizing bs with
  | nil =>
    cases bs with
    | nil => simp
    | cons b bs => simpa using fun empty => absurd empty (right b).ne_nil
  | cons a as ih =>
    cases bs with
    | nil => simpa using fun empty => absurd empty (left a).ne_nil
    | cons b bs =>
      rw [List.flatMap_cons, List.flatMap_cons, List.forall₂_cons, ← ih]
      exact ⟨fun same => (left a).append_eq_append (right b) same,
        fun ⟨first, rest⟩ => by rw [first, rest]⟩

/-! Byte strings. -/

theorem escape_text {text : List UInt8} {cs : List Char} (read : Utf8.decode text = some cs) :
    escape text = cs.flatMap escapeChar := by
  rw [escape, read]

theorem escape_bytes {row : List UInt8} (broken : Utf8.decode row = none) :
    escape row = row.flatMap escapeByte := by
  rw [escape, broken]

/-- No text, but a byte for each character of one, with the same code. Codes from 0xa0 on are left
out: those characters stand for themselves and the bytes do not. -/
def Respells (text row : List UInt8) : Prop :=
  Utf8.decode row = none ∧ ∃ cs, Utf8.decode text = some cs ∧
    List.Forall₂ (fun c b => c.toNat = b.toNat ∧ c.toNat < 0xa0) cs row

theorem escape_eq_escape_iff_respells {text row : List UInt8} {cs : List Char}
    (read : Utf8.decode text = some cs) (broken : Utf8.decode row = none) :
    escape text = escape row ↔ Respells text row := by
  rw [escape_text read, escape_bytes broken, flatMap_eq_iff isUnitOf_char isUnitOf_byte]
  simp only [escapeChar_eq_escapeByte_iff, Respells, broken, read, Option.some.injEq, true_and,
    exists_eq_left']

theorem not_respells_of_broken {text row : List UInt8} (broken : Utf8.decode text = none) :
    ¬ Respells text row := by
  rintro ⟨-, cs, read, -⟩
  rw [broken] at read
  cases read

theorem not_respells_of_text {text row : List UInt8} {cs : List Char}
    (read : Utf8.decode row = some cs) : ¬ Respells text row := by
  rintro ⟨broken, -⟩
  rw [broken] at read
  cases read

/-- Texts are told apart, and so are byte strings that are none. Only between the two kinds
something is lost. -/
theorem escape_eq_escape_iff (a b : List UInt8) :
    escape a = escape b ↔ a = b ∨ Respells a b ∨ Respells b a := by
  cases first : Utf8.decode a with
  | some cs =>
    cases second : Utf8.decode b with
    | some ds =>
      rw [escape_text first, escape_text second, flatMap_eq_iff isUnitOf_char isUnitOf_char]
      simp only [escapeChar_inj, List.forall₂_eq_eq_eq, not_respells_of_text first,
        not_respells_of_text second, or_false]
      exact ⟨fun same => Utf8.decode_inj first (same ▸ second),
        fun same => Option.some.inj (first.symm.trans (same ▸ second))⟩
    | none =>
      have differ : a ≠ b := by rintro rfl; rw [first] at second; cases second
      simp only [escape_eq_escape_iff_respells first second, differ, false_or,
        not_respells_of_text first, or_false]
  | none =>
    cases second : Utf8.decode b with
    | some ds =>
      have differ : a ≠ b := by rintro rfl; rw [first] at second; cases second
      rw [eq_comm, escape_eq_escape_iff_respells second first]
      simp only [differ, false_or, not_respells_of_broken first]
    | none =>
      rw [escape_bytes first, escape_bytes second, flatMap_eq_iff isUnitOf_byte isUnitOf_byte]
      simp only [escapeByte_inj, List.forall₂_eq_eq_eq, not_respells_of_broken first,
        not_respells_of_broken second, or_false]

/-! Fronts of a text. -/

theorem escape_prefix_of_text {front text : List UInt8} {cs : List Char}
    (read : Utf8.decode text = some cs) (kept : (Utf8.decode front).isSome)
    (begins : front <+: text) : escape front <+: escape text := by
  obtain ⟨ds, kept⟩ := Option.isSome_iff_exists.mp kept
  obtain ⟨rest, rfl⟩ := begins
  have whole := read
  rw [Utf8.eq_bytes_of_decode kept, Utf8.decode_bytes_append] at whole
  obtain ⟨es, -, rfl⟩ := Option.map_eq_some_iff.mp whole
  rw [escape_text kept, escape_text read, List.flatMap_append]
  exact List.prefix_append ..

/-- A front that is shown byte by byte, as the text itself is shown, has no byte of a longer
character. -/
theorem text_of_escape_prefix {front : List UInt8} {cs : List Char}
    (begins : front <+: Utf8.bytes cs)
    (shown : front.flatMap escapeByte <+: cs.flatMap escapeChar) :
    (Utf8.decode front).isSome := by
  -- A byte and a character that look the same are both below 0xa0, where no longer one begins.
  induction cs generalizing front with
  | nil => rw [List.prefix_nil.mp begins]; rfl
  | cons c cs ih =>
    cases front with
    | nil => rfl
    | cons b front =>
      rw [List.flatMap_cons, List.flatMap_cons] at shown
      obtain ⟨same, shown⟩ := (isUnitOf_byte b).append_prefix_append (isUnitOf_char c) shown
      obtain ⟨code, small⟩ := escapeChar_eq_escapeByte_iff.mp same.symm
      cases row : String.utf8EncodeChar c with
      | nil => exact absurd row (String.utf8EncodeChar_ne_nil)
      | cons a more =>
        rw [Utf8.bytes_cons, row, List.cons_append, List.cons_prefix_cons] at begins
        obtain ⟨rfl, begins⟩ := begins
        obtain ⟨ascii, rfl, -⟩ | ⟨high, -⟩ := Utf8.encode_head row
        · rw [Utf8.decode_ascii ascii, Option.isSome_map]
          exact ih begins shown
        · omega

/-- The front of a text is shown as the front of what the text is shown as exactly when it is a
text. -/
theorem escape_prefix_iff {front text : List UInt8} {cs : List Char}
    (read : Utf8.decode text = some cs) (begins : front <+: text) :
    escape front <+: escape text ↔ (Utf8.decode front).isSome := by
  refine ⟨fun shown => ?_, fun kept => escape_prefix_of_text read kept begins⟩
  cases kept : Utf8.decode front with
  | some ds => rfl
  | none =>
    rw [escape_bytes kept, escape_text read] at shown
    rw [Utf8.eq_bytes_of_decode read] at begins
    rw [← kept]
    exact text_of_escape_prefix begins shown

/-- The first bytes of a text are shown as the front of what all of it is shown as exactly when
they end between two characters. -/
theorem escape_take_prefix_iff (s : String) (count : Nat) :
    escape ((Utf8.encode s).take count) <+: escape (Utf8.encode s) ↔
      s.utf8ByteSize ≤ count ∨ ∃ t u, s = t ++ u ∧ t.utf8ByteSize = count := by
  rcases Nat.lt_or_ge count s.utf8ByteSize with more | all
  · rw [escape_prefix_iff (Utf8.decode_encode s) (List.take_prefix _ _),
      Utf8.decode_take_isSome_iff (Nat.le_of_lt more)]
    exact (or_iff_right (Nat.not_le.mpr more)).symm
  · rw [List.take_of_length_le (Nat.le_trans (Nat.le_of_eq (Utf8.length_encode s)) all)]
    exact iff_of_true (List.prefix_refl _) (.inl all)

end HeapLens.Text
