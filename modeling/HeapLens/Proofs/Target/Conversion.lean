import HeapLens.Proofs.Word.Digits
import HeapLens.Snapshot.Target
import Mathlib.Data.Int.ModEq

/-!
Casts between integer types of one to eight bytes. A value of such a type stands for a number; a
cast keeps the low bytes of its word, extended with the sign or with zeros, which is the number that
the new type can hold and that differs by a multiple of the type's modulus. Main statement: casts,
alone and in a row, convert numbers in this way, so a wide enough type keeps the number and a type
that is no narrower than the next one can be left out.
-/
namespace HeapLens

/-! Numbers of an integer type. -/

namespace Layout

/-- Integer types of one to eight bytes. -/
def IsWordInteger : Layout → Prop
  | .integer _ size _ => 1 ≤ size.toNat ∧ size.toNat ≤ 8
  | _ => False

instance (l : Layout) : Decidable l.IsWordInteger := by
  unfold IsWordInteger
  split <;> infer_instance

def bits (l : Layout) : Nat := 8 * l.size.toNat

def InRange (l : Layout) (z : Int) : Prop :=
  if l.isSigned then -2 ^ (l.bits - 1) ≤ z ∧ z < 2 ^ (l.bits - 1) else 0 ≤ z ∧ z < 2 ^ l.bits

instance (l : Layout) (z : Int) : Decidable (l.InRange z) := by
  unfold InRange
  infer_instance

/-- The number of the type's range that is congruent to a given one. -/
def convert (l : Layout) (z : Int) : Int :=
  if l.isSigned then z.bmod (2 ^ l.bits) else z % 2 ^ l.bits

theorem IsWordInteger.size {l : Layout} (integer : l.IsWordInteger) :
    1 ≤ l.size.toNat ∧ l.size.toNat ≤ 8 := by
  cases l with
  | integer name size signed => exact integer
  | float | pointer | record => exact integer.elim

theorem IsWordInteger.notRecord {l : Layout} (integer : l.IsWordInteger) : l.isRecord = false := by
  cases l with
  | integer name size signed => rfl
  | float | pointer | record => exact integer.elim

theorem convert_modEq (l : Layout) (z : Int) : l.convert z ≡ z [ZMOD 2 ^ l.bits] := by
  unfold convert
  split
  · exact_mod_cast Int.bmod_emod (x := z) (m := 2 ^ l.bits)
  · exact Int.mod_modEq z _

/-- Half of the modulus of a type that has at least one byte. -/
theorem two_pow_bits {l : Layout} (filled : 1 ≤ l.size.toNat) :
    (2 : Int) ^ l.bits = 2 * 2 ^ (l.bits - 1) := by
  rw [← pow_succ', Nat.sub_add_cancel]
  rw [bits]
  omega

theorem convert_inRange {l : Layout} (integer : l.IsWordInteger) (z : Int) :
    l.InRange (l.convert z) := by
  have half := two_pow_bits integer.size.1
  have positive : (0 : Int) < 2 ^ l.bits := Int.pow_pos (by decide)
  unfold InRange convert
  split
  · have low := Int.le_bmod (x := z) (Nat.two_pow_pos l.bits)
    have high := Int.bmod_lt (x := z) (Nat.two_pow_pos l.bits)
    push_cast at low high
    omega
  · exact ⟨Int.emod_nonneg z positive.ne', Int.emod_lt_of_pos z positive⟩

/-- A number that the type can hold is kept. -/
theorem convert_of_inRange {l : Layout} (integer : l.IsWordInteger) {z : Int}
    (inside : l.InRange z) : l.convert z = z := by
  have half := two_pow_bits integer.size.1
  unfold InRange at inside
  unfold convert
  split
  · next signed =>
    rw [if_pos signed] at inside
    apply Int.bmod_eq_of_le_mul_two
    · push_cast
      omega
    · push_cast
      omega
  · next unsigned =>
    rw [if_neg unsigned] at inside
    exact Int.emod_eq_of_lt inside.1 inside.2

theorem convert_congr {l : Layout} {y z : Int} (same : y ≡ z [ZMOD 2 ^ l.bits]) :
    l.convert y = l.convert z := by
  unfold convert
  split
  · have same : y % (2 ^ l.bits : Nat) = z % (2 ^ l.bits : Nat) := by exact_mod_cast same.eq
    rw [← Int.emod_bmod y, same, Int.emod_bmod]
  · exact same

/-- The number is determined by lying in the range and being congruent. -/
theorem eq_convert_iff {l : Layout} (integer : l.IsWordInteger) {y z : Int} :
    z = l.convert y ↔ l.InRange z ∧ z ≡ y [ZMOD 2 ^ l.bits] := by
  constructor
  · rintro rfl
    exact ⟨convert_inRange integer y, l.convert_modEq y⟩
  · rintro ⟨inside, same⟩
    rw [← convert_congr same, convert_of_inRange integer inside]

end Layout

/-! Bytes of a word. -/

theorem Bytes.take_ofNat (count more n : Nat) :
    (ofNat more n).take count = ofNat (min count more) n := by
  induction count generalizing more n with
  | zero => rw [Nat.zero_min, List.take_zero, ofNat]
  | succ count ih =>
    cases more with
    | zero => rfl
    | succ more => rw [ofNat, List.take_succ_cons, ih, Nat.add_min_add_right, ofNat]

theorem Bytes.ofNat_mod (count n : Nat) : ofNat count (n % capacity count) = ofNat count n := by
  induction count generalizing n with
  | zero => rfl
  | succ count ih =>
    have low : n % (256 * capacity count) % 256 = n % 256 := Nat.mod_mul_right_mod n 256 _
    rw [ofNat, ofNat, capacity, Nat.mod_mul_right_div_self, ih]
    congr 1
    apply UInt8.toNat_inj.mp
    rw [UInt8.toNat_ofNat', UInt8.toNat_ofNat']
    exact low

namespace Value

/-- The number that an integer value stands for. -/
def number (v : Value) : Int := if v.type.isSigned then v.signed.toInt else v.unsigned.toNat

/-- A value of an integer type that has exactly the bytes of its type. -/
structure IsInteger (v : Value) : Prop where
  type : v.type.IsWordInteger
  whole : v.bytes.length = v.type.size.toNat

theorem scalar_eq (l : Layout) (bits : UInt64) :
    scalar l bits = ⟨l, Bytes.ofNat (min l.size.toNat 8) bits.toNat, none⟩ := by
  rw [scalar, Bytes.ofWord, Bytes.take_ofNat]

theorem toNat_unsigned_scalar (l : Layout) (bits : UInt64) :
    (scalar l bits).unsigned.toNat = bits.toNat % 2 ^ (8 * min l.size.toNat 8) := by
  rw [scalar_eq, unsigned, Bytes.toNat_word, Bytes.take_ofNat,
    Nat.min_eq_right (Nat.min_le_right ..), Bytes.value_ofNat, Bytes.capacity_eq]

theorem unsigned_lt (v : Value) : v.unsigned.toNat < 2 ^ (8 * min v.bytes.length 8) := by
  have bound := Bytes.value_lt (v.bytes.take 8)
  rwa [List.length_take, Nat.min_comm, Bytes.capacity_eq, ← Bytes.toNat_word] at bound

theorem scalar_isInteger {l : Layout} (integer : l.IsWordInteger) (bits : UInt64) :
    (scalar l bits).IsInteger := by
  rw [scalar_eq, Nat.min_eq_left integer.size.2]
  exact ⟨integer, Bytes.length_ofNat _ _⟩

theorem toNat_shift {count : Nat} (positive : 0 < count) (few : count ≤ 8) :
    (UInt64.ofNat (64 - 8 * count)).toNat % 64 = 64 - 8 * count ∧
      ((UInt64.ofNat (64 - 8 * count)).toInt64.toBitVec.smod 64).toNat = 64 - 8 * count := by
  have all : ∀ count < 9, 0 < count →
      (UInt64.ofNat (64 - 8 * count)).toNat % 64 = 64 - 8 * count ∧
        ((UInt64.ofNat (64 - 8 * count)).toInt64.toBitVec.smod 64).toNat = 64 - 8 * count := by
    decide
  exact all count (Nat.lt_succ_of_le few) positive

/-- Shifting up and down again extends the sign. -/
theorem toInt_signed {v : Value} (filled : 0 < v.bytes.length) (few : v.bytes.length ≤ 8) :
    v.signed.toInt = Int.bmod v.unsigned.toNat (2 ^ (8 * v.bytes.length)) := by
  obtain ⟨up, down⟩ := toNat_shift filled few
  have scaled : 2 ^ 64 = 2 ^ (64 - 8 * v.bytes.length) * 2 ^ (8 * v.bytes.length) := by
    rw [← Nat.pow_add, Nat.sub_add_cancel (by omega)]
  have even : 2 ∣ 2 ^ (8 * v.bytes.length) := Dvd.dvd.pow (Nat.dvd_refl 2) (by omega)
  unfold signed
  dsimp only
  rw [Nat.min_eq_left few, if_neg (by omega), ← Int64.toInt_toBitVec, Int64.toBitVec_shiftRight,
    BitVec.sshiftRight', BitVec.toInt_sshiftRight, down, UInt64.toBitVec_toInt64,
    BitVec.toInt_eq_toNat_bmod, UInt64.toNat_toBitVec, UInt64.toNat_shiftLeft, up,
    Nat.shiftLeft_eq, Int.natCast_mod, Int.emod_bmod, scaled, Nat.mul_comm v.unsigned.toNat,
    Int.natCast_mul, Int.mod_bmod_mul_of_pos _ _ (Nat.two_pow_pos _) even,
    Int.shiftRight_eq_div_pow, Int.mul_ediv_cancel_left]
  exact Int.natCast_ne_zero.mpr (Nat.two_pow_pos _).ne'

theorem IsInteger.toInt_signed {v : Value} (integer : v.IsInteger) :
    v.signed.toInt = Int.bmod v.unsigned.toNat (2 ^ v.type.bits) := by
  have size := integer.type.size
  rw [Value.toInt_signed (by rw [integer.whole]; omega) (by rw [integer.whole]; omega),
    integer.whole, Layout.bits]

theorem IsInteger.unsigned_lt {v : Value} (integer : v.IsInteger) :
    v.unsigned.toNat < 2 ^ v.type.bits := by
  have bound := v.unsigned_lt
  rwa [integer.whole, Nat.min_eq_left integer.type.size.2] at bound

theorem IsInteger.number_eq {v : Value} (integer : v.IsInteger) :
    v.number = v.type.convert v.unsigned.toNat := by
  unfold number Layout.convert
  split
  · exact integer.toInt_signed
  · rw [Int.emod_eq_of_lt (Int.natCast_nonneg _) (by exact_mod_cast integer.unsigned_lt)]

/-- The bits that a cast starts from are those of the number. -/
theorem castBits_modEq (v : Value) : (v.castBits.toNat : Int) ≡ v.number [ZMOD 2 ^ 64] := by
  unfold castBits number
  split
  · have bits : v.signed.toUInt64.toNat = v.signed.toBitVec.toNat := rfl
    rw [bits, ← Int64.toInt_toBitVec, BitVec.toInt_eq_toNat_bmod]
    exact (Int.bmod_emod (m := 2 ^ 64)).symm
  · rfl

theorem number_scalar {l : Layout} (integer : l.IsWordInteger) (bits : UInt64) :
    (scalar l bits).number = l.convert bits.toNat := by
  rw [(scalar_isInteger integer bits).number_eq, toNat_unsigned_scalar,
    Nat.min_eq_left integer.size.2, Int.natCast_mod]
  apply Layout.convert_congr
  exact Int.mod_modEq _ _

theorem scalar_congr {l : Layout} (integer : l.IsWordInteger) {a b : UInt64}
    (same : (a.toNat : Int) ≡ b.toNat [ZMOD 2 ^ l.bits]) : scalar l a = scalar l b := by
  have same : a.toNat % 2 ^ l.bits = b.toNat % 2 ^ l.bits := by exact_mod_cast same.eq
  rw [scalar_eq, scalar_eq, Nat.min_eq_left integer.size.2, ← Bytes.ofNat_mod _ a.toNat,
    ← Bytes.ofNat_mod _ b.toNat, Bytes.capacity_eq, ← Layout.bits, same]

/-! Casts. -/

/-- What a cast to an integer type makes of a value. -/
def convert (v : Value) (l : Layout) : Value := scalar l v.castBits

/-- No memory is read, and nothing fails. -/
theorem cast_integer {m : Type → Type} [Monad m] [MonadLiftT (Except AccessError) m]
    (read : UInt64 → UInt64 → m Bytes) (v : Value) {l : Layout} (integer : l.IsWordInteger) :
    v.cast read l = pure (v.convert l) := by
  rw [cast, integer.notRecord, if_neg Bool.false_ne_true, convert]

theorem modEq_of_word {l : Layout} (integer : l.IsWordInteger) {y z : Int}
    (same : y ≡ z [ZMOD 2 ^ 64]) : y ≡ z [ZMOD 2 ^ l.bits] :=
  same.of_dvd (pow_dvd_pow 2 (Nat.mul_le_mul_left 8 integer.size.2))

theorem convert_isInteger (v : Value) {l : Layout} (integer : l.IsWordInteger) :
    (v.convert l).IsInteger :=
  scalar_isInteger integer _

theorem number_convert (v : Value) {l : Layout} (integer : l.IsWordInteger) :
    (v.convert l).number = l.convert v.number := by
  rw [convert, number_scalar integer]
  exact Layout.convert_congr (modEq_of_word integer v.castBits_modEq)

/-- A cast is made of the number alone, so a wider type in between leaves no trace. -/
theorem convert_convert (v : Value) {l wide : Layout} (integer : l.IsWordInteger)
    (between : wide.IsWordInteger) (wider : l.size ≤ wide.size) :
    (v.convert wide).convert l = v.convert l := by
  apply scalar_congr integer
  have less : l.bits ≤ wide.bits := Nat.mul_le_mul_left 8 (UInt64.le_iff_toNat_le.mp wider)
  calc ((v.convert wide).castBits.toNat : Int)
      ≡ (v.convert wide).number [ZMOD 2 ^ l.bits] := modEq_of_word integer (castBits_modEq _)
    _ = wide.convert v.number := number_convert v between
    _ ≡ v.number [ZMOD 2 ^ l.bits] := (wide.convert_modEq _).of_dvd (pow_dvd_pow 2 less)
    _ ≡ v.castBits.toNat [ZMOD 2 ^ l.bits] := (modEq_of_word integer v.castBits_modEq).symm

end Value

/-! Casts in a row. -/

namespace Expr

/-- An expression behind casts to the named types, the last of which is applied first. -/
def castsTo (types : List String) (e : Expr) : Expr := types.foldr .cast e

namespace Scope

/-- The names stand for these integer types. -/
def NamesIntegers (s : Scope) (casts : List (String × Layout)) : Prop :=
  ∀ c ∈ casts, s.layout c.1 = .ok c.2 ∧ c.2.IsWordInteger

/-- What casts to these types, the last of which comes first, make of a value. -/
def converted (v : Value) (types : List Layout) : Value := types.foldr (fun l w => w.convert l) v

theorem eval_cast {s : Scope} {e : Expr} {v : Value} {type : String} {l : Layout}
    (evaluated : s.eval e = .ok v) (named : s.layout type = .ok l) (integer : l.IsWordInteger) :
    s.eval (.cast type e) = .ok (v.convert l) := by
  rw [eval] at evaluated
  rw [eval, evalThen, evaluated]
  change (s.layout type >>= fun l => v.cast s.read l >>= .ok) = _
  rw [named]
  change (v.cast s.read l >>= .ok) = _
  rw [Value.cast_integer s.read v integer]
  rfl

theorem eval_castsTo {s : Scope} {e : Expr} {v : Value} (evaluated : s.eval e = .ok v)
    {casts : List (String × Layout)} (named : s.NamesIntegers casts) :
    s.eval (castsTo (casts.map Prod.fst) e) = .ok (converted v (casts.map Prod.snd)) := by
  induction casts with
  | nil => exact evaluated
  | cons c casts ih =>
    have earlier := ih fun c mem => named c (.tail _ mem)
    obtain ⟨known, integer⟩ := named c (.head _)
    exact eval_cast earlier known integer

theorem converted_isInteger {v : Value} (whole : v.IsInteger) {types : List Layout}
    (integers : ∀ l ∈ types, l.IsWordInteger) : (converted v types).IsInteger := by
  cases types with
  | nil => exact whole
  | cons l types => exact Value.convert_isInteger _ (integers l (.head _))

theorem number_converted (v : Value) {types : List Layout}
    (integers : ∀ l ∈ types, l.IsWordInteger) :
    (converted v types).number = types.foldr Layout.convert v.number := by
  induction types with
  | nil => rfl
  | cons l types ih =>
    have earlier := ih fun l mem => integers l (.tail _ mem)
    rw [List.foldr_cons, ← earlier]
    exact Value.number_convert _ (integers l (.head _))

theorem converted_through {v : Value} {l : Layout} (integer : l.IsWordInteger)
    {types : List Layout} (wide : ∀ k ∈ types, k.IsWordInteger ∧ l.size ≤ k.size) :
    (converted v types).convert l = v.convert l := by
  induction types with
  | nil => rfl
  | cons k types ih =>
    obtain ⟨between, wider⟩ := wide k (.head _)
    have earlier := ih fun k mem => wide k (.tail _ mem)
    exact (Value.convert_convert _ integer between wider).trans earlier

/-- A cast gives the one number of the new type's range that is congruent to the old number. Casts
in a row are these conversions one after the other, and those to types that are no narrower than the
last one make no difference. -/
theorem cast_converts (s : Scope) :
    (∀ (v : Value) (l : Layout), v.IsInteger → l.IsWordInteger → ∃ w : Value,
      (∀ (m : Type → Type) [Monad m] [MonadLiftT (Except AccessError) m]
        (read : UInt64 → UInt64 → m Bytes), v.cast read l = pure w) ∧
      w.type = l ∧ w.IsInteger ∧ w.number = l.convert v.number ∧
      (∀ z, z = l.convert v.number ↔ l.InRange z ∧ z ≡ v.number [ZMOD 2 ^ l.bits]) ∧
      (l.InRange v.number → w.number = v.number)) ∧
    ∀ (e : Expr) (v : Value), s.eval e = .ok v → v.IsInteger →
      (∀ casts, s.NamesIntegers casts → ∃ w,
        s.eval (castsTo (casts.map Prod.fst) e) = .ok w ∧ w.IsInteger ∧
        w.number = (casts.map Prod.snd).foldr Layout.convert v.number) ∧
      ∀ type l wide, s.NamesIntegers ((type, l) :: wide) → (∀ c ∈ wide, l.size ≤ c.2.size) →
        s.eval (castsTo (type :: wide.map Prod.fst) e) = s.eval (.cast type e) := by
  refine ⟨fun v l whole integer => ?_, fun e v evaluated whole => ⟨fun casts named => ?_, ?_⟩⟩
  · have number := Value.number_convert v integer
    refine ⟨v.convert l, fun m _ _ read => Value.cast_integer read v integer, rfl,
      Value.convert_isInteger v integer, number, fun z => Layout.eq_convert_iff integer, ?_⟩
    intro inside
    rw [number, Layout.convert_of_inRange integer inside]
  · have integers : ∀ l ∈ casts.map Prod.snd, l.IsWordInteger := by
      intro l mem
      obtain ⟨c, among, rfl⟩ := List.mem_map.mp mem
      exact (named c among).2
    exact ⟨_, eval_castsTo evaluated named, converted_isInteger whole integers,
      number_converted v integers⟩
  · intro type l wide named wider
    obtain ⟨known, integer⟩ := named (type, l) (.head _)
    have between : ∀ k ∈ wide.map Prod.snd, k.IsWordInteger ∧ l.size ≤ k.size := by
      intro k mem
      obtain ⟨c, among, rfl⟩ := List.mem_map.mp mem
      exact ⟨(named c (.tail _ among)).2, wider c among⟩
    have through := eval_castsTo evaluated fun c mem => named c (.tail _ mem)
    rw [castsTo, List.foldr_cons, ← castsTo, eval_cast through known integer,
      eval_cast evaluated known integer, converted_through integer between]

/-- The standard types, and neither symbols nor memory. -/
def bare : Scope := (⟨.empty, .empty⟩ : LoadedSnapshot).scope .standard

theorem bare_cast_converts :
    (∃ w, (Value.scalar .value 511).cast bare.read .char = .ok w ∧ w.number = -1) ∧
    (∃ w, (Value.scalar .value 511).cast bare.read .unsignedInt = .ok w ∧ w.number = 511) ∧
    (∃ w, bare.eval (castsTo ["long", "char", "unsigned int"] (.number 511)) = .ok w ∧
      w.number = -1) ∧
    bare.eval (castsTo ["char", "long", "unsigned int"] (.number 511)) =
      bare.eval (.cast "char" (.number 511)) := by
  have whole : (Value.scalar .value 511).IsInteger := ⟨by decide, rfl⟩
  have start : (Value.scalar .value 511).number = 511 := by decide
  have evaluated : bare.eval (.number 511) = .ok (.scalar .value 511) := rfl
  have long : bare.layout "long" = .ok .long ∧ Layout.long.IsWordInteger := ⟨rfl, by decide⟩
  have char : bare.layout "char" = .ok .char ∧ Layout.char.IsWordInteger := ⟨rfl, by decide⟩
  have int : bare.layout "unsigned int" = .ok .unsignedInt ∧ Layout.unsignedInt.IsWordInteger :=
    ⟨rfl, by decide⟩
  have up : bare.NamesIntegers
      [("long", .long), ("char", .char), ("unsigned int", .unsignedInt)] := by
    simp [NamesIntegers, long, char, int]
  have down : bare.NamesIntegers
      [("char", .char), ("long", .long), ("unsigned int", .unsignedInt)] := by
    simp [NamesIntegers, long, char, int]
  obtain ⟨single, row⟩ := cast_converts bare
  obtain ⟨narrow, cast, -, -, number, -⟩ := single _ .char whole char.2
  obtain ⟨wide, extended, -, -, -, -, kept⟩ := single _ .unsignedInt whole int.2
  obtain ⟨chains, through⟩ := row _ _ evaluated whole
  obtain ⟨last, run, -, result⟩ := chains _ up
  refine ⟨⟨narrow, cast _ _, ?_⟩, ⟨wide, extended _ _, ?_⟩, ⟨last, run, ?_⟩, ?_⟩
  · rw [number, start]
    decide
  · rw [kept (by rw [start]; decide), start]
  · rw [result, start]
    decide
  · exact through "char" .char [("long", .long), ("unsigned int", .unsignedInt)] down (by decide)

end Scope
end Expr
end HeapLens
