import HeapLens.Proofs.Heap.Encodings
import HeapLens.Proofs.Snapshot.Target
import HeapLens.Proofs.Target.Members
import HeapLens.Proofs.View.Children
import HeapLens.Proofs.View.Effects
import HeapLens.Proofs.Word.Flonum
import Mathlib.Algebra.Group.Int.Defs

/-!
Classification with the default constants. The low bits of a word decide what it can be: odd words
are fixnums, words that are two modulo four are flonums, and of the words divisible by four those
divisible by eight are addresses, apart from zero, while the others are special words, symbols or
nothing at all. Main statement: these cases are apart and exhaust the words, only addresses are
read, and each immediate value stands in exactly one word.
-/
namespace HeapLens

namespace Immediate

/-! Which words pass which test. -/

theorem passes_fixnum_default (word : UInt64) :
    Test.fixnum.passes .default word = true ↔ word.toNat % 2 = 1 := by
  have low : (word &&& 1).toNat = word.toNat % 2 := toNat_and_low (n := 1) rfl word
  rw [Constants.passes_fixnum, show Constants.default.get .fixnumFlag = 1 from rfl, Ne,
    ← UInt64.toNat_inj, low]
  exact Nat.mod_two_ne_zero

theorem passes_flonum_default (word : UInt64) :
    Test.flonum.passes .default word = true ↔ word &&& 3 = 2 := by
  rw [Constants.passes_flonum]
  exact and_iff_right (by decide)

theorem passes_symbol_default (word : UInt64) :
    Test.symbol.passes .default word = true ↔ word.toNat % 256 = 12 := by
  have low : (word &&& 0xff).toNat = word.toNat % 256 := toNat_and_low (n := 8) rfl word
  rw [Constants.passes_symbol, ← UInt64.toNat_inj, low]
  rfl

/-- The words that encode nothing by themselves. -/
theorem ofWord?_default_eq_none_iff (word : UInt64) :
    ofWord? .default word = none ↔ word.toNat % 4 = 0 ∧ word.toNat % 256 ≠ 12 ∧
      word ≠ 0 ∧ word ≠ 4 ∧ word ≠ 0x14 ∧ word ≠ 0x24 := by
  have fixnum := passes_fixnum_default word
  have flonum := (passes_flonum_default word).trans (Flonum.tagged_iff word)
  have symbol := passes_symbol_default word
  have falseWord : Test.falseWord.passes .default word = true ↔ word = 0 := beq_iff_eq
  have nilWord : Test.nilWord.passes .default word = true ↔ word = 4 := beq_iff_eq
  have trueWord : Test.trueWord.passes .default word = true ↔ word = 0x14 := beq_iff_eq
  have undefWord : Test.undefWord.passes .default word = true ↔ word = 0x24 := beq_iff_eq
  rw [ofWord?_eq_none_iff]
  constructor
  · intro none
    have odd := mt fixnum.mpr (Bool.eq_false_iff.mp (none .fixnum))
    have tagged := mt flonum.mpr (Bool.eq_false_iff.mp (none .flonum))
    exact ⟨by omega, mt symbol.mpr (Bool.eq_false_iff.mp (none .symbol)),
      mt falseWord.mpr (Bool.eq_false_iff.mp (none .falseWord)),
      mt nilWord.mpr (Bool.eq_false_iff.mp (none .nilWord)),
      mt trueWord.mpr (Bool.eq_false_iff.mp (none .trueWord)),
      mt undefWord.mpr (Bool.eq_false_iff.mp (none .undefWord))⟩
  · rintro ⟨divisible, low, notFalse, notNil, notTrue, notUndef⟩ test
    apply Bool.eq_false_iff.mpr
    cases test with
    | falseWord => exact mt falseWord.mp notFalse
    | nilWord => exact mt nilWord.mp notNil
    | trueWord => exact mt trueWord.mp notTrue
    | undefWord => exact mt undefWord.mp notUndef
    | fixnum => exact mt fixnum.mp (by omega)
    | flonum => exact mt flonum.mp (by omega)
    | symbol => exact mt symbol.mp low

/-! Which word stands for which value. -/

theorem toInt_shiftRight_one (word : UInt64) :
    (word.toInt64 >>> 1).toInt = word.toInt64.toInt / 2 := by
  rw [← Int64.toInt_toBitVec, Int64.toBitVec_shiftRight, ← Int64.toInt_toBitVec]
  exact BitVec.toInt_sshiftRight.trans (Int.shiftRight_eq_div_pow _ _)

/-- The signed reading of a word has the parity of the word. -/
theorem toInt_mod_two (word : UInt64) : word.toInt64.toInt % 2 = word.toNat % 2 := by
  have signed : word.toInt64.toInt = word.toBitVec.toInt := rfl
  have plain : word.toBitVec.toNat = word.toNat := rfl
  have bound := word.toNat_lt
  rw [signed, BitVec.toInt_eq_toNat_cond, plain]
  split <;> omega

theorem ofWord?_fixnum_iff (word : UInt64) (value : Int64) :
    ofWord? .default word = some (.fixnum value) ↔ word.toInt64.toInt = 2 * value.toInt + 1 := by
  have parity := toInt_mod_two word
  have decoded : Test.fixnum.value .default word = .fixnum value ↔
      word.toInt64.toInt / 2 = value.toInt := by
    rw [← toInt_shiftRight_one, Int64.toInt_inj, Test.value, Immediate.fixnum.injEq]
  rw [Constants.exclusive_default.ofWord?_eq_some_iff, test, passes_fixnum_default, decoded]
  omega

theorem ofWord?_symbol_iff (word id : UInt64) :
    ofWord? .default word = some (.symbol id) ↔ word.toNat = id.toNat * 256 + 12 := by
  have shifted : (Constants.default.shiftRight word .specialShift).toNat = word.toNat / 256 := by
    rw [Constants.shiftRight, if_pos (by decide), UInt64.toNat_shiftRight,
      Nat.shiftRight_eq_div_pow]
    rfl
  have decoded : Test.symbol.value .default word = .symbol id ↔ word.toNat / 256 = id.toNat := by
    rw [← shifted, UInt64.toNat_inj, Test.value, Immediate.symbol.injEq]
  rw [Constants.exclusive_default.ofWord?_eq_some_iff, test, passes_symbol_default, decoded]
  omega

theorem ofWord?_flonum_iff (word bits : UInt64) :
    ofWord? .default word = some (.flonum ⟨bits⟩) ↔ Flonum.encode bits = some word := by
  have decoded : Test.flonum.value .default word = .flonum ⟨bits⟩ ↔ Flonum.decode word = bits := by
    simp [Test.value]
  rw [Constants.exclusive_default.ofWord?_eq_some_iff, test, passes_flonum_default, decoded,
    Flonum.encode_eq_some_iff]

theorem ofWord?_fixnum_ofInt_iff {n : Int} (low : -2 ^ 62 ≤ n) (high : n < 2 ^ 62) (word : UInt64) :
    ofWord? .default word = some (.fixnum (Int64.ofInt n)) ↔
      word = (Int64.ofInt (2 * n + 1)).toUInt64 := by
  have small : (Int64.ofInt n).toInt = n := Int64.toInt_ofInt_of_le (by omega) (by omega)
  have double : (Int64.ofInt (2 * n + 1)).toInt = 2 * n + 1 :=
    Int64.toInt_ofInt_of_le (by omega) (by omega)
  rw [ofWord?_fixnum_iff, small]
  constructor
  · intro decoded
    exact congrArg Int64.toUInt64 (Int64.toInt_inj.mp (decoded.trans double.symm))
  · rintro rfl
    exact double

theorem ofWord?_symbol_ofNat_iff {id : Nat} (small : id < 2 ^ 56) (word : UInt64) :
    ofWord? .default word = some (.symbol (UInt64.ofNat id)) ↔
      word = UInt64.ofNat (id * 256 + 12) := by
  have plain : (UInt64.ofNat id).toNat = id :=
    UInt64.toNat_ofNat'.trans (Nat.mod_eq_of_lt (by omega))
  have shifted : (UInt64.ofNat (id * 256 + 12)).toNat = id * 256 + 12 :=
    UInt64.toNat_ofNat'.trans (Nat.mod_eq_of_lt (by omega))
  rw [ofWord?_symbol_iff, plain, ← UInt64.toNat_inj, shifted]

theorem ofWord?_default_injective {word other : UInt64} {value : Immediate}
    (left : ofWord? .default word = some value) (right : ofWord? .default other = some value) :
    word = other := by
  have exclusive := Constants.exclusive_default
  cases value with
  | fixnum value =>
    have same := ((ofWord?_fixnum_iff word value).mp left).trans
      ((ofWord?_fixnum_iff other value).mp right).symm
    exact congrArg Int64.toUInt64 (Int64.toInt_inj.mp same)
  | flonum value =>
    exact Option.some.inj (((ofWord?_flonum_iff word value.bits).mp left).symm.trans
      ((ofWord?_flonum_iff other value.bits).mp right))
  | symbol id =>
    exact UInt64.toNat_inj.mp (((ofWord?_symbol_iff word id).mp left).trans
      ((ofWord?_symbol_iff other id).mp right).symm)
  | falseValue | nilValue | trueValue | undef =>
    have first := (exclusive.ofWord?_eq_some_iff.mp left).1
    have second := (exclusive.ofWord?_eq_some_iff.mp right).1
    exact (beq_iff_eq.mp first).trans (beq_iff_eq.mp second).symm

end Immediate

/-! What classification does with a word. -/

/-- The address of an object: tag bits that are clear, but not the word zero. -/
def Aligned (word : UInt64) : Prop := word ≠ 0 ∧ word &&& 7 = 0

/-- A word whose tag bits say that it is no address, but which encodes nothing by itself. -/
def Stray (word : UInt64) : Prop :=
  word.toNat % 8 = 4 ∧ word ≠ 4 ∧ word ≠ 0x14 ∧ word ≠ 0x24 ∧ word &&& 0xff ≠ 0x0c

instance (word : UInt64) : Decidable (Aligned word) := by unfold Aligned; infer_instance

instance (word : UInt64) : Decidable (Stray word) := by unfold Stray; infer_instance

theorem toNat_and_seven (word : UInt64) : (word &&& 7).toNat = word.toNat % 8 :=
  toNat_and_low (n := 3) rfl word

theorem Aligned.not_stray {word : UInt64} (aligned : Aligned word) : ¬ Stray word := by
  intro stray
  have clear := congrArg UInt64.toNat aligned.2
  rw [toNat_and_seven, stray.1] at clear
  cases clear

theorem ofWord?_none_iff_aligned_or_stray (word : UInt64) :
    Immediate.ofWord? .default word = none ↔ Aligned word ∨ Stray word := by
  have seven := toNat_and_seven word
  have low : (word &&& 0xff).toNat = word.toNat % 256 := toNat_and_low (n := 8) rfl word
  rw [Immediate.ofWord?_default_eq_none_iff, Aligned, Stray]
  simp only [Ne, ← UInt64.toNat_inj, seven, low]
  simp only [UInt64.toNat_zero, UInt64.reduceToNat]
  omega

section
variable {t : Target} {k : Constants} {word : UInt64} {value : Immediate} {trace : Trace}

theorem classify_immediate (encoded : Immediate.ofWord? k word = some value) :
    classify t k word trace = (.ok (.immediate word value), trace) := by
  unfold classify
  rw [encoded]
  rfl

theorem classify_stray (stray : Stray word) :
    classify t .default word trace = (.error (.unclassifiable word), trace) := by
  have tagged : word &&& Constants.default.get .immediateMask ≠ 0 := by
    intro clear
    refine Aligned.not_stray ⟨?_, clear⟩ stray
    rintro rfl
    cases stray.1
  unfold classify
  rw [(ofWord?_none_iff_aligned_or_stray word).mpr (.inr stray)]
  exact congrFun (if_pos tagged) trace

theorem classify_object (none : Immediate.ofWord? k word = none)
    (clear : word &&& k.get .immediateMask = 0) :
    classify t k word = (do return .heap (← classifyObject t k word)) := by
  unfold classify
  rw [none]
  exact if_neg (not_not.mpr clear)

theorem unsigned_scalar {l : Layout} (size : l.size = 8) (word : UInt64) :
    (Value.scalar l word).unsigned = word := by
  rw [Value.scalar, Value.unsigned, size]
  exact (congrArg Bytes.word (List.take_of_length_le (by simp [Bytes.ofWord]))).trans
    (Bytes.word_ofWord word)

/-- With the standard layouts an object is classified by one read, of its header. -/
theorem classifyObject_standard (layouts : t.layout = Registry.standard.lookup) :
    classifyObject t k word = (do
      let bytes ← t.read word 16
      let header ← Header.ofValue ⟨.basic, bytes, some word⟩
      return ⟨word, header, header.tag k, k.typeOf (header.tag k)⟩) := by
  have named : t.layout "VALUE" = .ok Layout.value := by rw [layouts]; rfl
  have pointer : t.layout "struct RBasic *" = .ok Layout.basic.pointerTo := by rw [layouts]; rfl
  have bits : (Value.scalar Layout.value word).castBits = word := unsigned_scalar rfl word
  have place : (Value.scalar Layout.basic.pointerTo word).unsigned = word :=
    unsigned_scalar rfl word
  have derefed : classifyObject t k word = (do
      let basic ← Value.fetch t.read .basic
        (Value.scalar Layout.basic.pointerTo (Value.scalar Layout.value word).castBits).unsigned
      let header ← Header.ofValue basic
      return ⟨word, header, header.tag k, k.typeOf (header.tag k)⟩) := by
    unfold classifyObject
    rw [named, pointer]
    rfl
  rw [derefed, bits, place, Value.fetch, bind_assoc]
  rfl

theorem classifyObject_reads (layouts : t.layout = Registry.standard.lookup) :
    (classifyObject t k word trace).2 = trace.push ⟨word, 16⟩ := by
  rw [classifyObject_standard layouts, Run.bind_apply, Target.read_apply]
  cases t.memory trace.size word 16 with
  | error range => rfl
  | ok bytes =>
    dsimp only [Except.mapError]
    rw [Run.bind_apply]
    cases Header.ofValue ⟨.basic, bytes, some word⟩ <;> rfl

theorem classify_readable (layouts : t.layout = Registry.standard.lookup)
    (none : Immediate.ofWord? k word = none) (clear : word &&& k.get .immediateMask = 0)
    {bytes : Bytes} (read : t.memory trace.size word 16 = .ok bytes) (long : 16 ≤ bytes.length) :
    classify t k word trace =
      (.ok (.heap ⟨word, ⟨word, bytes.wordAt 0, bytes.wordAt 8⟩, bytes.wordAt 0 &&& k.get .typeMask,
        k.typeOf (bytes.wordAt 0 &&& k.get .typeMask)⟩), trace.push ⟨word, 16⟩) := by
  have answer : t.read word 16 trace = (.ok bytes, trace.push ⟨word, 16⟩) := by
    rw [Target.read_apply, read]
    rfl
  have parsed : Header.ofValue ⟨.basic, bytes, some word⟩ =
      .ok ⟨word, bytes.wordAt 0, bytes.wordAt 8⟩ := Header.ofValue_front rfl rfl long
  rw [classify_object none clear, classifyObject_standard layouts, bind_assoc,
    Run.bind_at answer, parsed]
  rfl

theorem classify_aligned (layouts : t.layout = Registry.standard.lookup) (aligned : Aligned word) :
    (classify t .default word trace).2 = trace.push ⟨word, 16⟩ ∧
      ∀ bits, (classify t .default word trace).1 ≠ .error (.unclassifiable bits) := by
  have none := (ofWord?_none_iff_aligned_or_stray word).mpr (.inl aligned)
  have reads := @classifyObject_reads t .default word trace layouts
  have access : Run.Confined (classifyObject t .default word) (fun _ => True)
      fun e => ∃ cause, e = .access cause :=
    classifyObject_confined t lasting_true (fun cause _ => ⟨cause, rfl⟩) .default word
  rw [classify_object none aligned.2, Run.bind_apply]
  cases run : classifyObject t .default word trace with
  | mk outcome after =>
    rw [run] at reads
    cases outcome with
    | ok o => exact ⟨reads, fun bits => nofun⟩
    | error e =>
      obtain ⟨cause, rfl⟩ := access.error trace e trivial (by rw [run])
      exact ⟨reads, fun bits => nofun⟩

theorem classify_other (aligned : ¬ Aligned word) (stray : ¬ Stray word) :
    ∃ value, Immediate.ofWord? .default word = some value ∧
      classify t .default word trace = (.ok (.immediate word value), trace) := by
  cases encoded : Immediate.ofWord? .default word with
  | none =>
    rcases (ofWord?_none_iff_aligned_or_stray word).mp encoded with address | tagged
    · exact absurd address aligned
    · exact absurd tagged stray
  | some value => exact ⟨value, rfl, classify_immediate encoded⟩

theorem classify_reads_iff (layouts : t.layout = Registry.standard.lookup) :
    (classify t .default word trace).2 ≠ trace ↔ Aligned word := by
  constructor
  · intro grown
    by_contra other
    by_cases stray : Stray word
    · exact grown (congrArg Prod.snd (classify_stray stray))
    · obtain ⟨value, -, known⟩ := classify_other other stray
      exact grown (congrArg Prod.snd known)
  · intro aligned same
    rw [(classify_aligned layouts aligned).1] at same
    exact absurd (congrArg Array.size same) (by simp)

theorem classify_unclassifiable_iff (layouts : t.layout = Registry.standard.lookup) :
    (∃ bits, (classify t .default word trace).1 = .error (.unclassifiable bits)) ↔
      Stray word := by
  constructor
  · rintro ⟨bits, failed⟩
    by_contra other
    by_cases aligned : Aligned word
    · exact (classify_aligned layouts aligned).2 bits failed
    · obtain ⟨value, -, known⟩ := @classify_other t word trace aligned other
      rw [known] at failed
      cases failed
  · intro stray
    exact ⟨word, congrArg Prod.fst (classify_stray stray)⟩

/-- Words are addresses, strays or immediates, told apart without reading, and each immediate value
stands in one word. -/
theorem classify_partitions (layouts : t.layout = Registry.standard.lookup) :
    (∀ word trace, (classify t .default word trace).2 ≠ trace ↔ Aligned word) ∧
    (∀ word trace, (∃ bits, (classify t .default word trace).1 = .error (.unclassifiable bits)) ↔
      Stray word) ∧
    (∀ word trace, Stray word →
      classify t .default word trace = (.error (.unclassifiable word), trace)) ∧
    (∀ word trace, ¬ Aligned word → ¬ Stray word →
      ∃ value, Immediate.ofWord? .default word = some value ∧
        classify t .default word trace = (.ok (.immediate word value), trace)) ∧
    (∀ word other value, Immediate.ofWord? .default word = some value →
      Immediate.ofWord? .default other = some value → word = other) ∧
    (∀ n : Int, -2 ^ 62 ≤ n → n < 2 ^ 62 → ∀ word,
      Immediate.ofWord? .default word = some (.fixnum (Int64.ofInt n)) ↔
        word = (Int64.ofInt (2 * n + 1)).toUInt64) ∧
    (∀ id < 2 ^ 56, ∀ word,
      Immediate.ofWord? .default word = some (.symbol (UInt64.ofNat id)) ↔
        word = UInt64.ofNat (id * 256 + 12)) ∧
    (∀ bits word, Immediate.ofWord? .default word = some (.flonum ⟨bits⟩) ↔
      Flonum.encode bits = some word) := by
  refine ⟨?_, ?_, fun _ _ => classify_stray, ?_, ?_, ?_, ?_, ?_⟩
  · intro word trace
    exact classify_reads_iff layouts
  · intro word trace
    exact classify_unclassifiable_iff layouts
  · intro word trace
    exact classify_other
  · intro word other value
    exact Immediate.ofWord?_default_injective
  · intro n low high
    exact Immediate.ofWord?_fixnum_ofInt_iff low high
  · intro id small
    exact Immediate.ofWord?_symbol_ofNat_iff small
  · intro bits word
    exact Immediate.ofWord?_flonum_iff word bits

end

/-- The words 8 and 28, the least fixnum and the greatest symbol. -/
theorem pattern_partitions :
    (patternTarget [] .standard).layout = Registry.standard.lookup ∧
      (classify (patternTarget [] .standard) .default 8 #[]).2 ≠ #[] ∧
      classify (patternTarget [] .standard) .default 28 #[] = (.error (.unclassifiable 28), #[]) ∧
      Immediate.ofWord? .default 0x8000000000000001 = some (.fixnum (Int64.ofInt (-2 ^ 62))) ∧
      Immediate.ofWord? .default 0xffffffffffffff0c =
        some (.symbol (UInt64.ofNat (2 ^ 56 - 1))) := by
  have layouts := patternTarget_layout [] .standard
  obtain ⟨reads, -, strays, -, -, fixnums, symbols, -⟩ := classify_partitions layouts
  refine ⟨layouts, (reads 8 #[]).mpr (by decide), strays 28 #[] (by decide), ?_, ?_⟩
  · exact (fixnums _ (by decide) (by decide) _).mpr (by decide)
  · exact (symbols _ (by decide) _).mpr (by decide)

end HeapLens
