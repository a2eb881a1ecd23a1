import HeapLens.Heap.Immediate
import HeapLens.Proofs.Word.Bits
import Mathlib.Data.List.Nodup

/-!
The tests that tell the immediate encodings apart. A table that passes its check keeps the special
words clear of every other test, but of the tagged encodings it compares the flags alone: a bit of
the fixnum flag outside the flonum mask, or above the low byte, can stand in a word beside the tag
of another encoding. Main statement: for a table that passed, no word passes two tests, and the
order of the tests does not matter, exactly when the masks are apart as well.
-/
namespace HeapLens

namespace Immediate

/-- A test on a word, named for what a word that passes stands for. -/
inductive Test where
  | falseWord | nilWord | trueWord | undefWord | fixnum | flonum | symbol
  deriving DecidableEq, Repr

namespace Test

/-- The tests in the order in which a word is put to them. -/
def all : List Test := [.falseWord, .nilWord, .trueWord, .undefWord, .fixnum, .flonum, .symbol]

theorem mem_all (t : Test) : t ∈ all := by cases t <;> decide

def passes (k : Constants) (word : UInt64) : Test → Bool
  | .falseWord => word == k.get .falseWord
  | .nilWord => word == k.get .nilWord
  | .trueWord => word == k.get .trueWord
  | .undefWord => word == k.get .undefWord
  | .fixnum => word &&& k.get .fixnumFlag != 0
  | .flonum => k.get .flonumMask != 0 && word &&& k.get .flonumMask == k.get .flonumFlag
  | .symbol => word &&& 0xff == k.get .symbolFlag

def value (k : Constants) (word : UInt64) : Test → Immediate
  | .falseWord => .falseValue
  | .nilWord => .nilValue
  | .trueWord => .trueValue
  | .undefWord => .undef
  | .fixnum => .fixnum (word.toInt64 >>> 1)
  | .flonum => .flonum ⟨Flonum.decode word⟩
  | .symbol => .symbol (k.shiftRight word .specialShift)

/-- The special word that a test compares with. -/
def special? : Test → Option Constant
  | .falseWord => some .falseWord
  | .nilWord => some .nilWord
  | .trueWord => some .trueWord
  | .undefWord => some .undefWord
  | _ => none

theorem passes_special {k : Constants} {word : UInt64} {test : Test} {c : Constant}
    (special : test.special? = some c) :
    c ∈ Constants.specials ∧ (test.passes k word = true ↔ word = k.get c) := by
  cases test <;> cases special <;> simp [Constants.specials, passes]

theorem eq_of_special_eq {a b : Test} {c : Constant} (left : a.special? = some c)
    (right : b.special? = some c) : a = b := by
  cases a <;> cases left <;> cases b <;> first | rfl | cases right

theorem mem_tagged {test : Test} (tagged : test.special? = none) :
    test ∈ [Test.fixnum, .flonum, .symbol] := by
  cases test <;> cases tagged <;> decide

end Test

/-- The test that a value comes from. -/
def test : Immediate → Test
  | .falseValue => .falseWord
  | .nilValue => .nilWord
  | .trueValue => .trueWord
  | .undef => .undefWord
  | .fixnum _ => .fixnum
  | .flonum _ => .flonum
  | .symbol _ => .symbol

theorem test_value (k : Constants) (word : UInt64) (t : Test) : (t.value k word).test = t := by
  cases t <;> rfl

/-- What a word encodes when it is put to the tests in the given order. -/
def ofWordIn? (order : List Test) (k : Constants) (word : UInt64) : Option Immediate :=
  (order.find? (Test.passes k word)).map (Test.value k word)

theorem ofWordIn?_cons (test : Test) (order : List Test) (k : Constants) (word : UInt64) :
    ofWordIn? (test :: order) k word =
      if test.passes k word then some (test.value k word) else ofWordIn? order k word := by
  unfold ofWordIn?
  rw [List.find?_cons]
  cases test.passes k word <;> rfl

theorem ofWordIn?_all (k : Constants) (word : UInt64) :
    ofWordIn? Test.all k word = ofWord? k word := by
  simp only [Test.all, ofWordIn?_cons, Test.passes, beq_iff_eq, bne_iff_ne, Bool.and_eq_true]
  rfl

/-- No word passes two tests. -/
def Exclusive (k : Constants) : Prop :=
  ∀ word (a b : Test), a.passes k word = true → b.passes k word = true → a = b

theorem Exclusive.find? {k : Constants} (exclusive : Exclusive k) {order : List Test}
    (complete : ∀ test, test ∈ order) {word : UInt64} {test : Test}
    (passed : test.passes k word = true) : order.find? (Test.passes k word) = some test := by
  cases found : order.find? (Test.passes k word) with
  | none => exact absurd passed (List.find?_eq_none.mp found test (complete test))
  | some first => rw [exclusive word first test (List.find?_some found) passed]

theorem Exclusive.ofWordIn? {k : Constants} (exclusive : Exclusive k) {order : List Test}
    (complete : ∀ test, test ∈ order) (word : UInt64) :
    Immediate.ofWordIn? order k word = ofWord? k word := by
  rw [← ofWordIn?_all, Immediate.ofWordIn?, Immediate.ofWordIn?]
  cases found : Test.all.find? (Test.passes k word) with
  | some test => rw [exclusive.find? complete (List.find?_some found)]
  | none =>
    rw [List.find?_eq_none.mpr fun test _ => List.find?_eq_none.mp found test (Test.mem_all test)]

theorem ofWord?_eq_none_iff {k : Constants} {word : UInt64} :
    ofWord? k word = none ↔ ∀ test : Test, test.passes k word = false := by
  rw [← ofWordIn?_all, Immediate.ofWordIn?, Option.map_eq_none_iff, List.find?_eq_none]
  constructor
  · intro none test
    exact Bool.eq_false_iff.mpr (none test (Test.mem_all test))
  · intro none test _
    exact Bool.eq_false_iff.mp (none test)

theorem Exclusive.ofWord?_eq_some_iff {k : Constants} (exclusive : Exclusive k) {word : UInt64}
    {value : Immediate} : ofWord? k word = some value ↔
      value.test.passes k word = true ∧ value.test.value k word = value := by
  rw [← ofWordIn?_all, Immediate.ofWordIn?, Option.map_eq_some_iff]
  constructor
  · rintro ⟨test, found, rfl⟩
    rw [test_value]
    exact ⟨List.find?_some found, rfl⟩
  · rintro ⟨passed, equal⟩
    exact ⟨value.test, exclusive.find? Test.mem_all passed, equal⟩

/-- Overlapping tests give different answers when they change places. -/
theorem exclusive_iff_order (k : Constants) :
    Exclusive k ↔ ∀ order : List Test, order.Perm Test.all →
      ∀ word, Immediate.ofWordIn? order k word = ofWord? k word := by
  constructor
  · intro exclusive order perm word
    exact exclusive.ofWordIn? (fun test => perm.mem_iff.mpr (Test.mem_all test)) word
  · intro same word a b passedA passedB
    have first : ∀ test : Test, test.passes k word = true →
        ofWord? k word = some (test.value k word) := by
      intro test passed
      rw [← same (test :: Test.all.erase test) (List.perm_cons_erase (Test.mem_all test)).symm,
        ofWordIn?_cons, if_pos passed]
    have same := Option.some.inj ((first a passedA).symm.trans (first b passedB))
    rw [← test_value k word a, same, test_value]

end Immediate

namespace Constants
open Immediate

/-- A word without the tag of any encoding. -/
def Untagged (k : Constants) (word : UInt64) : Prop :=
  ∀ test ∈ [Test.fixnum, .flonum, .symbol], test.passes k word = false

theorem specials_of_no_problems {k : Constants} {cs : List Constant}
    (none : k.specialProblems cs = []) :
    (cs.map k.get).Nodup ∧ ∀ c ∈ cs, k.Untagged (k.get c) := by
  induction cs with
  | nil => simp
  | cons a rest ih =>
    simp only [specialProblems, List.append_eq_nil_iff, List.map_eq_nil_iff,
      List.filter_eq_nil_iff] at none
    obtain ⟨⟨⟨⟨differ, fixnum⟩, flonum⟩, symbol⟩, later⟩ := none
    obtain ⟨distinct, untagged⟩ := ih later
    constructor
    · rw [List.map_cons, List.nodup_cons]
      refine ⟨fun again => ?_, distinct⟩
      obtain ⟨b, member, same⟩ := List.mem_map.mp again
      exact differ b member (beq_iff_eq.mpr same)
    · intro c member
      rcases List.mem_cons.mp member with rfl | member
      · simp_all [Untagged, Test.passes]
      · exact untagged c member

/-- What a table that passed the check is known to satisfy. -/
structure Checked (k : Constants) : Prop where
  distinct : (specials.map k.get).Nodup
  untagged : ∀ c ∈ specials, k.Untagged (k.get c)
  flonumFixnum : k.get .flonumMask ≠ 0 → k.get .flonumFlag &&& k.get .fixnumFlag = 0
  symbolFixnum : k.get .symbolFlag &&& k.get .fixnumFlag = 0

theorem checked_of_validate {k : Constants} (valid : k.validate = .ok ()) : k.Checked := by
  have none : k.problems = [] := by
    unfold validate at valid
    split at valid
    · cases valid
    · split at valid
      · next empty => exact List.isEmpty_iff.mp empty
      · cases valid
  simp only [problems, List.append_eq_nil_iff] at none
  obtain ⟨⟨⟨⟨special, -⟩, flonum⟩, symbol⟩, -⟩ := none
  obtain ⟨distinct, untagged⟩ := specials_of_no_problems special
  exact ⟨distinct, untagged, by simp_all, by simp_all⟩

/-- A special word passes its own test and no other. -/
theorem Checked.special_alone {k : Constants} (checked : k.Checked) {word : UInt64} {a b : Test}
    {c : Constant} (special : a.special? = some c) (passedA : a.passes k word = true)
    (passedB : b.passes k word = true) : a = b := by
  obtain ⟨member, equal⟩ := @Test.passes_special k word _ _ special
  rw [equal] at passedA
  subst passedA
  cases other : b.special? with
  | none =>
    rw [checked.untagged c member b (Test.mem_tagged other)] at passedB
    cases passedB
  | some d =>
    obtain ⟨member', equal'⟩ := @Test.passes_special k (k.get c) _ _ other
    have same : c = d :=
      List.inj_on_of_nodup_map checked.distinct member member' (equal'.mp passedB)
    exact Test.eq_of_special_eq special (same ▸ other)

theorem passes_fixnum {k : Constants} {word : UInt64} :
    Test.fixnum.passes k word = true ↔ word &&& k.get .fixnumFlag ≠ 0 := by
  simp [Test.passes]

theorem passes_flonum {k : Constants} {word : UInt64} :
    Test.flonum.passes k word = true ↔
      k.get .flonumMask ≠ 0 ∧ word &&& k.get .flonumMask = k.get .flonumFlag := by
  simp [Test.passes]

theorem passes_symbol {k : Constants} {word : UInt64} :
    Test.symbol.passes k word = true ↔ word &&& 0xff = k.get .symbolFlag := by
  simp [Test.passes]

/-- The masks leave no word in which two of the tagged encodings meet. A flag outside its own mask
makes an encoding that no word carries. -/
structure Separate (k : Constants) : Prop where
  fixnumFlonum : k.get .flonumMask ≠ 0 → Within (k.get .flonumMask) (k.get .flonumFlag) →
    Within (k.get .flonumMask) (k.get .fixnumFlag)
  fixnumSymbol : Within 0xff (k.get .symbolFlag) → Within 0xff (k.get .fixnumFlag)
  flonumSymbol : k.get .flonumMask ≠ 0 → Within (k.get .flonumMask) (k.get .flonumFlag) →
    Within 0xff (k.get .symbolFlag) →
      k.get .flonumFlag &&& 0xff ≠ k.get .symbolFlag &&& k.get .flonumMask

theorem Checked.separate {k : Constants} (checked : k.Checked) (exclusive : Exclusive k) :
    k.Separate where
  fixnumFlonum some inside := by
    by_contra free
    obtain ⟨w, flonum, fixnum⟩ :=
      (exists_masked_flagged (checked.flonumFixnum some)).mpr ⟨inside, free⟩
    cases exclusive w _ _ (passes_fixnum.mpr fixnum) (passes_flonum.mpr ⟨some, flonum⟩)
  fixnumSymbol inside := by
    by_contra free
    obtain ⟨w, symbol, fixnum⟩ :=
      (exists_masked_flagged checked.symbolFixnum).mpr ⟨inside, free⟩
    cases exclusive w _ _ (passes_fixnum.mpr fixnum) (passes_symbol.mpr symbol)
  flonumSymbol some flonum symbol meet := by
    obtain ⟨w, left, right⟩ := exists_masked_twice.mpr ⟨flonum, symbol, meet⟩
    cases exclusive w _ _ (passes_flonum.mpr ⟨some, left⟩) (passes_symbol.mpr right)

theorem Checked.fixnum_not_flonum {k : Constants} (checked : k.Checked) (separate : k.Separate)
    {word : UInt64} (fixnum : Test.fixnum.passes k word = true)
    (flonum : Test.flonum.passes k word = true) : False := by
  obtain ⟨some, masked⟩ := passes_flonum.mp flonum
  obtain ⟨inside, free⟩ := (exists_masked_flagged (checked.flonumFixnum some)).mp
    ⟨word, masked, passes_fixnum.mp fixnum⟩
  exact free (separate.fixnumFlonum some inside)

theorem Checked.fixnum_not_symbol {k : Constants} (checked : k.Checked) (separate : k.Separate)
    {word : UInt64} (fixnum : Test.fixnum.passes k word = true)
    (symbol : Test.symbol.passes k word = true) : False := by
  obtain ⟨inside, free⟩ := (exists_masked_flagged checked.symbolFixnum).mp
    ⟨word, passes_symbol.mp symbol, passes_fixnum.mp fixnum⟩
  exact free (separate.fixnumSymbol inside)

theorem Separate.flonum_not_symbol {k : Constants} (separate : k.Separate) {word : UInt64}
    (flonum : Test.flonum.passes k word = true) (symbol : Test.symbol.passes k word = true) :
    False := by
  obtain ⟨some, masked⟩ := passes_flonum.mp flonum
  obtain ⟨left, right, meet⟩ :=
    exists_masked_twice.mp ⟨word, masked, passes_symbol.mp symbol⟩
  exact separate.flonumSymbol some left right meet

theorem Checked.exclusive {k : Constants} (checked : k.Checked) (separate : k.Separate) :
    Exclusive k := by
  intro word a b passedA passedB
  cases specialA : a.special? with
  | some c => exact checked.special_alone specialA passedA passedB
  | none =>
    cases specialB : b.special? with
    | some c => exact (checked.special_alone specialB passedB passedA).symm
    | none =>
      have taggedA := Test.mem_tagged specialA
      have taggedB := Test.mem_tagged specialB
      simp only [List.mem_cons, List.not_mem_nil, or_false] at taggedA taggedB
      rcases taggedA with rfl | rfl | rfl
      · rcases taggedB with rfl | rfl | rfl
        · rfl
        · exact (checked.fixnum_not_flonum separate passedA passedB).elim
        · exact (checked.fixnum_not_symbol separate passedA passedB).elim
      · rcases taggedB with rfl | rfl | rfl
        · exact (checked.fixnum_not_flonum separate passedB passedA).elim
        · rfl
        · exact (separate.flonum_not_symbol passedA passedB).elim
      · rcases taggedB with rfl | rfl | rfl
        · exact (checked.fixnum_not_symbol separate passedB passedA).elim
        · exact (separate.flonum_not_symbol passedB passedA).elim
        · rfl

theorem separate_default : default.Separate where
  fixnumFlonum _ _ := by decide
  fixnumSymbol _ := by decide
  flonumSymbol _ _ _ := by decide

theorem exclusive_default : Exclusive default :=
  (checked_of_validate validate_default).exclusive separate_default

/-- A table that passed its check leaves no word to two tests, and makes the order of the tests
immaterial, exactly when its masks are apart. -/
theorem validate_exclusive_iff {k : Constants} (valid : k.validate = .ok ()) :
    (Exclusive k ↔ k.Separate) ∧
      ((∀ order : List Test, order.Perm Test.all →
        ∀ word, ofWordIn? order k word = ofWord? k word) ↔ k.Separate) := by
  have checked := checked_of_validate valid
  have separate : Exclusive k ↔ k.Separate := ⟨checked.separate, checked.exclusive⟩
  exact ⟨separate, (exclusive_iff_order k).symm.trans separate⟩

/-- In a build without flonums only the fixnum flag and the symbol tag have to be apart. -/
theorem without_flonums_exclusive :
    (default.set .flonumMask 0).validate = .ok () ∧ Exclusive (default.set .flonumMask 0) := by
  refine ⟨rfl, (validate_exclusive_iff rfl).1.mpr ⟨?_, ?_, ?_⟩⟩
  · intro some
    exact absurd rfl some
  · decide
  · intro some
    exact absurd rfl some

/-- With a flonum mask of one bit the check passes, yet the word three is tagged as a fixnum and as
a flonum. -/
theorem accepted_overlap :
    (default.set .flonumMask 2).validate = .ok () ∧
      Test.fixnum.passes (default.set .flonumMask 2) 3 = true ∧
      Test.flonum.passes (default.set .flonumMask 2) 3 = true ∧
      ¬ Exclusive (default.set .flonumMask 2) :=
  ⟨rfl, rfl, rfl, fun exclusive => nomatch exclusive 3 .fixnum .flonum rfl rfl⟩

end Constants

end HeapLens
