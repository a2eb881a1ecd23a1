import HeapLens.Constants.ValueType
import HeapLens.Error
import HeapLens.Target.Basic

/-!
The constants of one target. A target that does not define a constant leaves it at its default; a
table that was resolved has passed the check that no immediate encoding can be taken for another,
for an overlap is a defect of the table and never decided by the order of tests.
-/
namespace HeapLens

structure Constants where
  get : Constant → UInt64
  tagOf : ValueType → UInt64

namespace Constants

def default : Constants := ⟨Constant.defaultValue, ValueType.defaultTag⟩

def set (k : Constants) (c : Constant) (value : UInt64) : Constants :=
  { k with get := fun d => if d = c then value else k.get d }

def setTag (k : Constants) (t : ValueType) (tag : UInt64) : Constants :=
  { k with tagOf := fun s => if s = t then tag else k.tagOf s }

/-- The type with a given tag, the first one if several share it. -/
def typeOf (k : Constants) (tag : UInt64) : Option ValueType :=
  ValueType.all.find? fun t => k.tagOf t == tag

/-- A word shifted down; nothing is left of it when the shift is out of range. -/
def shiftRight (k : Constants) (bits : UInt64) (shift : Constant) : UInt64 :=
  if k.get shift < 64 then bits >>> k.get shift else 0

def field (k : Constants) (flags : UInt64) (mask shift : Constant) : UInt64 :=
  k.shiftRight (flags &&& k.get mask) shift

def flag (k : Constants) (flags : UInt64) (c : Constant) : Bool := flags &&& k.get c != 0

def entries (k : Constants) : List (String × UInt64) :=
  Constant.all.map (fun c => (c.label, k.get c)) ++
    ValueType.all.map fun t => (t.constantName, k.tagOf t)

/-- The words that are values by themselves. -/
def specials : List Constant := [.falseWord, .nilWord, .trueWord, .undefWord]

/-- What a special word can be taken for: a later special, or one of the tagged encodings. -/
def specialProblems (k : Constants) : List Constant → List Ambiguity
  | [] => []
  | a :: rest =>
    let word := k.get a
    (rest.filter fun b => k.get b == word).map (fun b => .sameWord a b word) ++
      (if word &&& k.get .fixnumFlag != 0 then [.looksLike a word .fixnum] else []) ++
      (if k.get .flonumMask != 0 && word &&& k.get .flonumMask == k.get .flonumFlag
        then [.looksLike a word .flonum] else []) ++
      (if word &&& 0xff == k.get .symbolFlag then [.looksLike a word .symbol] else []) ++
      specialProblems k rest

/-- Every pair of encodings that the table leaves ambiguous. -/
def problems (k : Constants) : List Ambiguity :=
  let flonums := k.get .flonumMask != 0
  specialProblems k specials ++
    (if k.get .fixnumFlag == 0 then [.noFixnumFlag] else []) ++
    (if flonums && k.get .flonumFlag &&& k.get .fixnumFlag != 0 then [.flonumOverlapsFixnum]
      else []) ++
    (if k.get .symbolFlag &&& k.get .fixnumFlag != 0 ||
        (flonums && k.get .symbolFlag &&& k.get .flonumMask == k.get .flonumFlag)
      then [.symbolOverlapsNumber] else []) ++
    (if k.get .typeMask == 0 then [.noTypeMask] else [])

/-- The first shift that is too large, else all problems together. -/
def validate (k : Constants) : Except InspectError Unit :=
  match Constant.all.find? fun c => c.isShift && 64 ≤ k.get c with
  | some shift => .error (.shiftOutOfRange shift (k.get shift))
  | none => if k.problems.isEmpty then .ok () else .error (.ambiguous k.problems)

def definedConstants (t : Target) : List Constant → Except AccessError (List (Constant × UInt64))
  | [] => .ok []
  | c :: rest => do
    match ← t.constant c.label with
    | some value => return (c, value.toUInt64) :: (← definedConstants t rest)
    | none => definedConstants t rest

def definedTags (t : Target) : List ValueType → Except AccessError (List (ValueType × UInt64))
  | [] => .ok []
  | s :: rest => do
    match ← t.constant s.constantName with
    | some value => return (s, value.toUInt64) :: (← definedTags t rest)
    | none => definedTags t rest

def resolve (t : Target) : Except InspectError Constants := do
  let values ← definedConstants t Constant.all
  let tags ← definedTags t ValueType.all
  let k : Constants :=
    { get := fun c => (values.lookup c).getD c.defaultValue
      tagOf := fun s => (tags.lookup s).getD s.defaultTag }
  k.validate
  return k

@[simp] theorem get_set_self (k : Constants) (c : Constant) (value : UInt64) :
    (k.set c value).get c = value := by simp [set]

theorem get_set_of_ne (k : Constants) {c d : Constant} (value : UInt64) (ne : d ≠ c) :
    (k.set c value).get d = k.get d := by simp [set, ne]

theorem validate_default : default.validate = .ok () := rfl

end Constants

/-- How a raw tag is shown when it may be that of no type. -/
def tagLabel (type : Option ValueType) (tag : UInt64) : String :=
  match type with
  | some t => t.label
  | none => "Unknown(" ++ Text.hex tag ++ ")"

def Constants.typeLabel (k : Constants) (tag : UInt64) : String := tagLabel (k.typeOf tag) tag

end HeapLens
