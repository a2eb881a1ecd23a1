import HeapLens.Constants.Table
import HeapLens.Decimal.Double
import HeapLens.Word.Flonum

/-!
Values that are encoded in the word itself. The encodings are tested in a fixed order: the special
words, fixnums, flonums where the build has them, then static symbols.
-/
namespace HeapLens
open HeapLens.Text

inductive Immediate where
  | falseValue
  | nilValue
  | trueValue
  | undef
  | fixnum (value : Int64)
  | flonum (value : Double)
  | symbol (id : UInt64)
  deriving DecidableEq, Repr

namespace Immediate

def type : Immediate → ValueType
  | .falseValue => .falseValue
  | .nilValue => .nilValue
  | .trueValue => .trueValue
  | .undef => .undef
  | .fixnum _ => .fixnum
  | .flonum _ => .float
  | .symbol _ => .symbol

def text : Immediate → String
  | .falseValue => "false"
  | .nilValue => "nil"
  | .trueValue => "true"
  | .undef => "undef"
  | .fixnum value => toString value.toInt
  | .flonum value => value.text
  | .symbol id => "id=" ++ hex id

/-- What a word encodes by itself, if anything. -/
def ofWord? (k : Constants) (word : UInt64) : Option Immediate :=
  if word = k.get .falseWord then some .falseValue
  else if word = k.get .nilWord then some .nilValue
  else if word = k.get .trueWord then some .trueValue
  else if word = k.get .undefWord then some .undef
  else if word &&& k.get .fixnumFlag ≠ 0 then some (.fixnum (word.toInt64 >>> 1))
  else if k.get .flonumMask ≠ 0 ∧ word &&& k.get .flonumMask = k.get .flonumFlag then
    some (.flonum ⟨Flonum.decode word⟩)
  else if word &&& 0xff = k.get .symbolFlag then some (.symbol (k.shiftRight word .specialShift))
  else none

end Immediate
end HeapLens
