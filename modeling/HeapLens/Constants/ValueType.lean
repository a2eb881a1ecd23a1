/-!
The types that a runtime tags its values with. Heap objects carry the tag in their header;
immediates have a tag only as the name under which they are shown.
-/
namespace HeapLens

inductive ValueType where
  | free | object | classObject | moduleObject | float | string | regexp | array | hash | record
  | bignum | file | data | matchData | complex | rational | nilValue | trueValue | falseValue
  | symbol | fixnum | undef | memo | node | includeClass | zombie | moved
  deriving DecidableEq, Repr

namespace ValueType

/-- Every type, in the order in which tags are looked up and listed. -/
def all : List ValueType :=
  [.free, .object, .classObject, .moduleObject, .float, .string, .regexp, .array, .hash, .record,
   .bignum, .file, .data, .matchData, .complex, .rational, .nilValue, .trueValue, .falseValue,
   .symbol, .fixnum, .undef, .memo, .node, .includeClass, .zombie, .moved]

def label : ValueType → String
  | .free => "T_NONE"
  | .object => "T_OBJECT"
  | .classObject => "T_CLASS"
  | .moduleObject => "T_MODULE"
  | .float => "T_FLOAT"
  | .string => "T_STRING"
  | .regexp => "T_REGEXP"
  | .array => "T_ARRAY"
  | .hash => "T_HASH"
  | .record => "T_STRUCT"
  | .bignum => "T_BIGNUM"
  | .file => "T_FILE"
  | .data => "T_DATA"
  | .matchData => "T_MATCH"
  | .complex => "T_COMPLEX"
  | .rational => "T_RATIONAL"
  | .nilValue => "T_NIL"
  | .trueValue => "T_TRUE"
  | .falseValue => "T_FALSE"
  | .symbol => "T_SYMBOL"
  | .fixnum => "T_FIXNUM"
  | .undef => "T_UNDEF"
  | .memo => "T_IMEMO"
  | .node => "T_NODE"
  | .includeClass => "T_ICLASS"
  | .zombie => "T_ZOMBIE"
  | .moved => "T_MOVED"

def constantName (t : ValueType) : String := "RUBY_" ++ t.label

/-- The tag in a target that does not say. -/
def defaultTag : ValueType → UInt64
  | .free => 0x00
  | .object => 0x01
  | .classObject => 0x02
  | .moduleObject => 0x03
  | .float => 0x04
  | .string => 0x05
  | .regexp => 0x06
  | .array => 0x07
  | .hash => 0x08
  | .record => 0x09
  | .bignum => 0x0a
  | .file => 0x0b
  | .data => 0x0c
  | .matchData => 0x0d
  | .complex => 0x0e
  | .rational => 0x0f
  | .nilValue => 0x11
  | .trueValue => 0x12
  | .falseValue => 0x13
  | .symbol => 0x14
  | .fixnum => 0x15
  | .undef => 0x16
  | .memo => 0x1a
  | .node => 0x1b
  | .includeClass => 0x1c
  | .zombie => 0x1d
  | .moved => 0x1e

theorem mem_all (t : ValueType) : t ∈ all := by cases t <;> decide

theorem all_nodup : all.Nodup := by decide

theorem defaultTag_injective : ∀ s ∈ all, ∀ t ∈ all, s.defaultTag = t.defaultTag → s = t := by
  decide

end ValueType
end HeapLens
