import HeapLens.View.Number
import HeapLens.View.Table
import HeapLens.View.Text

/-!
Views of tagged words: what a word or its object is, decoded as far as one line of output needs,
with the words below it. An object without a layout of its own is shown by its header alone.
-/
namespace HeapLens
open HeapLens.Text

inductive View where
  | immediate (word : UInt64) (value : Immediate)
  | basic (object : HeapObject)
  | string (v : StringView)
  | array (v : SequenceView)
  | hash (v : TableView)
  | record (v : SequenceView)
  | float (v : FloatView)
  | bignum (v : BignumView)
  | symbol (v : SymbolView)
  deriving DecidableEq, Repr

namespace View

def object? : View → Option HeapObject
  | .immediate _ _ => none
  | .basic object => some object
  | .string v => some v.object
  | .array v => some v.object
  | .hash v => some v.object
  | .record v => some v.object
  | .float v => some v.object
  | .bignum v => some v.object
  | .symbol v => some v.object

def word : View → UInt64
  | .immediate word _ => word
  | .basic object => object.word
  | .string v => v.object.word
  | .array v => v.object.word
  | .hash v => v.object.word
  | .record v => v.object.word
  | .float v => v.object.word
  | .bignum v => v.object.word
  | .symbol v => v.object.word

def header? (v : View) : Option Header := v.object?.map (·.header)

def address? (v : View) : Option UInt64 := v.object?.map (·.address)

def typeLabel : View → String
  | .immediate _ value => value.type.label
  | v => (v.object?.map (·.typeLabel)).getD ""

/-- The type, with the address of an object, between angle brackets. -/
def tag (v : View) : String :=
  match v.address? with
  | some address => "<" ++ v.typeLabel ++ "@" ++ hex address ++ ">"
  | none => "<" ++ v.typeLabel ++ ">"

def summary : View → String
  | .immediate _ value => value.text
  | .basic _ => ""
  | .string v => v.summary
  | .array v => v.summary
  | .hash v => v.summary
  | .record v => v.summary
  | .float v => v.value.text
  | .bignum v => v.summary
  | .symbol v => v.summary

def line (v : View) : String :=
  if v.summary.isEmpty then v.tag else v.tag ++ " " ++ v.summary

def pointerField (pointer : Option UInt64) : List (String × String) :=
  match pointer with
  | some address => [("ptr", hex address)]
  | none => []

/-- Internals by name, for debugging output. -/
def details : View → List (String × String)
  | .immediate word _ => [("bits", hex word)]
  | .string v =>
    [("len", toString v.length.toNat), ("embedded", toString v.embedded)] ++ pointerField v.pointer
  | .array v => ("embedded", toString v.embedded) :: pointerField v.pointer
  | .hash v => [("table", v.kind.label ++ "@" ++ hex v.address), ("ifnone", hex v.default)]
  | .record v => [("embedded", toString v.embedded)]
  | .bignum v => [("len", toString v.length.toNat), ("embedded", toString v.embedded)]
  | .symbol v => [("id", hex v.id), ("fstr", hex v.nameWord)]
  | .basic _ | .float _ => []

/-- The words below, in the order of printing. -/
def children : View → List Child
  | .array v => v.children
  | .hash v => v.children
  | .record v => v.children
  | _ => []

/-- How many entries the limit left out. -/
def omitted : View → Nat
  | .array v => v.omitted
  | .hash v => v.omitted
  | .record v => v.omitted
  | _ => 0

end View

namespace Inspector

def decodeObject (i : Inspector) (o : HeapObject) : Probe View :=
  match o.type with
  | some .string => return .string (← i.decodeString o)
  | some .array => return .array (← i.decodeArray o)
  | some .hash => return .hash (← i.decodeHash o)
  | some .record => return .record (← i.decodeRecord o)
  | some .float => return .float (← i.decodeFloat o)
  | some .bignum => return .bignum (← i.decodeBignum o)
  | some .symbol => return .symbol (← i.decodeSymbol o)
  | _ => return .basic o

def decode (i : Inspector) : Classification → Probe View
  | .immediate word value => return .immediate word value
  | .heap o => i.decodeObject o

def interpret (i : Inspector) (word : UInt64) : Probe View := do
  i.decode (← i.classify word)

end Inspector
end HeapLens
