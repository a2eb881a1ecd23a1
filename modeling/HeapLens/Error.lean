import HeapLens.Constants.Constant
import HeapLens.Expr.Basic
import HeapLens.Text.Numeral

/-!
What can go wrong, as causes; the wording stands in one function for each kind. An access error
comes from names, types, expressions and memory; an inspection error wraps one or says what is
wrong with an object, a constant, an option or a command.
-/
namespace HeapLens
open HeapLens.Text

structure Unreadable where
  address : UInt64
  size : UInt64
  deriving DecidableEq, Repr

def Unreadable.message (e : Unreadable) : String :=
  "cannot read " ++ toString e.size.toNat ++ " bytes at " ++ hex e.address

inductive AccessError where
  | unknownSymbol (name : String)
  | unknownType (name : String)
  | unknownMember (type field : String)
  | notPointer (type : String)
  | notAddressable (type : String)
  | notScalar (type : String)
  | malformed (expression : String) (fault : Expr.Fault)
  | unreadable (range : Unreadable)
  deriving DecidableEq, Repr

def AccessError.message : AccessError → String
  | .unknownSymbol name => "no symbol \"" ++ name ++ "\" in current context"
  | .unknownType name => "no type named " ++ name
  | .unknownMember type field => "there is no member named " ++ field ++ " in " ++ type
  | .notPointer type => "attempt to dereference a non-pointer value of type " ++ type
  | .notAddressable type => "value of type " ++ type ++ " has no address"
  | .notScalar type => "value of type " ++ type ++ " is not a scalar"
  | .malformed expression fault =>
    "syntax error in expression \"" ++ expression ++ "\": " ++ fault.message
  | .unreadable range => range.message

/-- Contents of an object that cannot be right. -/
inductive Corruption where
  | objectGrew
  | inlineOutside (offset length : UInt64)
  | pastAddressSpace
  | negativeLength (what : String) (length : Int64)
  | nullBuffer
  | nullElementTable
  | nullDigitBuffer
  | arrayTable (size bound capacity : UInt64)
  | entryTable (size start bound power : UInt64)
  | entryOutside (index entries : UInt64)
  deriving DecidableEq, Repr

def Corruption.message : Corruption → String
  | .objectGrew => "inline data grew while the object was being read"
  | .inlineOutside offset length =>
    toString length.toNat ++ " inline bytes at +" ++ toString offset.toNat ++
      " lie outside the object read"
  | .pastAddressSpace => "object runs past the address space"
  | .negativeLength what length => "negative " ++ what ++ " length " ++ toString length.toInt
  | .nullBuffer => "null buffer for non-empty string"
  | .nullElementTable => "null element table for non-empty array"
  | .nullDigitBuffer => "null digit buffer"
  | .arrayTable size bound capacity =>
    "ar_table size " ++ toString size.toNat ++ " with bound " ++ toString bound.toNat ++
      " (capacity " ++ toString capacity.toNat ++ ")"
  | .entryTable size start bound power =>
    "st_table with " ++ toString size.toNat ++ " entries in [" ++ toString start.toNat ++ ", " ++
      toString bound.toNat ++ ") of 2^" ++ toString power.toNat
  | .entryOutside index entries =>
    "st_table entry " ++ toString index.toNat ++ " at " ++ hex entries ++
      " is past the end of the address space"

/-- The encodings that a special word or a flag can be mistaken for. -/
inductive Encoding where
  | fixnum | flonum | symbol
  deriving DecidableEq, Repr

def Encoding.label : Encoding → String
  | .fixnum => "fixnum"
  | .flonum => "flonum"
  | .symbol => "symbol"

/-- A pair of immediate encodings that cannot be told apart. -/
inductive Ambiguity where
  | sameWord (a b : Constant) (word : UInt64)
  | looksLike (a : Constant) (word : UInt64) (encoding : Encoding)
  | noFixnumFlag
  | flonumOverlapsFixnum
  | symbolOverlapsNumber
  | noTypeMask
  deriving DecidableEq, Repr

def Ambiguity.message : Ambiguity → String
  | .sameWord a b word => a.label ++ " and " ++ b.label ++ " are both " ++ hex word
  | .looksLike a word encoding =>
    a.label ++ " " ++ hex word ++ " looks like a " ++ encoding.label
  | .noFixnumFlag => "RUBY_FIXNUM_FLAG is zero"
  | .flonumOverlapsFixnum => "flonum tag overlaps the fixnum flag"
  | .symbolOverlapsNumber => "symbol flag overlaps a numeric encoding"
  | .noTypeMask => "RUBY_T_MASK is zero"

/-- What is wrong with a command line or a prompt line. -/
inductive UsageFault where
  | unterminatedQuote
  | missingValue (option : String)
  | invalidValue (value option : String)
  | unknownOption (name : String)
  | unknownCommand (name : String)
  | missingExpression (command : String)
  | unexpectedExpression (command : String)
  deriving DecidableEq, Repr

def UsageFault.message : UsageFault → String
  | .unterminatedQuote => "unterminated quote"
  | .missingValue option => "--" ++ option ++ " needs a value"
  | .invalidValue value option => "invalid value '" ++ value ++ "' for --" ++ option
  | .unknownOption name => "unknown option --" ++ name
  | .unknownCommand name => "unknown command '" ++ name ++ "' (type 'help' for a list)"
  | .missingExpression command => command ++ " needs at least one expression"
  | .unexpectedExpression command => command ++ " takes no expressions"

/-- Why a heap image cannot be used. -/
inductive SnapshotFault where
  | malformed
  | wraps (address : UInt64)
  | overlaps (address : UInt64)
  deriving DecidableEq, Repr

def SnapshotFault.message : SnapshotFault → String
  | .malformed => "malformed snapshot"
  | .wraps address => "region at " ++ hex address ++ " wraps the address space"
  | .overlaps address => "region at " ++ hex address ++ " overlaps another region"

inductive InspectError where
  | access (cause : AccessError)
  | unclassifiable (bits : UInt64)
  | corrupt (address : UInt64) (fault : Corruption)
  | ambiguous (problems : List Ambiguity)
  | shiftOutOfRange (shift : Constant) (value : UInt64)
  | invalidDepth (depth : Nat)
  | usage (fault : UsageFault)
  | snapshot (fault : SnapshotFault)
  | outputFailed
  deriving DecidableEq, Repr

def InspectError.message : InspectError → String
  | .access cause => cause.message
  | .unclassifiable bits =>
    "cannot classify value " ++ hex bits ++ ": tag bits match no immediate encoding"
  | .corrupt address fault => "corrupt object at " ++ hex address ++ ": " ++ fault.message
  | .ambiguous problems =>
    "ambiguous value encoding: " ++ "; ".intercalate (problems.map Ambiguity.message)
  | .shiftOutOfRange shift value =>
    "invalid runtime constant " ++ shift.label ++ " = " ++ toString value.toNat ++
      ": shift must be below 64"
  | .invalidDepth depth => "--depth must be >= 1 (got " ++ toString depth ++ ")"
  | .usage fault => "usage error: " ++ fault.message
  | .snapshot fault => "snapshot error: " ++ fault.message
  | .outputFailed => "output failed"

end HeapLens
