import HeapLens.Decimal.Double
import HeapLens.Error
import HeapLens.Layout.Basic
import HeapLens.Word.Bytes

/-!
Typed copies of target memory. A value owns its bytes and remembers where they came from, so its
members agree with each other whatever the target does next. The operations that read memory
are given the way to read, which may record reads or may not.
-/
namespace HeapLens

structure Value where
  type : Layout
  bytes : Bytes
  address : Option UInt64

namespace Value

/-- A value that was not read from memory: the low bytes of a word. -/
def scalar (l : Layout) (bits : UInt64) : Value :=
  ⟨l, (Bytes.ofWord bits).take l.size.toNat, none⟩

/-- The value as an unsigned word, extended with zeros. -/
def unsigned (v : Value) : UInt64 := Bytes.word v.bytes

/-- The value as a signed word, extended with its own sign. -/
def signed (v : Value) : Int64 :=
  let count := min v.bytes.length 8
  if count = 0 then 0
  else
    let shift := UInt64.ofNat (64 - 8 * count)
    (v.unsigned <<< shift).toInt64 >>> shift.toInt64

/-- The value as a double; four bytes are a single-precision number. -/
def double (v : Value) : Double :=
  if v.bytes.length = 4 then Double.ofSingle v.unsigned.toUInt32 else ⟨v.unsigned⟩

def tagged (v : Value) : Except AccessError UInt64 :=
  if v.type.isScalar then .ok v.unsigned else .error (.notScalar v.type.name)

def requireAddress (v : Value) : Except AccessError UInt64 :=
  match v.address with
  | some address => .ok address
  | none => .error (.notAddressable v.type.name)

/-- A member, taken out of the bytes already read. -/
def member (v : Value) (field : String) : Except AccessError Value :=
  match v.type.member? field with
  | none => .error (.unknownMember v.type.name field)
  | some (offset, l) =>
    match v.bytes.slice? offset.toNat l.size.toNat with
    | none => .error (.unknownMember v.type.name field)
    | some bytes => .ok ⟨l, bytes, v.address.map (· + offset)⟩

def unsignedMember (v : Value) (field : String) : Except AccessError UInt64 :=
  return (← v.member field).unsigned

def signedMember (v : Value) (field : String) : Except AccessError Int64 :=
  return (← v.member field).signed

/-- A pointer moved by a number of elements; addresses wrap around. -/
def advance (v : Value) (count : Int64) : Except AccessError Value :=
  match v.type.target? with
  | none => .error (.notPointer v.type.name)
  | some target => .ok (scalar v.type (v.unsigned + count.toUInt64 * target.size))

/-- The bits that a cast to a scalar type starts from. -/
def castBits (v : Value) : UInt64 := if v.type.isSigned then v.signed.toUInt64 else v.unsigned

section Reading
variable {m : Type → Type} [Monad m] [MonadLiftT (Except AccessError) m]

def fetch (read : UInt64 → UInt64 → m Bytes) (l : Layout) (address : UInt64) : m Value := do
  return ⟨l, ← read address l.size, some address⟩

def deref (read : UInt64 → UInt64 → m Bytes) (v : Value) : m Value :=
  match v.type.target? with
  | none => liftM (Except.error (.notPointer v.type.name) : Except AccessError Value)
  | some target => fetch read target v.unsigned

/-- The value at another type: a record is read again where the value lies, anything else is a
word cut or extended to the new size. -/
def cast (read : UInt64 → UInt64 → m Bytes) (v : Value) (l : Layout) : m Value := do
  if l.isRecord then fetch read l (← liftM v.requireAddress) else return scalar l v.castBits

/-- A member of a record, or of the record that a pointer points to. -/
def field (read : UInt64 → UInt64 → m Bytes) (v : Value) (name : String) : m Value := do
  if v.type.isPointer then liftM ((← v.deref read).member name) else liftM (v.member name)

def element (read : UInt64 → UInt64 → m Bytes) (v : Value) (position : Int64) : m Value := do
  (← liftM (v.advance position)).deref read

end Reading

end Value
end HeapLens
