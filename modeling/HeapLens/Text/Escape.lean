import HeapLens.Text.Blank
import HeapLens.Text.Numeral
import HeapLens.Text.Utf8

/-!
Target bytes as they stand between double quotes. Well-formed UTF-8 is shown as text with quotes,
backslashes and control characters escaped; anything else is shown byte by byte.
-/
namespace HeapLens.Text

def escapeChar (c : Char) : List Char :=
  if c = '"' then ['\\', '"']
  else if c = '\\' then ['\\', '\\']
  else if c = '\n' then ['\\', 'n']
  else if c = '\t' then ['\\', 't']
  else if c = '\r' then ['\\', 'r']
  else if c = '\x00' then ['\\', '0']
  else if c = '\x1b' then ['\\', 'e']
  else if isControl c then '\\' :: 'x' :: hexUpper c.toNat
  else [c]

/-- A byte of a string that is not well-formed text. -/
def escapeByte (b : UInt8) : List Char :=
  if b < 0x80 then escapeChar (Char.ofNat b.toNat)
  else '\\' :: 'x' :: hexUpper b.toNat

def escape (bytes : List UInt8) : List Char :=
  match Utf8.decode bytes with
  | some text => text.flatMap escapeChar
  | none => bytes.flatMap escapeByte

def escaped (bytes : List UInt8) : String := String.ofList (escape bytes)

end HeapLens.Text
