import HeapLens.Json.Basic

/-!
Writing JSON. The pretty form has every item and member on a line of its own, indented by two
spaces a level, and empty containers closed at once; the compact form has no white space. Quotes,
backslashes and control characters below the space are escaped, nothing else.
-/
namespace HeapLens.Json

def hexDigit (n : Nat) : Char := Char.ofNat (if n < 10 then 48 + n else 87 + n)

def escapeChar (c : Char) : List Char :=
  if c = '"' then ['\\', '"']
  else if c = '\\' then ['\\', '\\']
  else if c = '\x08' then ['\\', 'b']
  else if c = '\x0c' then ['\\', 'f']
  else if c = '\n' then ['\\', 'n']
  else if c = '\r' then ['\\', 'r']
  else if c = '\t' then ['\\', 't']
  else if c.toNat < 0x20 then
    ['\\', 'u', '0', '0', hexDigit (c.toNat / 16), hexDigit (c.toNat % 16)]
  else [c]

def quote (s : String) : List Char := '"' :: (s.toList.flatMap escapeChar ++ ['"'])

/-- A string that stands for no text has no form of its own and is written as an empty one. -/
def quoteText (s : Option String) : List Char := quote (s.getD "")

def integerChars (negative : Bool) (magnitude : Nat) : List Char :=
  let digits := Nat.toDigits 10 magnitude
  if negative then '-' :: digits else digits

def breakLine (level : Nat) : List Char := '\n' :: List.replicate (2 * level) ' '

mutual

def pretty (level : Nat) : Json → List Char
  | .null => ['n', 'u', 'l', 'l']
  | .bool true => ['t', 'r', 'u', 'e']
  | .bool false => ['f', 'a', 'l', 's', 'e']
  | .integer negative magnitude => integerChars negative magnitude
  | .decimal lexeme => lexeme.toList
  | .text s => quoteText s
  | .array [] => ['[', ']']
  | .array (item :: items) =>
    '[' :: (breakLine (level + 1) ++ pretty (level + 1) item ++ prettyItems (level + 1) items ++
      breakLine level ++ [']'])
  | .object [] => ['\x7b', '\x7d']
  | .object ((name, value) :: members) =>
    '\x7b' :: (breakLine (level + 1) ++ quoteText name ++ [':', ' '] ++ pretty (level + 1) value ++
      prettyMembers (level + 1) members ++ breakLine level ++ ['\x7d'])

def prettyItems (level : Nat) : List Json → List Char
  | [] => []
  | item :: items => ',' :: (breakLine level ++ pretty level item ++ prettyItems level items)

def prettyMembers (level : Nat) : List (Option String × Json) → List Char
  | [] => []
  | (name, value) :: members =>
    ',' :: (breakLine level ++ quoteText name ++ [':', ' '] ++ pretty level value ++
      prettyMembers level members)

end

mutual

def compact : Json → List Char
  | .null => ['n', 'u', 'l', 'l']
  | .bool true => ['t', 'r', 'u', 'e']
  | .bool false => ['f', 'a', 'l', 's', 'e']
  | .integer negative magnitude => integerChars negative magnitude
  | .decimal lexeme => lexeme.toList
  | .text s => quoteText s
  | .array [] => ['[', ']']
  | .array (item :: items) => '[' :: (compact item ++ compactItems items ++ [']'])
  | .object [] => ['\x7b', '\x7d']
  | .object ((name, value) :: members) =>
    '\x7b' :: (quoteText name ++ ':' :: (compact value ++ compactMembers members ++ ['\x7d']))

def compactItems : List Json → List Char
  | [] => []
  | item :: items => ',' :: (compact item ++ compactItems items)

def compactMembers : List (Option String × Json) → List Char
  | [] => []
  | (name, value) :: members =>
    ',' :: (quoteText name ++ ':' :: (compact value ++ compactMembers members))

end

def toPretty (j : Json) : String := String.ofList (pretty 0 j)

def toCompact (j : Json) : String := String.ofList (compact j)

end HeapLens.Json
