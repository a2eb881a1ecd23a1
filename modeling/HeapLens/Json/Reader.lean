import HeapLens.Json.Basic
import HeapLens.Text.Numeral

/-!
Reading JSON. The grammar is the standard one and strict: no leading zeros, no trailing commas, no
comments, no raw control characters in strings, and nothing but white space after the document.
-/
namespace HeapLens.Json
open HeapLens.Text

def isSpace (c : Char) : Bool := c == ' ' || c == '\n' || c == '\t' || c == '\r'

def skipSpace (cs : List Char) : List Char := cs.dropWhile isSpace

def hexUnit (a b c d : Char) : Option Nat := readNat 16 [a, b, c, d]

/-- The character behind a backslash, apart from `u`. -/
def simpleEscape : Char → Option Char
  | '"' => some '"'
  | '\\' => some '\\'
  | '/' => some '/'
  | 'b' => some '\x08'
  | 'f' => some '\x0c'
  | 'n' => some '\n'
  | 'r' => some '\r'
  | 't' => some '\t'
  | _ => none

/-- The code points and surrogates of a string, last first, up to the closing quote. -/
def scanUnits (found : List Nat) : List Char → Option (List Nat × List Char)
  | '"' :: rest => some (found, rest)
  | '\\' :: 'u' :: a :: b :: c :: d :: rest =>
    match hexUnit a b c d with
    | some unit => scanUnits (unit :: found) rest
    | none => none
  | '\\' :: c :: rest =>
    match simpleEscape c with
    | some c => scanUnits (c.toNat :: found) rest
    | none => none
  | c :: rest => if c.toNat < 0x20 || c == '\\' then none else scanUnits (c.toNat :: found) rest
  | [] => none

def isHigh (unit : Nat) : Bool := 0xd800 ≤ unit && unit ≤ 0xdbff

def isLow (unit : Nat) : Bool := 0xdc00 ≤ unit && unit ≤ 0xdfff

/-- The characters of a list of code points and surrogates, with each pair of surrogates joined;
nothing when one is left over. The list and the result run backwards. -/
def joinUnits (found : List Char) : List Nat → Option (List Char)
  | [] => some found
  | low :: high :: rest =>
    if isLow low then
      if isHigh high then
        joinUnits (Char.ofNat (0x10000 + (high - 0xd800) * 0x400 + (low - 0xdc00)) :: found) rest
      else none
    else if isHigh low then none
    else joinUnits (Char.ofNat low :: found) (high :: rest)
  | [unit] => if isLow unit || isHigh unit then none else some (Char.ofNat unit :: found)

/-- A string, given what follows its opening quote. -/
def scanText (cs : List Char) : Option (Option String × List Char) := do
  let (units, rest) ← scanUnits [] cs
  return ((joinUnits [] units).map String.ofList, rest)

def scanDigits (cs : List Char) : List Char × List Char :=
  (cs.takeWhile Char.isDigit, cs.dropWhile Char.isDigit)

/-- What follows a fraction, if there is one. -/
def scanFraction : List Char → Option (Bool × List Char)
  | '.' :: rest =>
    let (digits, rest) := scanDigits rest
    if digits.isEmpty then none else some (true, rest)
  | rest => some (false, rest)

def dropSign : List Char → List Char
  | '+' :: rest => rest
  | '-' :: rest => rest
  | rest => rest

def scanExponent : List Char → Option (Bool × List Char)
  | c :: rest =>
    if c == 'e' || c == 'E' then
      let (digits, rest) := scanDigits (dropSign rest)
      if digits.isEmpty then none else some (true, rest)
    else some (false, c :: rest)
  | [] => some (false, [])

/-- A number, given what follows its sign. -/
def scanNumber (negative : Bool) (cs : List Char) : Option (Json × List Char) := do
  let (digits, rest) := scanDigits cs
  let magnitude ← readNat 10 digits
  if digits.length > 1 && digits.head? == some '0' then none
  else
    let (fraction, rest) ← scanFraction rest
    let (exponent, rest) ← scanExponent rest
    if fraction || exponent then
      let spelled := cs.take (cs.length - rest.length)
      some (.decimal (String.ofList (if negative then '-' :: spelled else spelled)), rest)
    else some (.integer negative magnitude, rest)

mutual

/-- A value in front of `cs`, and what follows it. Every second step at least consumes a
character, so two steps for each, and two more, are enough. -/
def readValue : Nat → List Char → Option (Json × List Char)
  | 0, _ => none
  | steps + 1, cs =>
    match skipSpace cs with
    | 'n' :: 'u' :: 'l' :: 'l' :: rest => some (.null, rest)
    | 't' :: 'r' :: 'u' :: 'e' :: rest => some (.bool true, rest)
    | 'f' :: 'a' :: 'l' :: 's' :: 'e' :: rest => some (.bool false, rest)
    | '"' :: rest =>
      match scanText rest with
      | some (s, rest) => some (.text s, rest)
      | none => none
    | '[' :: rest =>
      match skipSpace rest with
      | ']' :: rest => some (.array [], rest)
      | rest => readItems steps [] rest
    | '{' :: rest =>
      match skipSpace rest with
      | '}' :: rest => some (.object [], rest)
      | rest => readMembers steps [] rest
    | '-' :: rest => scanNumber true rest
    | rest => scanNumber false rest

/-- The items of an array from the next one on, with those already found last first. -/
def readItems : Nat → List Json → List Char → Option (Json × List Char)
  | 0, _, _ => none
  | steps + 1, found, cs =>
    match readValue steps cs with
    | none => none
    | some (item, rest) =>
      match skipSpace rest with
      | ',' :: rest => readItems steps (item :: found) rest
      | ']' :: rest => some (.array (item :: found).reverse, rest)
      | _ => none

def readMembers : Nat → List (Option String × Json) → List Char → Option (Json × List Char)
  | 0, _, _ => none
  | steps + 1, found, cs =>
    match skipSpace cs with
    | '"' :: rest =>
      match scanText rest with
      | none => none
      | some (name, rest) =>
        match skipSpace rest with
        | ':' :: rest =>
          match readValue steps rest with
          | none => none
          | some (value, rest) =>
            match skipSpace rest with
            | ',' :: rest => readMembers steps ((name, value) :: found) rest
            | '}' :: rest => some (.object ((name, value) :: found).reverse, rest)
            | _ => none
        | _ => none
    | _ => none

end

def readChars (cs : List Char) : Option Json :=
  match readValue (2 * cs.length + 2) cs with
  | some (value, rest) => if (skipSpace rest).isEmpty then some value else none
  | none => none

def read (text : String) : Option Json := readChars text.toList

end HeapLens.Json
