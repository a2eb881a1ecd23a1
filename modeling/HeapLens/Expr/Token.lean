import HeapLens.Expr.Basic
import HeapLens.Text.Blank
import HeapLens.Text.Letters
import HeapLens.Text.Numeral

/-!
From text to tokens. White space only separates. A number begins with an ASCII digit and runs on
over ASCII letters, digits and underscores, the last of which do not count; a name begins with a
letter, an underscore or a dollar sign and runs on over letters and numbers of any script.
-/
namespace HeapLens.Expr
open HeapLens.Text

def startsName (c : Char) : Bool := isLetter c || c == '_' || c == '$'

def continuesName (c : Char) : Bool := isLetter c || isNumber c || c == '_'

def continuesNumber (c : Char) : Bool := c.isAlphanum || c == '_'

/-- The value of a number token, whose text may hold underscores anywhere after the start. -/
def numberValue (text : List Char) : Except Fault UInt64 :=
  match readLiteral (text.filter (· != '_')) with
  | some value => .ok value
  | none => .error (.invalidNumber (String.ofList text))

def punctuation : Char → Option Token
  | '*' => some .star
  | '(' => some .lparen
  | ')' => some .rparen
  | '[' => some .lbracket
  | ']' => some .rbracket
  | '.' => some .dot
  | _ => none

theorem length_dropWhile_le (p : Char → Bool) (cs : List Char) :
    (cs.dropWhile p).length ≤ cs.length :=
  (List.dropWhile_suffix p).length_le

def tokenize : List Char → Except Fault (List Token)
  | [] => .ok []
  | '-' :: '>' :: rest => return .arrow :: (← tokenize rest)
  | c :: rest =>
    if isBlank c then tokenize rest
    else if c.isDigit then do
      let value ← numberValue (c :: rest.takeWhile continuesNumber)
      return .number value :: (← tokenize (rest.dropWhile continuesNumber))
    else if startsName c then
      return .name (String.ofList (c :: rest.takeWhile continuesName)) ::
        (← tokenize (rest.dropWhile continuesName))
    else if c = '-' then return .minus :: (← tokenize rest)
    else
      match punctuation c with
      | some token => return token :: (← tokenize rest)
      | none => .error (.unexpectedCharacter c)
termination_by cs => cs.length
decreasing_by
  · simp only [List.length_cons]; omega
  · simp only [List.length_cons]; omega
  · have := length_dropWhile_le continuesNumber rest
    simp only [List.length_cons]; omega
  · have := length_dropWhile_le continuesName rest
    simp only [List.length_cons]; omega
  · simp only [List.length_cons]; omega
  · simp only [List.length_cons]; omega

end HeapLens.Expr
