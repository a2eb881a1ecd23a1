import HeapLens.Expr.Token

/-!
From tokens to an expression. Stars and casts stand in front of an operand and take all that
follows; indices and members stand behind it and bind tighter. A parenthesis opens a cast when a
type closes it and an operand follows, and a group otherwise.
-/
namespace HeapLens.Expr

/-- Names with a leading dollar sign are symbols and never words of a type or members. -/
def isDollarName (name : String) : Bool := name.toList.head? == some '$'

/-- Names in a row that could be the words of a type, and what follows them. -/
def typeWords : List Token → List String × List Token
  | .name word :: rest =>
    if isDollarName word then ([], .name word :: rest)
    else
      let (words, rest) := typeWords rest
      (word :: words, rest)
  | rest => ([], rest)

def leadingStars : List Token → Nat × List Token
  | .star :: rest =>
    let (count, rest) := leadingStars rest
    (count + 1, rest)
  | rest => (0, rest)

/-- A type is spelled with single spaces, the stars in one run at the end. -/
def typeSpelling (words : List String) (stars : Nat) : String :=
  let base := " ".intercalate words
  if stars = 0 then base else base ++ " " ++ String.ofList (List.replicate stars '*')

/-- The type of a cast and the tokens of its operand, given what follows the parenthesis. -/
def castType (tokens : List Token) : Option (String × List Token) :=
  let (words, rest) := typeWords tokens
  let (stars, rest) := leadingStars rest
  match words, rest with
  | _ :: _, .rparen :: first :: rest =>
    if first.startsOperand then some (typeSpelling words stars, first :: rest) else none
  | _, _ => none

/-- An index and its closing bracket, given what follows the opening one. -/
def indexValue (negative : Bool) : List Token → Except Fault (Int64 × List Token)
  | .number n :: rest =>
    if n < 0x8000000000000000 then
      match rest with
      | .rbracket :: rest => .ok (if negative then -n.toInt64 else n.toInt64, rest)
      | _ => .error .unclosedIndex
    else .error .indexOutOfRange
  | _ => .error .missingIndex

theorem length_of_indexValue {negative : Bool} {tokens rest : List Token} {i : Int64}
    (h : indexValue negative tokens = .ok (i, rest)) : rest.length < tokens.length := by
  unfold indexValue at h
  split at h
  · split at h
    · split at h
      · cases h
        simp only [List.length_cons]
        omega
      · cases h
    · cases h
  · cases h

/-- Indices and members behind an operand, as many as there are. -/
def suffixes (base : Expr) (tokens : List Token) : Except Fault (Expr × List Token) :=
  match tokens with
  | .lbracket :: .minus :: rest =>
    match _ : indexValue true rest with
    | .ok (i, rest) => suffixes (.index base i) rest
    | .error fault => .error fault
  | .lbracket :: rest =>
    match _ : indexValue false rest with
    | .ok (i, rest) => suffixes (.index base i) rest
    | .error fault => .error fault
  | .dot :: .name field :: rest =>
    if isDollarName field then .error .missingMember
    else suffixes (.member base field false) rest
  | .arrow :: .name field :: rest =>
    if isDollarName field then .error .missingMember
    else suffixes (.member base field true) rest
  | .dot :: _ => .error .missingMember
  | .arrow :: _ => .error .missingMember
  | rest => .ok (base, rest)
termination_by tokens.length
decreasing_by
  · have shorter := length_of_indexValue ‹_›
    simp only [List.length_cons]
    omega
  · have shorter := length_of_indexValue ‹_›
    simp only [List.length_cons]
    omega
  · simp only [List.length_cons]
    omega
  · simp only [List.length_cons]
    omega

/-- An expression in front of `tokens`, and what follows it. Each level of nesting costs a token,
so one step for each token, and one more, is enough. -/
def parseFrom : Nat → List Token → Except Fault (Expr × List Token)
  | 0, _ => .error .unexpectedEnd
  | steps + 1, tokens =>
    match tokens with
    | .star :: rest => do
      let (operand, rest) ← parseFrom steps rest
      return (.deref operand, rest)
    | .lparen :: rest =>
      match castType rest with
      | some (type, rest) => do
        let (operand, rest) ← parseFrom steps rest
        return (.cast type operand, rest)
      | none => do
        let (inner, rest) ← parseFrom steps rest
        match rest with
        | .rparen :: rest => suffixes inner rest
        | _ => .error .unclosedParenthesis
    | .number value :: rest => suffixes (.number value) rest
    | .name name :: rest => suffixes (.symbol name) rest
    | token :: _ => .error (.unexpectedToken token)
    | [] => .error .unexpectedEnd

def ofTokens (tokens : List Token) : Except Fault Expr :=
  if tokens.isEmpty then .error .empty
  else do
    let (e, rest) ← parseFrom (tokens.length + 1) tokens
    if rest.isEmpty then return e else .error .trailingInput

def parse (text : String) : Except Fault Expr := do
  ofTokens (← tokenize text.toList)

end HeapLens.Expr
