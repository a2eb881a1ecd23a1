/-!
JSON documents. Members of an object keep their order and may repeat a name; an integer keeps its
sign apart from its magnitude, so that minus zero is told from zero. A string whose escapes leave
a surrogate unpaired stands for no text and is kept as nothing; a number with a fraction or an
exponent is kept as it is spelled.
-/
namespace HeapLens

inductive Json where
  | null
  | bool (value : Bool)
  | integer (negative : Bool) (magnitude : Nat)
  | decimal (lexeme : String)
  | text (value : Option String)
  | array (items : List Json)
  | object (members : List (Option String × Json))

namespace Json

def string (s : String) : Json := .text (some s)

def natural (n : Nat) : Json := .integer false n

def ofInt (i : Int) : Json := .integer (i < 0) i.natAbs

def record (members : List (String × Json)) : Json :=
  .object (members.map fun m => (some m.1, m.2))

end Json
end HeapLens
