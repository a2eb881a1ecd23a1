import HeapLens.Error
import HeapLens.Json.Reader
import HeapLens.Json.Writer
import HeapLens.Snapshot.Basic

/-!
Images as JSON documents. A structure is read from an object, whose unknown members are passed
over and whose known ones may not repeat, or from an array of its fields in order; fields with a
default may be left out. Integers have to be written as integers and lie in the range of the field.
An object that is a table by name keeps the first place and the last value of a repeated name.
-/
namespace HeapLens.Snapshot

def readNatural (bound : Nat) : Json → Option Nat
  | .integer false n => if n < bound then some n else none
  | _ => none

def readWord (j : Json) : Option UInt64 := (readNatural UInt64.size j).map UInt64.ofNat

def readByte (j : Json) : Option UInt8 := (readNatural UInt8.size j).map UInt8.ofNat

/-- The magnitude of the least signed integer of 64 bits. -/
def signBit : Nat := 0x8000000000000000

/-- A signed integer of 64 bits; minus zero is not one. -/
def readSigned : Json → Option Int64
  | .integer false n => if n < signBit then some (Int64.ofNat n) else none
  | .integer true n => if 0 < n ∧ n ≤ signBit then some (Int64.ofInt (-n)) else none
  | _ => none

def readString : Json → Option String
  | .text (some s) => some s
  | _ => none

def readOptional {α : Type} (item : Json → Option α) : Json → Option (Option α)
  | .null => some none
  | j => (item j).map some

def readList {α : Type} (item : Json → Option α) : Json → Option (List α)
  | .array items => items.mapM item
  | _ => none

def readTable {α : Type} (item : Json → Option α) : Json → Option (List (String × α))
  | .object members => do
    let pairs ← members.mapM fun m => do return (← m.1, ← item m.2)
    return Ordered.ofPairs pairs
  | _ => none

/-- The fields of a structure, each present or not, from an object or an array. -/
def readFields (names : List String) : Json → Option (List (Option Json))
  | .object members => do
    let named ← members.mapM fun m => do return (← m.1, m.2)
    let known := named.filter fun m => names.contains m.1
    if (known.map (·.1)).Nodup then return names.map fun name => known.lookup name else none
  | .array items =>
    if items.length ≤ names.length then
      some (items.map some ++ List.replicate (names.length - items.length) none)
    else none
  | _ => none

def readOr {α : Type} (default : α) (item : Json → Option α) : Option Json → Option α
  | some j => item j
  | none => some default

def readSymbol (j : Json) : Option SymbolDef := do
  match ← readFields ["value", "address", "type"] j with
  | [value, address, type] =>
    return ⟨← readOr none (readOptional readWord) value,
      ← readOr none (readOptional readWord) address,
      ← readOr defaultType readString type⟩
  | _ => none

def readRegion (j : Json) : Option Region := do
  match ← readFields ["address", "words", "bytes", "text"] j with
  | [some address, words, bytes, text] =>
    return ⟨← readWord address,
      ← readOr [] (readList readWord) words,
      ← readOr [] (readList readByte) bytes,
      ← readOr "" readString text⟩
  | _ => none

def ofJson? (j : Json) : Option Snapshot := do
  match ← readFields ["build_id", "constants", "symbols", "regions"] j with
  | [build, constants, symbols, regions] =>
    return ⟨← readOr "" readString build,
      ← readOr [] (readTable readSigned) constants,
      ← readOr [] (readTable readSymbol) symbols,
      ← readOr [] (readList readRegion) regions⟩
  | _ => none

def parse (text : String) : Except InspectError Snapshot :=
  match (Json.read text).bind ofJson? with
  | some s => .ok s
  | none => .error (.snapshot .malformed)

/-- A member that is left out when there is nothing to say. -/
def optionalMember {α : Type} (name : String) (write : α → Json) : Option α → List (String × Json)
  | some a => [(name, write a)]
  | none => []

def wordJson (w : UInt64) : Json := .natural w.toNat

def listMember {α : Type} (name : String) (write : α → Json) (items : List α) :
    List (String × Json) :=
  if items.isEmpty then [] else [(name, .array (items.map write))]

def symbolJson (d : SymbolDef) : Json :=
  .record (optionalMember "value" wordJson d.value ++ optionalMember "address" wordJson d.address ++
    [("type", .string d.type)])

def regionJson (r : Region) : Json :=
  .record ([("address", wordJson r.address)] ++ listMember "words" wordJson r.words ++
    listMember "bytes" (fun b => .natural b.toNat) r.bytes ++
    (if r.text.isEmpty then [] else [("text", .string r.text)]))

def toJson (s : Snapshot) : Json :=
  .record
    [("build_id", .string s.build),
     ("constants", .record (s.constants.map fun c => (c.1, .ofInt c.2.toInt))),
     ("symbols", .record (s.symbols.map fun d => (d.1, symbolJson d.2))),
     ("regions", .array (s.regions.map regionJson))]

def document (s : Snapshot) : String := s.toJson.toPretty

end HeapLens.Snapshot
