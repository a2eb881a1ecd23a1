import HeapLens.Proofs.Json.RoundTrip
import HeapLens.Snapshot.Document

/-!
Images that are saved and loaded again. Main statement: the document of an image is read back as
that image, with its constants and symbols in their order. What is left out of the document comes
back as the default it was left out for.
-/
namespace HeapLens

namespace Ordered
variable {α : Type}

theorem nodup_put {entries : List (String × α)} (distinct : (entries.map (·.1)).Nodup)
    (key : String) (value : α) : ((put entries key value).map (·.1)).Nodup := by
  rw [keys_put]
  split
  · exact distinct
  · next new => exact List.nodup_append.mpr ⟨distinct, by simp, by grind⟩

theorem nodup_ofPairs (pairs : List (String × α)) : ((ofPairs pairs).map (·.1)).Nodup := by
  have kept (pairs : List (String × α)) : ∀ entries : List (String × α),
      (entries.map (·.1)).Nodup →
      ((pairs.foldl (fun entries p => put entries p.1 p.2) entries).map (·.1)).Nodup := by
    induction pairs with
    | nil => exact fun entries distinct => distinct
    | cons p pairs ih => exact fun entries distinct => ih _ (nodup_put distinct p.1 p.2)
  exact kept pairs [] .nil

theorem foldl_put_new {entries pairs : List (String × α)}
    (distinct : ((entries ++ pairs).map (·.1)).Nodup) :
    pairs.foldl (fun entries p => put entries p.1 p.2) entries = entries ++ pairs := by
  induction pairs generalizing entries with
  | nil => simp
  | cons p pairs ih =>
    have new : p.1 ∉ entries.map (·.1) := by
      rw [List.map_append, List.nodup_append] at distinct
      exact fun among => distinct.2.2 _ among _ (.head _) rfl
    rw [List.append_cons] at distinct
    rw [List.foldl_cons, put_append_new entries p.1 p.2 new, ih distinct, ← List.append_cons]

theorem ofPairs_of_nodup {pairs : List (String × α)} (distinct : (pairs.map (·.1)).Nodup) :
    ofPairs pairs = pairs := @foldl_put_new α [] pairs distinct

end Ordered

namespace Snapshot

/-- No constant and no symbol stands twice. Every image that is built or loaded is distinct. -/
structure Distinct (s : Snapshot) : Prop where
  constants : (s.constants.map (·.1)).Nodup
  symbols : (s.symbols.map (·.1)).Nodup

theorem nodup_readTable {α : Type} {item : Json → Option α} {j : Json} {entries : List (String × α)}
    (read : readTable item j = some entries) : (entries.map (·.1)).Nodup := by
  cases j with
  | object members =>
    obtain ⟨pairs, -, made⟩ := Option.bind_eq_some_iff.mp read
    cases made
    exact Ordered.nodup_ofPairs pairs
  | _ => cases read

theorem nodup_readOr {α : Type} {item : Json → Option α} {field : Option Json}
    {entries : List (String × α)} (read : readOr [] (readTable item) field = some entries) :
    (entries.map (·.1)).Nodup := by
  cases field with
  | none => cases read; exact .nil
  | some j => exact nodup_readTable read

theorem distinct_of_parse {text : String} {s : Snapshot} (loaded : parse text = .ok s) :
    s.Distinct := by
  unfold parse at loaded
  split at loaded
  · next image found =>
    cases loaded
    obtain ⟨j, -, found⟩ := Option.bind_eq_some_iff.mp found
    obtain ⟨fields, -, found⟩ := Option.bind_eq_some_iff.mp found
    split at found
    · obtain ⟨build, -, found⟩ := Option.bind_eq_some_iff.mp found
      obtain ⟨constants, first, found⟩ := Option.bind_eq_some_iff.mp found
      obtain ⟨symbols, second, found⟩ := Option.bind_eq_some_iff.mp found
      obtain ⟨regions, -, found⟩ := Option.bind_eq_some_iff.mp found
      cases found
      exact ⟨nodup_readOr first, nodup_readOr second⟩
    · cases found
  · cases loaded

theorem distinct_empty : empty.Distinct := ⟨.nil, .nil⟩

theorem Distinct.withConstant {s : Snapshot} (distinct : s.Distinct) (name : String)
    (value : Int64) : (s.withConstant name value).Distinct :=
  ⟨Ordered.nodup_put distinct.constants name value, distinct.symbols⟩

theorem Distinct.withSymbol {s : Snapshot} (distinct : s.Distinct) (name : String)
    (definition : SymbolDef) : (s.withSymbol name definition).Distinct :=
  ⟨distinct.constants, Ordered.nodup_put distinct.symbols name definition⟩

/-! Single values. -/

theorem readNatural_natural {bound n : Nat} (small : n < bound) :
    readNatural bound (.natural n) = some n := if_pos small

theorem readWord_wordJson (w : UInt64) : readWord (wordJson w) = some w := by
  unfold readWord wordJson
  rw [readNatural_natural w.toNat_lt, Option.map_some, UInt64.ofNat_toNat]

theorem readByte_natural (b : UInt8) : readByte (.natural b.toNat) = some b := by
  unfold readByte
  rw [readNatural_natural b.toNat_lt, Option.map_some, UInt8.ofNat_toNat]

/-- The least integer is written with a magnitude that no other one has. -/
theorem readSigned_ofInt (i : Int64) : readSigned (.ofInt i.toInt) = some i := by
  have low := i.le_toInt
  have high := i.toInt_lt
  have bit : signBit = 2 ^ 63 := rfl
  unfold Json.ofInt
  by_cases negative : i.toInt < 0
  · have magnitude : -(i.toInt.natAbs : Int) = i.toInt := by omega
    rw [decide_eq_true negative, readSigned, if_pos (by omega), magnitude, Int64.ofInt_toInt]
  · have magnitude : (i.toInt.natAbs : Int) = i.toInt := by omega
    rw [decide_eq_false negative, readSigned, if_pos (by omega), ← Int64.ofInt_eq_ofNat, magnitude,
      Int64.ofInt_toInt]

theorem mapM_written {α β : Type} {f : β → Option α} {write : α → β}
    (back : ∀ a, f (write a) = some a) (items : List α) :
    (items.map write).mapM f = some items := by
  induction items with
  | nil => rfl
  | cons a items ih => rw [List.map_cons, List.mapM_cons, back, ih]; rfl

section
variable {α : Type} {item : Json → Option α} {write : α → Json}
  (back : ∀ a, item (write a) = some a)
include back

theorem readList_written (items : List α) :
    readList item (.array (items.map write)) = some items := mapM_written back items

theorem readTable_written {entries : List (String × α)}
    (distinct : (entries.map (·.1)).Nodup) :
    readTable item (.record (entries.map fun e => (e.1, write e.2))) = some entries := by
  have pairs : (entries.map fun e => ((some e.1, write e.2) : Option String × Json)).mapM
      (fun m => do return ((← m.1, ← item m.2) : String × α)) = some entries := by
    apply mapM_written
    intro e
    simp [back]
  unfold readTable Json.record
  dsimp only
  rw [List.map_map]
  exact (congrArg (Option.bind · fun pairs => some (Ordered.ofPairs pairs)) pairs).trans
    (congrArg some (Ordered.ofPairs_of_nodup distinct))

end

/-! Structures: a field that was left out is read as its default. -/

/-- The member for a field, if the field is not left out. -/
def present (field : String × Option Json) : List (String × Json) :=
  (field.2.map fun value => (field.1, value)).toList

theorem keys_present (fields : List (String × Option Json)) :
    ((fields.flatMap present).map (·.1)).Sublist (fields.map (·.1)) := by
  induction fields with
  | nil => exact List.Sublist.refl _
  | cons field fields ih =>
    obtain ⟨name, value⟩ := field
    cases value with
    | none => exact ih.cons name
    | some value => exact ih.cons_cons name

theorem lookup_present {fields : List (String × Option Json)}
    (distinct : (fields.map (·.1)).Nodup) :
    ∀ field ∈ fields, (fields.flatMap present).lookup field.1 = field.2 := by
  induction fields with
  | nil => exact nofun
  | cons first fields ih =>
    obtain ⟨fresh, distinct⟩ := List.nodup_cons.mp distinct
    intro field among
    rw [List.flatMap_cons, List.lookup_append]
    rcases List.mem_cons.mp among with rfl | later
    · have absent : (fields.flatMap present).lookup field.1 = none := by
        rw [List.lookup_eq_none_iff]
        intro m member
        have known := (keys_present fields).subset (List.mem_map_of_mem member)
        apply bne_iff_ne.mpr
        intro same
        rw [← same] at known
        exact fresh known
      rw [absent, Option.or_none]
      cases value : field.2 <;> simp [present, value]
    · have other : (present first).lookup field.1 = none := by
        have differ : (field.1 == first.1) = false := by
          have known := List.mem_map_of_mem (f := (·.1)) later
          apply beq_eq_false_iff_ne.mpr
          intro same
          rw [same] at known
          exact fresh known
        cases value : first.2 <;> simp [present, value, List.lookup_cons, differ]
      rw [other, Option.none_or, ih distinct field later]

theorem readFields_present (names : List String) {fields : List (String × Option Json)}
    (named : fields.map (·.1) = names) (distinct : names.Nodup) :
    readFields names (.record (fields.flatMap present)) = some (fields.map (·.2)) := by
  subst named
  have spelled (members : List (String × Json)) :
      (members.map fun m => ((some m.1, m.2) : Option String × Json)).mapM
        (fun m => do return ((← m.1, m.2) : String × Json)) = some members := by
    apply mapM_written
    intro m
    rfl
  have keys := keys_present fields
  have known : (fields.flatMap present).filter (fun m => (fields.map (·.1)).contains m.1) =
      fields.flatMap present := by
    apply List.filter_eq_self.mpr
    intro m among
    exact List.contains_iff_mem.mpr (keys.subset (List.mem_map_of_mem among))
  unfold readFields Json.record
  dsimp only
  rw [spelled]
  change (if (((fields.flatMap present).filter _).map (·.1)).Nodup then
    some ((fields.map (·.1)).map fun name => ((fields.flatMap present).filter _).lookup name)
    else none) = _
  rw [known, if_pos (distinct.sublist keys), List.map_map]
  exact congrArg some (List.map_congr_left (lookup_present distinct))

theorem optionalMember_eq {α : Type} (name : String) (write : α → Json) (o : Option α) :
    optionalMember name write o = present (name, o.map write) := by
  cases o <;> rfl

theorem listMember_eq {α : Type} (name : String) (write : α → Json) (items : List α) :
    listMember name write items =
      present (name, if items.isEmpty then none else some (.array (items.map write))) := by
  unfold listMember
  split <;> rfl

theorem readOr_word (word : Option UInt64) :
    readOr none (readOptional readWord) (word.map wordJson) = some word := by
  cases word with
  | none => rfl
  | some w => exact congrArg (Option.map some) (readWord_wordJson w)

theorem readOr_list {α : Type} {item : Json → Option α} {write : α → Json}
    (back : ∀ a, item (write a) = some a) (items : List α) :
    readOr [] (readList item) (if items.isEmpty then none else some (.array (items.map write))) =
      some items := by
  split
  · next empty => rw [List.isEmpty_iff.mp empty]; rfl
  · exact readList_written back items

theorem readOr_text (s : String) :
    readOr "" readString (if s.isEmpty then none else some (.string s)) = some s := by
  split
  · next empty => rw [String.isEmpty_iff.mp empty]; rfl
  · rfl

/-! The fields of each structure, with those that are left out. -/

def symbolFields (d : SymbolDef) : List (String × Option Json) :=
  [("value", d.value.map wordJson), ("address", d.address.map wordJson),
   ("type", some (.string d.type))]

def regionFields (r : Region) : List (String × Option Json) :=
  [("address", some (wordJson r.address)),
   ("words", if r.words.isEmpty then none else some (.array (r.words.map wordJson))),
   ("bytes", if r.bytes.isEmpty then none
     else some (.array (r.bytes.map fun b => .natural b.toNat))),
   ("text", if r.text.isEmpty then none else some (.string r.text))]

def imageFields (s : Snapshot) : List (String × Option Json) :=
  [("build_id", some (.string s.build)),
   ("constants", some (.record (s.constants.map fun c => (c.1, .ofInt c.2.toInt)))),
   ("symbols", some (.record (s.symbols.map fun d => (d.1, symbolJson d.2)))),
   ("regions", some (.array (s.regions.map regionJson)))]

theorem symbolJson_eq (d : SymbolDef) :
    symbolJson d = .record ((symbolFields d).flatMap present) := by
  rw [symbolJson, optionalMember_eq, optionalMember_eq]
  simp [symbolFields, present]

theorem regionJson_eq (r : Region) : regionJson r = .record ((regionFields r).flatMap present) := by
  rw [regionJson, listMember_eq, listMember_eq]
  cases empty : r.text.isEmpty <;> simp [regionFields, present, empty]

theorem toJson_eq (s : Snapshot) : s.toJson = .record ((imageFields s).flatMap present) := rfl

theorem readSymbol_symbolJson (d : SymbolDef) : readSymbol (symbolJson d) = some d := by
  rw [symbolJson_eq, readSymbol, readFields_present ["value", "address", "type"] rfl (by decide)]
  simp only [symbolFields, List.map_cons, List.map_nil, Option.bind_eq_bind, Option.bind_some,
    readOr_word]
  rfl

theorem readRegion_regionJson (r : Region) : readRegion (regionJson r) = some r := by
  rw [regionJson_eq, readRegion,
    readFields_present ["address", "words", "bytes", "text"] rfl (by decide)]
  simp only [regionFields, List.map_cons, List.map_nil, Option.bind_eq_bind, Option.bind_some,
    readWord_wordJson, readOr_list readWord_wordJson, readOr_list readByte_natural, readOr_text]
  rfl

theorem ofJson?_toJson {s : Snapshot} (distinct : s.Distinct) : ofJson? s.toJson = some s := by
  rw [toJson_eq, ofJson?,
    readFields_present ["build_id", "constants", "symbols", "regions"] rfl (by decide)]
  simp only [imageFields, List.map_cons, List.map_nil, Option.bind_eq_bind, Option.bind_some,
    readOr, readTable_written readSigned_ofInt distinct.constants,
    readTable_written readSymbol_symbolJson distinct.symbols,
    readList_written readRegion_regionJson]
  rfl

/-! Nothing in the document of an image is ambiguous in its pretty form. -/

theorem written_present {fields : List (String × Option Json)}
    (each : ∀ field ∈ fields, ∀ j ∈ field.2, Json.Written j) :
    Json.Written (.record (fields.flatMap present)) := by
  refine .record _ fun m among => ?_
  obtain ⟨field, known, shown⟩ := List.mem_flatMap.mp among
  obtain ⟨j, value, rfl⟩ := Option.map_eq_some_iff.mp (Option.mem_toList.mp shown)
  exact each field known j value

theorem written_list {α : Type} {write : α → Json} (each : ∀ a, Json.Written (write a))
    (items : List α) : Json.Written (.array (items.map write)) := by
  refine .array _ fun j among => ?_
  obtain ⟨a, -, rfl⟩ := List.mem_map.mp among
  exact each a

theorem written_table {α : Type} {write : α → Json} (each : ∀ a, Json.Written (write a))
    (entries : List (String × α)) :
    Json.Written (.record (entries.map fun e => (e.1, write e.2))) := by
  refine .record _ fun m among => ?_
  obtain ⟨e, -, rfl⟩ := List.mem_map.mp among
  exact each e.2

theorem written_symbolJson (d : SymbolDef) : Json.Written (symbolJson d) := by
  rw [symbolJson_eq]
  apply written_present
  intro field among j value
  simp only [symbolFields, List.mem_cons, List.not_mem_nil, or_false] at among
  rcases among with rfl | rfl | rfl
  · obtain ⟨w, -, rfl⟩ := Option.map_eq_some_iff.mp value
    exact .integer _ _
  · obtain ⟨w, -, rfl⟩ := Option.map_eq_some_iff.mp value
    exact .integer _ _
  · cases value
    exact .string _

theorem written_regionJson (r : Region) : Json.Written (regionJson r) := by
  rw [regionJson_eq]
  apply written_present
  intro field among j value
  simp only [regionFields, List.mem_cons, List.not_mem_nil, or_false] at among
  rcases among with rfl | rfl | rfl | rfl
  · cases value
    exact .integer _ _
  · obtain ⟨-, some⟩ := Option.ite_none_left_eq_some.mp value
    cases some
    exact written_list (fun w => .integer _ _) _
  · obtain ⟨-, some⟩ := Option.ite_none_left_eq_some.mp value
    cases some
    exact written_list (fun b => .integer _ _) _
  · obtain ⟨-, some⟩ := Option.ite_none_left_eq_some.mp value
    cases some
    exact .string _

theorem written_toJson (s : Snapshot) : Json.Written s.toJson := by
  rw [toJson_eq]
  apply written_present
  intro field among j value
  simp only [imageFields, List.mem_cons, List.not_mem_nil, or_false] at among
  rcases among with rfl | rfl | rfl | rfl
  · cases value
    exact .string _
  · have each (n : Int64) : Json.Written (.ofInt n.toInt) := .integer _ _
    cases value
    exact written_table each _
  · cases value
    exact written_table written_symbolJson _
  · cases value
    exact written_list written_regionJson _

/-- A saved image is loaded again as it was, whatever its strings and numbers. -/
theorem parse_document {s : Snapshot} (distinct : s.Distinct) : parse s.document = .ok s := by
  unfold parse document
  rw [(written_toJson s).read_toPretty, Option.bind_some, ofJson?_toJson distinct]

/-- An image with every kind of escape, the ends of both integer ranges and all that can be left
out. -/
def spelled : Snapshot where
  build := "\"\\/\n\x01\x7f𝄞"
  constants := [("", Int64.minValue), ("RUBY_T_MASK", 31), ("\t", Int64.maxValue)]
  symbols := [("$a", ⟨some 0xffffffffffffffff, none, "VALUE"⟩), ("\"b\"", ⟨none, some 0, ""⟩),
    ("c", ⟨none, none, "é"⟩), ("d", ⟨some 1, some 2, "VALUE *"⟩)]
  regions := [⟨0, [], [], ""⟩, ⟨0xffffffffffffff00, [7, 0xffffffffffffffff], [0, 255], "\x00"⟩]

theorem spelled_parse_document : spelled.Distinct ∧ parse spelled.document = .ok spelled := by
  have distinct : spelled.Distinct := ⟨by decide, by decide⟩
  exact ⟨distinct, parse_document distinct⟩

end Snapshot
end HeapLens
