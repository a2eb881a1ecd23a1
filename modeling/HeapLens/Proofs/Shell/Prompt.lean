import HeapLens.Proofs.Shell.Words
import HeapLens.Proofs.Text.Numeral
import HeapLens.Shell.Prompt
import HeapLens.Snapshot.Target
import Mathlib.Data.List.TakeWhile

/-!
Prompt lines made of items. Behind the name of a command stand expressions in quotes, options with
their numbers, and flags, in any order. Main statement: a line that names the inspection does what
inspecting its expressions does, with the options of the line, wherever they stand.
-/
namespace HeapLens.Shell
open HeapLens.Text

/-- What stands behind the name of a command. -/
inductive Item where
  | expression (text : String)
  | option (name : String) (value : UInt64)
  | flag (name : String)
  deriving DecidableEq, Repr

namespace Item

def spelling : Item → Spelling
  | .expression text => [(quoted text, text)]
  | .option name value =>
    [("--" ++ name, "--" ++ name), (toString value.toNat, toString value.toNat)]
  | .flag name => [("--" ++ name, "--" ++ name)]

/-- A name that is read whole behind two dashes. -/
def IsName (name : String) : Prop := ∀ c ∈ name.toList, IsPlain c ∧ c ≠ '='

instance (name : String) : Decidable (IsName name) := List.decidableBAll _ name.toList

/-- An item that a command takes for what it is. -/
def Fits (u : Usage) : Item → Prop
  | .expression text => text ≠ "" ∧ ¬ ['-', '-'] <+: text.toList
  | .option name _ => IsName name ∧ u.options.any (·.name == name) = true
  | .flag name =>
    IsName name ∧ u.options.any (·.name == name) = false ∧ u.flags.any (·.1 == name) = true

/-- The arguments after one more item. -/
def add (a : Arguments) : Item → Arguments
  | .expression text => a.addExpression text
  | .option name value => { a with options := Ordered.put a.options name value }
  | .flag name => a.addFlag name

def expression? : Item → Option String
  | .expression text => some text
  | _ => none

def value? (name : String) : Item → Option UInt64
  | .option other value => if other = name then some value else none
  | _ => none

def flag? : Item → Option String
  | .flag name => some name
  | _ => none

/-! How items are written. -/

theorem spells_number (value : UInt64) : Spells (toString value.toNat) (toString value.toNat) := by
  have numeral := numeral_toString value.toNat
  have digits : ∀ d < 10, decide (IsPlain d.digitChar) = true ∧
      decide (IsPlain d.digitChar.toUpper) = true := by decide
  apply spells_plain
  · rw [Ne, ← String.toList_eq_nil_iff]
    exact numeral.ne_nil
  · intro c member
    exact of_decide_eq_true (numeral.all (p := fun c => decide (IsPlain c)) digits c member)

theorem spells_dashed {name : String} (plain : IsName name) :
    Spells ("--" ++ name) ("--" ++ name) := by
  have letters : ("--" ++ name).toList = '-' :: '-' :: name.toList := String.toList_append
  apply spells_plain
  · rw [Ne, ← String.toList_eq_nil_iff, letters]
    exact List.cons_ne_nil _ _
  · intro c member
    rw [letters, List.mem_cons, List.mem_cons] at member
    rcases member with rfl | rfl | member
    · decide
    · decide
    · exact (plain c member).1

theorem Fits.spelled {u : Usage} {item : Item} (fits : item.Fits u) :
    ∀ p ∈ item.spelling, Spells p.1 p.2 := by
  intro p member
  cases item with
  | expression text =>
    obtain rfl := List.mem_singleton.mp member
    exact spells_quoted fits.1
  | option name value =>
    rcases List.mem_cons.mp member with rfl | member
    · exact spells_dashed fits.1
    · obtain rfl := List.mem_singleton.mp member
      exact spells_number value
  | flag name =>
    obtain rfl := List.mem_singleton.mp member
    exact spells_dashed fits.1

theorem spelled_items {u : Usage} {items : List Item} (fits : ∀ item ∈ items, item.Fits u) :
    ∀ p ∈ items.flatMap spelling, Spells p.1 p.2 := by
  intro p member
  obtain ⟨item, listed, member⟩ := List.mem_flatMap.mp member
  exact (fits item listed).spelled p member

theorem spelling_ne_nil (item : Item) : item.spelling ≠ [] := by
  cases item <;> exact List.cons_ne_nil _ _

end Item

/-! How they are taken. -/

namespace Arguments

theorem dashed_eq_none_iff (word : String) :
    dashed word = none ↔ ¬ ['-', '-'] <+: word.toList := by
  unfold dashed
  split
  · next rest shape =>
    rw [shape]
    simp
  · next other =>
    simp only [true_iff]
    rintro ⟨rest, shape⟩
    exact other rest shape.symm

theorem dashed_append (name : String) : dashed ("--" ++ name) = some name.toList := by
  unfold dashed
  rw [show ("--" ++ name).toList = '-' :: '-' :: name.toList from String.toList_append]
  rfl

theorem splitValue_bare {name : String} (bare : '=' ∉ name.toList) :
    splitValue name.toList = (name, none) := by
  have whole : name.toList.dropWhile (· != '=') = [] := by
    rw [List.dropWhile_eq_nil_iff]
    exact fun c member => bne_iff_ne.mpr (ne_of_mem_of_not_mem member bare)
  unfold splitValue
  rw [whole]
  dsimp only
  rw [String.ofList_toList]

theorem splitValue_name {name : String} (plain : Item.IsName name) :
    splitValue name.toList = (name, none) :=
  splitValue_bare fun member => (plain '=' member).2 rfl

theorem setOption_number (a : Arguments) (name : String) (value : UInt64) :
    a.setOption name (toString value.toNat) = .ok (Item.add a (.option name value)) := by
  unfold setOption
  rw [(numeral_toString value.toNat).readWord_eq (by decide)]
  rfl

theorem collect_item {u : Usage} {item : Item} (fits : item.Fits u) (a : Arguments)
    (rest : List String) :
    collect u a (Spelling.words item.spelling ++ rest) = collect u (item.add a) rest := by
  cases item with
  | expression text =>
    have plain := (dashed_eq_none_iff text).mpr fits.2
    change collect u a (text :: rest) = _
    rw [collect, plain]
    rfl
  | option name value =>
    obtain ⟨plain, declared⟩ := fits
    change collect u a (("--" ++ name) :: toString value.toNat :: rest) = _
    rw [collect, dashed_append]
    dsimp only
    rw [splitValue_name plain]
    dsimp only
    rw [if_pos declared, setOption_number]
    rfl
  | flag name =>
    obtain ⟨plain, other, declared⟩ := fits
    change collect u a (("--" ++ name) :: rest) = _
    rw [collect, dashed_append]
    dsimp only
    rw [splitValue_name plain]
    dsimp only
    rw [other, declared]
    rfl

theorem collect_items {u : Usage} {items : List Item} (fits : ∀ item ∈ items, item.Fits u)
    (a : Arguments) :
    collect u a (Spelling.words (items.flatMap Item.spelling)) = .ok (items.foldl Item.add a) := by
  induction items generalizing a with
  | nil => rfl
  | cons item items ih =>
    have words : Spelling.words ((item :: items).flatMap Item.spelling) =
        Spelling.words item.spelling ++ Spelling.words (items.flatMap Item.spelling) :=
      List.map_append
    rw [words, collect_item (fits item (List.mem_cons_self ..)),
      ih fun next member => fits next (List.mem_cons_of_mem _ member), List.foldl_cons]

theorem parse_items {u : Usage} {items : List Item} (fits : ∀ item ∈ items, item.Fits u) :
    parse (Spelling.text (items.flatMap Item.spelling)) u =
      .ok (items.foldl Item.add (defaults u)) := by
  unfold parse
  rw [Spelling.splitWords_text (Item.spelled_items fits)]
  exact collect_items fits _

/-! What the items add up to. -/

theorem expressions_items (items : List Item) (a : Arguments) :
    (items.foldl Item.add a).expressions =
      a.expressions ++ items.filterMap Item.expression? := by
  induction items generalizing a with
  | nil => exact (List.append_nil _).symm
  | cons item items ih =>
    rw [List.foldl_cons, ih]
    cases item with
    | expression text => exact List.append_assoc ..
    | option name value | flag name => rfl

theorem flags_items (items : List Item) (a : Arguments) :
    (items.foldl Item.add a).flags = a.flags ++ items.filterMap Item.flag? := by
  induction items generalizing a with
  | nil => exact (List.append_nil _).symm
  | cons item items ih =>
    rw [List.foldl_cons, ih]
    cases item with
    | flag name => exact List.append_assoc ..
    | option name value | expression text => rfl

theorem option_add (a : Arguments) (item : Item) (name : String) :
    (item.add a).option name = (item.value? name).getD (a.option name) := by
  cases item with
  | expression text | flag name => rfl
  | option other value =>
    unfold option Item.add Item.value?
    dsimp only
    split
    · next same =>
      subst same
      rw [Ordered.lookup_put_self]
      rfl
    · next different =>
      rw [Ordered.lookup_put_of_ne _ _ (Ne.symm different)]
      rfl

/-- The last value given to an option counts. -/
theorem option_items (items : List Item) (a : Arguments) (name : String) :
    (items.foldl Item.add a).option name =
      (items.filterMap (Item.value? name)).getLast?.getD (a.option name) := by
  induction items generalizing a with
  | nil => rfl
  | cons item items ih =>
    rw [List.foldl_cons, ih, option_add]
    cases given : item.value? name with
    | none => rw [List.filterMap_cons_none given]; rfl
    | some value => rw [List.filterMap_cons_some given, List.getLast?_cons]; rfl

end Arguments

/-! The line. -/

theorem splitLine_command {name rest : String} (some : name ≠ "")
    (solid : ∀ c ∈ name.toList, isBlank c = false) (trimmed : Trimmed rest.toList) :
    splitLine (name ++ " " ++ rest) = (name, rest) := by
  have letters : (name ++ " " ++ rest).toList = name.toList ++ [' '] ++ rest.toList := by
    rw [String.toList_append, String.toList_append]
    rfl
  have whole : trim (name ++ " " ++ rest).toList = name.toList ++ ' ' :: rest.toList := by
    have named := trimmed_of_all (by rwa [Ne, String.toList_eq_nil_iff]) solid
    rw [letters, (named.append [' '] trimmed).trim_eq, List.append_assoc]
    rfl
  have word : ∀ c ∈ name.toList, (!isBlank c) = true := fun c member => by
    rw [solid c member]
    rfl
  have blank : (!isBlank ' ') ≠ true := by decide
  have outer : trim (' ' :: rest.toList) = rest.toList := trimmed.trim_eq
  unfold splitLine
  rw [whole]
  dsimp only
  rw [List.takeWhile_append_of_pos word, List.dropWhile_append_of_pos word,
    List.takeWhile_cons_of_neg (p := fun c => !isBlank c) blank,
    List.dropWhile_cons_of_neg (p := fun c => !isBlank c) blank, List.append_nil, outer,
    String.ofList_toList, String.ofList_toList]

/-- A registered command is run with the arguments of the line. -/
theorem execute_command {r : Registry} {name rest : String} {e : Entry}
    (registered : r.lookup name = some e) (ordinary : name ∉ ["", "quit", "exit", "help"])
    (solid : ∀ c ∈ name.toList, isBlank c = false) (trimmed : Trimmed rest.toList) :
    execute r (name ++ " " ++ rest) = (do
      let a ← Arguments.parse rest e.usage
      e.run a
      return .next) := by
  simp only [List.mem_cons, List.not_mem_nil, or_false, not_or] at ordinary
  obtain ⟨some, quit, exit, help⟩ := ordinary
  unfold execute
  rw [splitLine_command some solid trimmed]
  dsimp only
  rw [if_neg some, if_neg (not_or.mpr ⟨quit, exit⟩), if_neg help, registered]

/-- The options of an inspection, each given once. -/
def optionItems (depth limit : UInt64) (debug : Bool) : List Item :=
  [.option "depth" depth, .option "limit" limit] ++ if debug then [.flag "debug"] else []

/-- Items that hold the expressions in their order and each of the options once, anywhere. -/
structure Arranged (expressions : List String) (depth limit : UInt64) (debug : Bool)
    (items : List Item) : Prop where
  expressions : items.filterMap Item.expression? = expressions
  options : (items.filter (·.expression?.isNone)).Perm (optionItems depth limit debug)

def inspectLine (items : List Item) : String :=
  "rb-inspect" ++ " " ++ Spelling.text (items.flatMap Item.spelling)

namespace Arranged
variable {expressions : List String} {depth limit : UInt64} {debug : Bool} {items : List Item}

theorem fits (arranged : Arranged expressions depth limit debug items)
    (filled : ∀ e ∈ expressions, e ≠ "" ∧ ¬ ['-', '-'] <+: e.toList) :
    ∀ item ∈ items, item.Fits inspectUsage := by
  intro item listed
  have option (other : item.expression?.isNone = true) : item ∈ optionItems depth limit debug :=
    arranged.options.mem_iff.mp (List.mem_filter.mpr ⟨listed, other⟩)
  cases item with
  | expression text =>
    apply filled
    rw [← arranged.expressions]
    exact List.mem_filterMap.mpr ⟨_, listed, rfl⟩
  | option name value =>
    have given := option rfl
    have named : name = "depth" ∨ name = "limit" := by
      have pair : name = "depth" ∧ value = depth ∨ name = "limit" ∧ value = limit := by
        cases debug <;> simpa [optionItems] using given
      exact pair.imp And.left And.left
    rcases named with rfl | rfl <;> exact ⟨by decide, by decide⟩
  | flag name =>
    have given := option rfl
    have named : name = "debug" := by
      cases debug with
      | false => simp [optionItems] at given
      | true => simpa [optionItems] using given
    subst named
    exact ⟨by decide, by decide, by decide⟩

/-- What only options have is had by those of the inspection alone. -/
theorem filterMap_perm {α : Type} {f : Item → Option α}
    (arranged : Arranged expressions depth limit debug items)
    (options : ∀ text, f (.expression text) = none) :
    (items.filterMap f).Perm ((optionItems depth limit debug).filterMap f) := by
  have same : (items.filter (·.expression?.isNone)).filterMap f = items.filterMap f := by
    rw [List.filterMap_filter]
    apply List.filterMap_congr
    intro item _
    cases item with
    | expression text => exact (options text).symm
    | option name value | flag name => rfl
  rw [← same]
  exact arranged.options.filterMap f

theorem option_eq (arranged : Arranged expressions depth limit debug items) {name : String}
    {value : UInt64}
    (alone : (optionItems depth limit debug).filterMap (Item.value? name) = [value]) :
    (items.foldl Item.add (Arguments.defaults inspectUsage)).option name = value := by
  have given := arranged.filterMap_perm (f := Item.value? name) fun _ => rfl
  rw [alone] at given
  rw [Arguments.option_items, List.perm_singleton.mp given]
  rfl

theorem debug_eq (arranged : Arranged expressions depth limit debug items) :
    (items.foldl Item.add (Arguments.defaults inspectUsage)).hasFlag "debug" = debug := by
  have given := arranged.filterMap_perm (f := Item.flag?) fun _ => rfl
  rw [Arguments.hasFlag, Arguments.flags_items]
  cases debug with
  | false => rw [List.perm_nil.mp given]; rfl
  | true => rw [List.perm_singleton.mp given]; rfl

/-- The command as it is run with the arguments of the line. -/
theorem run_eq (arranged : Arranged expressions depth limit debug items)
    (some : expressions ≠ []) :
    inspectEntry.run (items.foldl Item.add (Arguments.defaults inspectUsage)) =
      Console.inspect expressions ⟨depth.toNat, debug, limit⟩ := by
  let a := items.foldl Item.add (Arguments.defaults inspectUsage)
  have texts : a.expressions = expressions :=
    (Arguments.expressions_items items _).trans arranged.expressions
  have deep : a.option "depth" = depth := arranged.option_eq (by cases debug <;> rfl)
  have wide : a.option "limit" = limit := arranged.option_eq (by cases debug <;> rfl)
  unfold inspectEntry
  dsimp only
  rw [texts, if_neg (by rwa [List.isEmpty_iff]), deep, wide, arranged.debug_eq]

theorem spelling_ne_nil (arranged : Arranged expressions depth limit debug items)
    (some : expressions ≠ []) : items.flatMap Item.spelling ≠ [] := by
  cases items with
  | nil => exact absurd arranged.expressions.symm some
  | cons item items =>
    intro none
    exact item.spelling_ne_nil (List.flatMap_eq_nil_iff.mp none item (List.mem_cons_self ..))

end Arranged

/-- A line that inspects quoted expressions does what inspecting them does. -/
theorem execute_inspects {r : Registry} (registered : r.lookup "rb-inspect" = some inspectEntry)
    {expressions : List String} (some : expressions ≠ [])
    (filled : ∀ e ∈ expressions, e ≠ "" ∧ ¬ ['-', '-'] <+: e.toList) (depth limit : UInt64)
    (debug : Bool) {items : List Item} (arranged : Arranged expressions depth limit debug items)
    (c : Console) :
    execute r (inspectLine items) c =
      ((Console.inspect expressions ⟨depth.toNat, debug, limit⟩ c).1.map fun _ => Flow.next,
        (Console.inspect expressions ⟨depth.toNat, debug, limit⟩ c).2) := by
  have fits := arranged.fits filled
  have name : Item.IsName "rb-inspect" := by decide
  have line := execute_command registered (by decide) (fun c member => (name c member).1.2)
    (Spelling.trimmed_text (Item.spelled_items fits) (arranged.spelling_ne_nil some))
  have parsed : Arguments.parse (Spelling.text (items.flatMap Item.spelling)) inspectEntry.usage =
      .ok (items.foldl Item.add (Arguments.defaults inspectUsage)) := Arguments.parse_items fits
  have direct : execute r (inspectLine items) = (do
      Console.inspect expressions ⟨depth.toNat, debug, limit⟩
      return .next) := by
    rw [inspectLine, line, parsed, ← arranged.run_eq some]
    rfl
  rw [direct, Run.bind_apply]
  cases Console.inspect expressions ⟨depth.toNat, debug, limit⟩ c with
  | mk outcome after => cases outcome <;> rfl

/-- Options before, between and behind expressions with quotes, brackets and dashes in them. -/
theorem builtins_inspect_quoted :
    builtins.lookup "rb-inspect" = some inspectEntry ∧
      execute builtins
          "rb-inspect --limit 7 '(VALUE)$x->y[ 0' --debug 'it'\"'\"'s -- \"x\"' --depth 2"
          ⟨.start (patternTarget [] .standard), .unbounded⟩ =
        ((Console.inspect ["(VALUE)$x->y[ 0", "it's -- \"x\""] ⟨2, true, 7⟩
          ⟨.start (patternTarget [] .standard), .unbounded⟩).1.map fun _ => Flow.next,
        (Console.inspect ["(VALUE)$x->y[ 0", "it's -- \"x\""] ⟨2, true, 7⟩
          ⟨.start (patternTarget [] .standard), .unbounded⟩).2) := by
  have registered : builtins.lookup "rb-inspect" = some inspectEntry := rfl
  have arranged : Arranged ["(VALUE)$x->y[ 0", "it's -- \"x\""] 2 7 true
      [.option "limit" 7, .expression "(VALUE)$x->y[ 0", .flag "debug",
        .expression "it's -- \"x\"", .option "depth" 2] := ⟨rfl, by decide⟩
  refine ⟨registered, ?_⟩
  exact execute_inspects registered (List.cons_ne_nil _ _) (by decide) 2 7 true arranged _

end HeapLens.Shell
