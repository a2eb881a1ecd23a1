import HeapLens.Proofs.Shell.Prompt
import HeapLens.Proofs.Snapshot.RoundTrip

/-!
Arguments as words. Each of them is given as one word or, an option, as two; which words these are
is said here without the parser. Main statement: words that are arguments one after the other are
taken for exactly these, whatever their order, and any other text is an error of its usage.
-/
namespace HeapLens

namespace Ordered

theorem lookup_of_nodup {α : Type} {pairs : List (String × α)}
    (distinct : (pairs.map (·.1)).Nodup) {pair : String × α} (mem : pair ∈ pairs) :
    pairs.lookup pair.1 = some pair.2 := by
  obtain ⟨front, back, rfl⟩ := List.append_of_mem mem
  refine List.lookup_eq_some_iff.mpr ⟨front, back, rfl, fun other listed => ?_⟩
  rw [List.map_append, List.map_cons, List.nodup_append] at distinct
  have apart := distinct.2.2 _ (List.mem_map_of_mem listed) _ (List.mem_cons_self ..)
  exact bne_iff_ne.mpr (Ne.symm apart)

end Ordered

namespace Shell
open HeapLens.Text

namespace Item

/-- The text of a number: decimal digits, behind a plus sign or not. -/
def Amount (text : String) (value : UInt64) : Prop :=
  ∃ digits, Numeral 10 value.toNat digits ∧ (text.toList = digits ∨ text.toList = '+' :: digits)

/-- The words that an item can be given as. -/
inductive GivenAs (u : Usage) : Item → List String → Prop where
  | expression {word : String} (plain : ¬ ['-', '-'] <+: word.toList) :
      GivenAs u (.expression word) [word]
  | flag {name : String} (declared : name ∈ u.flags.map (·.1)) :
      GivenAs u (.flag name) ["--" ++ name]
  | joined {name text : String} {value : UInt64} (declared : name ∈ u.options.map (·.name))
      (amount : Amount text value) : GivenAs u (.option name value) ["--" ++ (name ++ "=" ++ text)]
  | apart {name text : String} {value : UInt64} (declared : name ∈ u.options.map (·.name))
      (amount : Amount text value) : GivenAs u (.option name value) ["--" ++ name, text]

/-- The words of some items in turn. -/
inductive AllGivenAs (u : Usage) : List Item → List String → Prop where
  | nil : AllGivenAs u [] []
  | cons {item : Item} {items : List Item} {words rest : List String}
      (first : item.GivenAs u words) (others : AllGivenAs u items rest) :
      AllGivenAs u (item :: items) (words ++ rest)

end Item

/-- Names differ from each other, and each ends before an equals sign. -/
structure Usage.WellNamed (u : Usage) : Prop where
  distinct : (u.options.map (·.name) ++ u.flags.map (·.1)).Nodup
  bare : ∀ name ∈ u.options.map (·.name) ++ u.flags.map (·.1), '=' ∉ name.toList

namespace Arguments
variable {u : Usage}

theorem setOption_eq_ok_iff (a : Arguments) {b : Arguments} (name text : String) :
    a.setOption name text = .ok b ↔
      ∃ value, Item.Amount text value ∧ b = Item.add a (.option name value) := by
  unfold setOption
  cases read : readWord 10 text.toList with
  | none =>
    refine ⟨nofun, fun ⟨value, amount, _⟩ => ?_⟩
    rw [(readWord_eq_iff (by decide)).mpr amount] at read
    cases read
  | some value =>
    constructor
    · rintro ⟨⟩
      exact ⟨value, (readWord_eq_iff (by decide)).mp read, rfl⟩
    · rintro ⟨other, amount, rfl⟩
      rw [(readWord_eq_iff (by decide)).mpr amount] at read
      cases read
      rfl

theorem setOption_error {a : Arguments} {name text : String} {e : InspectError}
    (failed : a.setOption name text = .error e) : ∃ fault, e = .usage fault := by
  unfold setOption at failed
  split at failed
  · cases failed
  · cases failed
    exact ⟨_, rfl⟩

/-! Words with two dashes. -/

theorem dashed_eq_some {word : String} {body : List Char} (dashes : dashed word = some body) :
    word = "--" ++ String.ofList body := by
  unfold dashed at dashes
  split at dashes
  · next rest shape =>
    cases dashes
    have letters : (String.ofList body).toList = body := String.toList_ofList
    rw [← String.toList_inj, shape, String.toList_append, letters]
    rfl
  · cases dashes

theorem splitValue_joined {name : String} (bare : '=' ∉ name.toList) (text : String) :
    splitValue (name ++ "=" ++ text).toList = (name, some text) := by
  have letters : (name ++ "=" ++ text).toList = name.toList ++ '=' :: text.toList := by
    rw [String.toList_append, String.toList_append, List.append_assoc]
    rfl
  have before : ∀ c ∈ name.toList, (c != '=') = true :=
    fun c member => bne_iff_ne.mpr (ne_of_mem_of_not_mem member bare)
  have stop : ¬ (('=' != '=') = true) := by decide
  unfold splitValue
  rw [letters, List.dropWhile_append_of_pos before, List.takeWhile_append_of_pos before,
    List.dropWhile_cons_of_neg (p := fun c => c != '=') stop,
    List.takeWhile_cons_of_neg (p := fun c => c != '=') stop]
  dsimp only
  rw [List.append_nil, String.ofList_toList, String.ofList_toList]

theorem splitValue_none {body : List Char} {name : String} (split : splitValue body = (name, none)) :
    String.ofList body = name := by
  unfold splitValue at split
  split at split
  · cases split
  · cases split
    rfl

theorem splitValue_some {body : List Char} {name text : String}
    (split : splitValue body = (name, some text)) : String.ofList body = name ++ "=" ++ text := by
  unfold splitValue at split
  split at split
  · next c value rest =>
    cases split
    have found : body.dropWhile (· != '=') ≠ [] := by
      rw [rest]
      exact List.cons_ne_nil c value
    have sign := List.head_dropWhile_not (· != '=') found
    simp only [rest, List.head_cons, bne_eq_false_iff_eq] at sign
    subst sign
    have whole : body.takeWhile (· != '=') ++ ['='] ++ value = body := by
      rw [List.append_assoc, List.singleton_append, ← rest]
      exact List.takeWhile_append_dropWhile
    calc
      String.ofList body = String.ofList (body.takeWhile (· != '=') ++ ['='] ++ value) := by
        rw [whole]
      _ = String.ofList (body.takeWhile (· != '=')) ++ "=" ++ String.ofList value := by
        rw [String.ofList_append, String.ofList_append]
  · cases split

theorem option_declared_iff (name : String) :
    u.options.any (·.name == name) = true ↔ name ∈ u.options.map (·.name) := by
  simp

theorem flag_declared_iff (name : String) :
    u.flags.any (·.1 == name) = true ↔ name ∈ u.flags.map (·.1) := by
  rw [List.any_eq_true, List.mem_map]
  simp only [beq_iff_eq]

/-! What each kind of word does. -/

section
variable (a : Arguments) {word name : String} {body : List Char} (rest : List String)

theorem collect_expression (plain : dashed word = none) :
    collect u a (word :: rest) = collect u (a.addExpression word) rest := by
  rw [collect, plain]

variable (dashes : dashed word = some body)
include dashes

theorem collect_joined {text : String} (split : splitValue body = (name, some text))
    (declared : u.options.any (·.name == name) = true) :
    collect u a (word :: rest) = (do collect u (← a.setOption name text) rest) := by
  rw [collect, dashes]
  dsimp only
  rw [split]
  dsimp only
  rw [if_pos declared]

theorem collect_apart {text : String} (split : splitValue body = (name, none))
    (declared : u.options.any (·.name == name) = true) :
    collect u a (word :: text :: rest) = (do collect u (← a.setOption name text) rest) := by
  rw [collect, dashes]
  dsimp only
  rw [split]
  dsimp only
  rw [if_pos declared]

theorem collect_alone (split : splitValue body = (name, none))
    (declared : u.options.any (·.name == name) = true) :
    collect u a [word] = .error (.usage (.missingValue name)) := by
  rw [collect, dashes]
  dsimp only
  rw [split]
  dsimp only
  rw [if_pos declared]

theorem collect_flag {value : Option String} (split : splitValue body = (name, value))
    (other : ¬ u.options.any (·.name == name) = true)
    (declared : (u.flags.any (·.1 == name) && value.isNone) = true) :
    collect u a (word :: rest) = collect u (a.addFlag name) rest := by
  rw [collect, dashes]
  dsimp only
  rw [split]
  dsimp only
  rw [if_neg other, if_pos declared]

theorem collect_unknown {value : Option String} (split : splitValue body = (name, value))
    (other : ¬ u.options.any (·.name == name) = true)
    (undeclared : ¬ (u.flags.any (·.1 == name) && value.isNone) = true) :
    collect u a (word :: rest) = .error (.usage (.unknownOption name)) := by
  rw [collect, dashes]
  dsimp only
  rw [split]
  dsimp only
  rw [if_neg other, if_neg undeclared]

end

/-! Words that items are given as. -/

/-- Words that an item is given as are taken for this item. -/
theorem collect_given (named : u.WellNamed) {item : Item} {words : List String}
    (given : item.GivenAs u words) (a : Arguments) (rest : List String) :
    collect u a (words ++ rest) = collect u (item.add a) rest := by
  have bare {name : String} (declared : name ∈ u.options.map (·.name)) : '=' ∉ name.toList :=
    named.bare name (List.mem_append_left _ declared)
  cases given with
  | expression free => exact collect_expression a rest ((dashed_eq_none_iff _).mpr free)
  | @flag name declared =>
    have other : ¬ u.options.any (·.name == name) = true := fun both =>
      (List.nodup_append.mp named.distinct).2.2 name ((option_declared_iff name).mp both) name
        declared rfl
    have alone := splitValue_bare (named.bare name (List.mem_append_right _ declared))
    refine collect_flag a rest (dashed_append name) alone other ?_
    rw [(flag_declared_iff name).mpr declared]
    rfl
  | @joined name text value declared amount =>
    have set := (setOption_eq_ok_iff a name text).mpr ⟨value, amount, rfl⟩
    refine (collect_joined a rest (dashed_append _) (splitValue_joined (bare declared) text)
      ((option_declared_iff name).mpr declared)).trans ?_
    rw [set]
    rfl
  | @apart name text value declared amount =>
    have set := (setOption_eq_ok_iff a name text).mpr ⟨value, amount, rfl⟩
    refine (collect_apart a rest (dashed_append name) (splitValue_bare (bare declared))
      ((option_declared_iff name).mpr declared)).trans ?_
    rw [set]
    rfl

theorem collect_all_given (named : u.WellNamed) {items : List Item} {words : List String}
    (given : Item.AllGivenAs u items words) (a : Arguments) :
    collect u a words = .ok (items.foldl Item.add a) := by
  induction given generalizing a with
  | nil => rfl
  | cons first others ih => rw [collect_given named first, ih, List.foldl_cons]

/-- The words are what some items are given as, or taking them ends in an error of their usage. -/
def GivenOr (u : Usage) (words : List String) (outcome : Except InspectError Arguments) : Prop :=
  (∃ items, Item.AllGivenAs u items words) ∨ ∃ fault, outcome = .error (.usage fault)

theorem GivenOr.cons {item : Item} {words rest : List String}
    {outcome : Except InspectError Arguments} (first : item.GivenAs u words)
    (others : GivenOr u rest outcome) : GivenOr u (words ++ rest) outcome :=
  others.imp_left fun ⟨items, given⟩ => ⟨item :: items, .cons first given⟩

/-- An option is given if the text of its value is that of a number. -/
theorem givenOr_set {name text : String} {words rest : List String} (a : Arguments)
    (given : ∀ value, Item.Amount text value → Item.GivenAs u (.option name value) words)
    (others : ∀ b, GivenOr u rest (collect u b rest)) :
    GivenOr u (words ++ rest) (do collect u (← a.setOption name text) rest) := by
  cases set : a.setOption name text with
  | error e =>
    obtain ⟨fault, rfl⟩ := setOption_error set
    exact .inr ⟨fault, rfl⟩
  | ok b =>
    obtain ⟨value, amount, -⟩ := (setOption_eq_ok_iff a name text).mp set
    exact (others b).cons (given value amount)

theorem collect_givenOr (a : Arguments) (words : List String) :
    GivenOr u words (collect u a words) := by
  induction a, words using collect.induct u with
  | case1 a => exact .inl ⟨[], .nil⟩
  | case2 a word rest plain others =>
    rw [collect_expression a rest plain]
    exact others.cons (.expression ((dashed_eq_none_iff word).mp plain))
  | case3 a word rest body dashes name declared text split others =>
    rw [collect_joined a rest dashes split declared, dashed_eq_some dashes, splitValue_some split]
    have listed := (option_declared_iff name).mp declared
    exact givenOr_set a (fun value amount => .joined listed amount) others
  | case4 a word body dashes name declared text rest split others =>
    rw [collect_apart a rest dashes split declared, dashed_eq_some dashes, splitValue_none split]
    have listed := (option_declared_iff name).mp declared
    exact givenOr_set a (fun value amount => .apart listed amount) others
  | case5 a word body dashes name declared split =>
    exact .inr ⟨_, collect_alone a dashes split declared⟩
  | case6 a word rest body dashes name value split other declared others =>
    obtain ⟨listed, none⟩ := Bool.and_eq_true_iff.mp declared
    obtain rfl := Option.isNone_iff_eq_none.mp none
    rw [collect_flag a rest dashes split other declared, dashed_eq_some dashes,
      splitValue_none split]
    exact others.cons (.flag ((flag_declared_iff name).mp listed))
  | case7 a word rest body dashes name value split other undeclared =>
    exact .inr ⟨_, collect_unknown a rest dashes split other undeclared⟩

/-! What is read off the arguments. -/

theorem splitWords_error {text : List Char} {e : InspectError}
    (failed : splitWords text = .error e) : e = .usage .unterminatedQuote := by
  unfold splitWords at failed
  dsimp only at failed
  split at failed
  · cases failed
    rfl
  · cases failed

theorem option_defaults (named : u.WellNamed) {o : NumericOption} (listed : o ∈ u.options) :
    (defaults u).option o.name = o.default := by
  have names : (u.options.map fun o => (o.name, o.default)).map (·.1) = u.options.map (·.name) := by
    rw [List.map_map]
    rfl
  have distinct : ((u.options.map fun o => (o.name, o.default)).map (·.1)).Nodup := by
    rw [names]
    exact (List.nodup_append.mp named.distinct).1
  have found := Ordered.lookup_of_nodup distinct
    (List.mem_map_of_mem (f := fun o => (o.name, o.default)) listed)
  unfold option defaults
  dsimp only
  rw [Ordered.ofPairs_of_nodup distinct, found]
  rfl

theorem hasFlag_items (items : List Item) (name : String) :
    (items.foldl Item.add (defaults u)).hasFlag name = true ↔ Item.flag name ∈ items := by
  have given (item : Item) : item.flag? = some name ↔ item = .flag name := by
    cases item <;> simp [Item.flag?]
  rw [hasFlag, flags_items, defaults, List.nil_append, List.contains_iff_mem, List.mem_filterMap]
  constructor
  · rintro ⟨item, listed, shown⟩
    rwa [(given item).mp shown] at listed
  · exact fun listed => ⟨_, listed, rfl⟩

/-- A text whose words are items in any order is taken for them: the expressions as they stand, each
option with the last value that it was given or its default, and the flags that were given. Any
other text is an error of its usage. -/
theorem parse_sorts {u : Usage} (named : u.WellNamed) (text : String) :
    (∀ words items, splitWords text.toList = .ok words → Item.AllGivenAs u items words →
      ∃ a, parse text u = .ok a ∧ a.expressions = items.filterMap Item.expression? ∧
        (∀ o ∈ u.options,
          a.option o.name = (items.filterMap (Item.value? o.name)).getLast?.getD o.default) ∧
        ∀ name, a.hasFlag name = true ↔ Item.flag name ∈ items) ∧
    ((¬ ∃ words items, splitWords text.toList = .ok words ∧ Item.AllGivenAs u items words) →
      ∃ fault, parse text u = .error (.usage fault)) := by
  constructor
  · intro words items split given
    refine ⟨items.foldl Item.add (defaults u), ?_, ?_, ?_, hasFlag_items items⟩
    · unfold parse
      rw [split]
      exact collect_all_given named given _
    · exact expressions_items items _
    · intro o listed
      rw [option_items, option_defaults named listed]
  · intro none
    unfold parse
    cases split : splitWords text.toList with
    | error e => exact ⟨_, congrArg _ (splitWords_error split)⟩
    | ok words =>
      rcases collect_givenOr (u := u) (defaults u) words with ⟨items, given⟩ | refused
      · exact absurd ⟨words, items, split, given⟩ none
      · exact refused

/-- A depth that is given twice, in both ways, between expressions and before a flag. -/
theorem inspect_sorts :
    inspectUsage.WellNamed ∧ ∃ a,
      parse "--depth=+3 '(x y)' --depth 2 z --debug" inspectUsage = .ok a ∧
        a.expressions = ["(x y)", "z"] ∧ a.option "depth" = 2 ∧ a.option "limit" = defaultLimit ∧
        a.hasFlag "debug" = true := by
  have named : inspectUsage.WellNamed := ⟨by decide, by decide⟩
  have depth : "depth" ∈ inspectUsage.options.map (·.name) := .head _
  have three : Item.Amount "+3" 3 := ⟨['3'], .digit (by decide) (.inl rfl), .inr rfl⟩
  have two : Item.Amount "2" 2 := ⟨['2'], .digit (by decide) (.inl rfl), .inl rfl⟩
  have given : Item.AllGivenAs inspectUsage
      [.option "depth" 3, .expression "(x y)", .option "depth" 2, .expression "z", .flag "debug"]
      ["--depth=+3", "(x y)", "--depth", "2", "z", "--debug"] :=
    .cons (.joined depth three) <| .cons (.expression (by decide)) <|
      .cons (.apart depth two) <| .cons (.expression (by decide)) <|
      .cons (.flag (.head _)) .nil
  obtain ⟨a, parsed, expressions, options, flags⟩ :=
    (parse_sorts named "--depth=+3 '(x y)' --depth 2 z --debug").1 _ _ rfl given
  refine ⟨named, a, parsed, expressions, ?_, ?_, (flags "debug").mpr (by decide)⟩
  · exact options _ (.head _)
  · exact options _ (.tail _ (.head _))

end Arguments
end Shell
end HeapLens
