import HeapLens.Json.Reader
import HeapLens.Json.Writer
import HeapLens.Proofs.Text.Numeral

/-!
Documents that are written and read again. Main statement: the pretty form of a document is read
back as that document, with whatever stands behind it left over, if the document has no number that
is not an integer and no string that stands for no text.
-/
namespace HeapLens.Json
open HeapLens.Text

/-! Strings: every escape is undone, and a character never looks like half of a pair. -/

theorem hexUnit_of_control : ∀ n < 0x20,
    hexUnit '0' '0' (hexDigit (n / 16)) (hexDigit (n % 16)) = some n := by
  decide

theorem scanUnits_escapeChar (found : List Nat) (c : Char) (rest : List Char) :
    scanUnits found (escapeChar c ++ rest) = scanUnits (c.toNat :: found) rest := by
  unfold escapeChar
  split
  · next quote => subst quote; rfl
  split
  · next backslash => subst backslash; rfl
  split
  · next backspace => subst backspace; rfl
  split
  · next feed => subst feed; rfl
  split
  · next newline => subst newline; rfl
  split
  · next carriage => subst carriage; rfl
  split
  · next tab => subst tab; rfl
  split
  · next control =>
    simp only [List.cons_append, List.nil_append, scanUnits, hexUnit_of_control _ control]
  · next backslash _ _ _ _ _ printed =>
    simp [scanUnits, backslash, printed]

theorem scanUnits_escaped (found : List Nat) (cs rest : List Char) :
    scanUnits found (cs.flatMap escapeChar ++ '"' :: rest) =
      some ((cs.map Char.toNat).reverse ++ found, rest) := by
  induction cs generalizing found with
  | nil => rfl
  | cons c cs ih =>
    rw [List.flatMap_cons, List.append_assoc, scanUnits_escapeChar, ih]
    simp

theorem not_surrogate (c : Char) : isLow c.toNat = false ∧ isHigh c.toNat = false := by
  have valid := c.valid
  simp only [isLow, isHigh, Bool.and_eq_false_iff, decide_eq_false_iff_not]
  rcases valid with low | ⟨high, -⟩
  · have small : c.toNat < 0xd800 := low
    omega
  · have large : 0xdfff < c.toNat := high
    omega

theorem joinUnits_characters (found cs : List Char) :
    joinUnits found (cs.map Char.toNat) = some (cs.reverse ++ found) := by
  induction cs generalizing found with
  | nil => rfl
  | cons c cs ih =>
    obtain ⟨low, high⟩ := not_surrogate c
    cases cs with
    | nil => simp [joinUnits, low, high]
    | cons d cs =>
      have next := ih (c :: found)
      rw [List.map_cons] at next
      rw [List.map_cons, List.map_cons, joinUnits, low, high, Char.ofNat_toNat]
      simp [next]

theorem scanText_quoted (s : String) (rest : List Char) :
    scanText (s.toList.flatMap escapeChar ++ '"' :: rest) = some (some s, rest) := by
  have joined := joinUnits_characters [] s.toList.reverse
  rw [List.reverse_reverse, List.append_nil, List.map_reverse] at joined
  unfold scanText
  rw [scanUnits_escaped, List.append_nil]
  simp [joined]

theorem quote_append (s : String) (rest : List Char) :
    quote s ++ rest = '"' :: (s.toList.flatMap escapeChar ++ '"' :: rest) := by
  simp [quote]

/-! Numbers: nothing that follows an integer in a document makes it longer. -/

/-- What can follow a value in the pretty form: nothing, a comma or a new line. -/
def Delimited (rest : List Char) : Prop := ∀ c ∈ rest.head?, c = ',' ∨ c = '\n'

theorem delimited_nil : Delimited [] := nofun

theorem delimited_comma (rest : List Char) : Delimited (',' :: rest) := by
  intro c head
  exact .inl (Option.some.inj head).symm

theorem delimited_breakLine (level : Nat) (rest : List Char) :
    Delimited (breakLine level ++ rest) := by
  intro c head
  exact .inr (Option.some.inj head).symm

theorem scanDigits_append {digits rest : List Char} (all : ∀ c ∈ digits, c.isDigit = true)
    (stop : ∀ c ∈ rest.head?, c.isDigit = false) :
    scanDigits (digits ++ rest) = (digits, rest) := by
  unfold scanDigits
  rw [List.takeWhile_append_of_pos all, List.dropWhile_append_of_pos all]
  cases rest with
  | nil => simp
  | cons c rest => simp [stop c rfl]

theorem no_leading_zero {n : Nat} (positive : 0 < n) : (Nat.toDigits 10 n).head? ≠ some '0' := by
  induction n using Nat.base_induction 10 (by decide) with
  | single d small =>
    rw [Nat.toDigits_of_lt_base small]
    revert d
    decide
  | digit n d small pos ih =>
    have front : Nat.toDigits 10 n ≠ [] := (numeral_toDigits (by decide) n).ne_nil
    have known := ih pos
    rw [List.head?_eq_some_head front] at known
    rw [← Nat.toDigits_append_toDigits (by decide) pos small, List.head?_append,
      List.head?_eq_some_head front]
    exact known

theorem scanNumber_integer (negative : Bool) (n : Nat) {rest : List Char}
    (delimited : Delimited rest) :
    scanNumber negative (Nat.toDigits 10 n ++ rest) = some (.integer negative n, rest) := by
  have numeral : Numeral 10 n (Nat.toDigits 10 n) := numeral_toDigits (by decide) n
  have digits : ∀ c ∈ Nat.toDigits 10 n, c.isDigit = true := numeral.all isDigit_digitChar
  have stop : ∀ c ∈ rest.head?, c.isDigit = false := by
    intro c head
    rcases delimited c head with rfl | rfl <;> rfl
  have plain : ¬ ((Nat.toDigits 10 n).length > 1 ∧ (Nat.toDigits 10 n).head? = some '0') := by
    rintro ⟨long, zero⟩
    rcases Nat.eq_zero_or_pos n with rfl | positive
    · exact absurd long (by decide)
    · exact no_leading_zero positive zero
  have fraction : scanFraction rest = some (false, rest) := by
    cases rest with
    | nil => rfl
    | cons c rest => rcases delimited c rfl with rfl | rfl <;> rfl
  have exponent : scanExponent rest = some (false, rest) := by
    cases rest with
    | nil => rfl
    | cons c rest => rcases delimited c rfl with rfl | rfl <;> rfl
  unfold scanNumber
  rw [scanDigits_append digits stop]
  simp [numeral.readNat_eq (by decide), fraction, exponent]
  simpa using plain

/-! Values: a document is written over lines, and reading skips the line breaks again. -/

/-- A document without the two kinds of value that the pretty form cannot tell from others. -/
inductive Written : Json → Prop where
  | null : Written .null
  | bool (value : Bool) : Written (.bool value)
  | integer (negative : Bool) (magnitude : Nat) : Written (.integer negative magnitude)
  | string (s : String) : Written (.string s)
  | array (items : List Json) (each : ∀ item ∈ items, Written item) : Written (.array items)
  | record (members : List (String × Json)) (each : ∀ m ∈ members, Written m.2) :
      Written (.record members)

/-- Members whose names stand for text. -/
def named (members : List (String × Json)) : List (Option String × Json) :=
  members.map fun m => (some m.1, m.2)

theorem breakLine_spaces (level : Nat) : ∀ c ∈ breakLine level, isSpace c = true := by
  intro c among
  rcases List.mem_cons.mp among with rfl | blank
  · rfl
  · rw [(List.mem_replicate.mp blank).2]
    rfl

theorem skipSpace_cons {c : Char} (printed : isSpace c = false) (rest : List Char) :
    skipSpace (c :: rest) = c :: rest := by
  simp [skipSpace, printed]

section
variable {blank : List Char} (spaces : ∀ c ∈ blank, isSpace c = true) (steps : Nat)
  (rest : List Char)
include spaces

theorem skipSpace_append : skipSpace (blank ++ rest) = skipSpace rest :=
  List.dropWhile_append_of_pos spaces

theorem readValue_append : readValue steps (blank ++ rest) = readValue steps rest := by
  cases steps with
  | zero => rfl
  | succ steps => rw [readValue, readValue, skipSpace_append spaces]

theorem readItems_append (found : List Json) :
    readItems steps found (blank ++ rest) = readItems steps found rest := by
  cases steps with
  | zero => rfl
  | succ steps => rw [readItems, readItems, readValue_append spaces]

theorem readMembers_append (found : List (Option String × Json)) :
    readMembers steps found (blank ++ rest) = readMembers steps found rest := by
  cases steps with
  | zero => rfl
  | succ steps => rw [readMembers, readMembers, skipSpace_append spaces]

end

theorem isSpace_digit {c : Char} (digit : c.isDigit = true) : isSpace c = false := by
  apply Bool.eq_false_iff.mpr
  intro space
  simp only [isSpace, Bool.or_eq_true, beq_iff_eq] at space
  rcases space with ((rfl | rfl) | rfl) | rfl <;> cases digit

theorem toDigits_head (n : Nat) :
    ∃ c cs, Nat.toDigits 10 n = c :: cs ∧ c.isDigit = true := by
  have numeral : Numeral 10 n (Nat.toDigits 10 n) := numeral_toDigits (by decide) n
  cases digits : Nat.toDigits 10 n with
  | nil => exact absurd digits numeral.ne_nil
  | cons c cs =>
    rw [digits] at numeral
    exact ⟨c, cs, rfl, numeral.all isDigit_digitChar c (.head _)⟩

theorem readValue_digit (steps : Nat) {c : Char} (digit : c.isDigit = true) (rest : List Char) :
    readValue (steps + 1) (c :: rest) = scanNumber false (c :: rest) := by
  rw [readValue, skipSpace_cons (isSpace_digit digit)]
  split
  all_goals
    first
    | rfl
    | next same => cases same; cases digit

theorem readValue_quoted (steps : Nat) (s : String) (rest : List Char) :
    readValue (steps + 1) (quote s ++ rest) = some (.text (some s), rest) := by
  rw [quote_append, readValue, skipSpace_cons rfl]
  simp only [scanText_quoted]

/-- A value begins with a character that is neither white space nor the end of a list. -/
theorem Written.head {j : Json} (written : Written j) (level : Nat) :
    ∃ c cs, pretty level j = c :: cs ∧ isSpace c = false ∧ c ≠ ']' := by
  cases written with
  | null => exact ⟨_, _, rfl, rfl, by decide⟩
  | bool value => cases value <;> exact ⟨_, _, rfl, rfl, by decide⟩
  | integer negative magnitude =>
    cases negative with
    | true => exact ⟨_, _, rfl, rfl, by decide⟩
    | false =>
      obtain ⟨c, cs, digits, digit⟩ := toDigits_head magnitude
      refine ⟨c, cs, digits, isSpace_digit digit, ?_⟩
      rintro rfl
      cases digit
  | string s => exact ⟨_, _, rfl, rfl, by decide⟩
  | array items each => cases items <;> exact ⟨_, _, rfl, rfl, by decide⟩
  | record members each => cases members <;> exact ⟨_, _, rfl, rfl, by decide⟩

theorem Written.some_step {j : Json} (written : Written j) {level steps : Nat}
    (enough : (pretty level j).length ≤ steps) : ∃ k, steps = k + 1 := by
  obtain ⟨c, cs, form, -⟩ := written.head level
  rw [form, List.length_cons] at enough
  exact ⟨steps - 1, by omega⟩

theorem readValue_bracket {item : Json} (written : Written item) (level steps : Nat)
    (rest : List Char) :
    readValue (steps + 1) ('[' :: (breakLine level ++ (pretty level item ++ rest))) =
      readItems steps [] (pretty level item ++ rest) := by
  obtain ⟨c, cs, form, printed, more⟩ := written.head level
  have inside : skipSpace (breakLine level ++ (pretty level item ++ rest)) = c :: (cs ++ rest) := by
    rw [skipSpace_append (breakLine_spaces _), form, List.cons_append, skipSpace_cons printed]
  rw [readValue, skipSpace_cons rfl]
  simp only [inside]
  rw [form, List.cons_append]
  split
  · next close => exact absurd (List.cons.inj close).1 more
  · rfl

theorem readValue_brace (name : String) (level steps : Nat) (rest : List Char) :
    readValue (steps + 1) ('\x7b' :: (breakLine level ++ (quote name ++ rest))) =
      readMembers steps [] (quote name ++ rest) := by
  have inside : skipSpace (breakLine level ++ (quote name ++ rest)) = quote name ++ rest := by
    rw [skipSpace_append (breakLine_spaces _), quote_append, skipSpace_cons rfl]
  rw [quote_append] at inside ⊢
  rw [readValue, skipSpace_cons rfl]
  simp only [inside]
  rfl

/-- The pretty form is read back, given at least as many steps as it has characters. -/
def ReadsBack (j : Json) : Prop :=
  ∀ level steps rest, (pretty level j).length ≤ steps → Delimited rest →
    readValue steps (pretty level j ++ rest) = some (j, rest)

theorem skipSpace_colon (rest : List Char) :
    skipSpace ([':', ' '] ++ rest) = ':' :: ([' '] ++ rest) := skipSpace_cons rfl _

/-- The value of a member stands behind a space. -/
theorem ReadsBack.value {j : Json} (back : ReadsBack j) (level : Nat) {steps : Nat}
    {rest : List Char} (enough : (pretty level j).length ≤ steps) (delimited : Delimited rest) :
    readValue steps ([' '] ++ (pretty level j ++ rest)) = some (j, rest) :=
  (readValue_append (by simp [isSpace]) steps _).trans (back level steps rest enough delimited)

section
variable (level closing : Nat) (rest : List Char)

section
variable {item : Json} (back : ReadsBack item) {steps : Nat}
  (enough : (pretty level item).length ≤ steps)
include back enough

theorem readItems_more (found : List Json) :
    readItems (steps + 1) found (pretty level item ++ ',' :: rest) =
      readItems steps (item :: found) rest := by
  rw [readItems, back level steps _ enough (delimited_comma _)]
  dsimp only
  rw [skipSpace_cons rfl]
  rfl

theorem readItems_last (found : List Json) :
    readItems (steps + 1) found (pretty level item ++ (breakLine closing ++ ']' :: rest)) =
      some (.array (item :: found).reverse, rest) := by
  rw [readItems, back level steps _ enough (delimited_breakLine _ _)]
  dsimp only
  rw [skipSpace_append (breakLine_spaces _), skipSpace_cons rfl]
  rfl

theorem readMembers_more (name : String) (found : List (Option String × Json)) :
    readMembers (steps + 1) found
        (quote name ++ ([':', ' '] ++ (pretty level item ++ ',' :: rest))) =
      readMembers steps ((some name, item) :: found) rest := by
  have value := back.value level enough (delimited_comma rest)
  have comma : skipSpace (',' :: rest) = ',' :: rest := skipSpace_cons rfl rest
  rw [readMembers, quote_append, skipSpace_cons rfl]
  simp only [scanText_quoted, skipSpace_colon, value, comma]

theorem readMembers_last (name : String) (found : List (Option String × Json)) :
    readMembers (steps + 1) found (quote name ++ ([':', ' '] ++
        (pretty level item ++ (breakLine closing ++ '\x7d' :: rest)))) =
      some (.object ((some name, item) :: found).reverse, rest) := by
  have value := back.value level enough (delimited_breakLine closing ('\x7d' :: rest))
  have brace : skipSpace (breakLine closing ++ '\x7d' :: rest) = '\x7d' :: rest := by
    rw [skipSpace_append (breakLine_spaces _), skipSpace_cons rfl]
  rw [readMembers, quote_append, skipSpace_cons rfl]
  simp only [scanText_quoted, skipSpace_colon, value, brace]

end

theorem readItems_pretty {items : List Json} : ∀ {item : Json}, ReadsBack item →
    (∀ i ∈ items, ReadsBack i) → ∀ {steps : Nat} (found : List Json),
      (pretty level item).length + (prettyItems level items).length + 1 ≤ steps →
      readItems steps found (pretty level item ++
          (prettyItems level items ++ (breakLine closing ++ ']' :: rest))) =
        some (.array (found.reverse ++ item :: items), rest) := by
  induction items with
  | nil =>
    intro item first _ steps found enough
    obtain ⟨steps, rfl⟩ : ∃ k, steps = k + 1 := ⟨steps - 1, by omega⟩
    rw [prettyItems, List.nil_append, readItems_last level closing rest first (by omega)]
    simp
  | cons next more ih =>
    -- The comma in front of the next item is the character that pays for the step taken here.
    intro item first others steps found enough
    have step : prettyItems level (next :: more) ++ (breakLine closing ++ ']' :: rest) =
        ',' :: (breakLine level ++ (pretty level next ++
          (prettyItems level more ++ (breakLine closing ++ ']' :: rest)))) := by
      simp [prettyItems]
    rw [prettyItems, List.length_cons, List.length_append, List.length_append] at enough
    obtain ⟨steps, rfl⟩ : ∃ k, steps = k + 1 := ⟨steps - 1, by omega⟩
    rw [step, readItems_more level _ first (by omega), readItems_append (breakLine_spaces _),
      ih (others next (.head _)) (fun i among => others i (.tail _ among)) _ (by omega)]
    simp

theorem readMembers_pretty {members : List (String × Json)} : ∀ {m : String × Json},
    ReadsBack m.2 → (∀ m ∈ members, ReadsBack m.2) → ∀ {steps : Nat}
      (found : List (Option String × Json)),
      (pretty level m.2).length + (prettyMembers level (named members)).length + 1 ≤ steps →
      readMembers steps found (quote m.1 ++ ([':', ' '] ++ (pretty level m.2 ++
          (prettyMembers level (named members) ++ (breakLine closing ++ '\x7d' :: rest))))) =
        some (.object (found.reverse ++ named (m :: members)), rest) := by
  induction members with
  | nil =>
    intro m first _ steps found enough
    obtain ⟨steps, rfl⟩ : ∃ k, steps = k + 1 := ⟨steps - 1, by omega⟩
    have none : prettyMembers level (named []) = [] := rfl
    rw [none, List.nil_append, readMembers_last level closing rest first (by omega)]
    simp [named]
  | cons next more ih =>
    intro m first others steps found enough
    have form : prettyMembers level (named (next :: more)) =
        ',' :: (breakLine level ++ quote next.1 ++ [':', ' '] ++ pretty level next.2 ++
          prettyMembers level (named more)) := rfl
    have step : prettyMembers level (named (next :: more)) ++
          (breakLine closing ++ '\x7d' :: rest) =
        ',' :: (breakLine level ++ (quote next.1 ++ ([':', ' '] ++ (pretty level next.2 ++
          (prettyMembers level (named more) ++ (breakLine closing ++ '\x7d' :: rest)))))) := by
      simp [form]
    simp only [form, List.length_cons, List.length_append] at enough
    obtain ⟨steps, rfl⟩ : ∃ k, steps = k + 1 := ⟨steps - 1, by omega⟩
    rw [step, readMembers_more level _ first (by omega), readMembers_append (breakLine_spaces _),
      ih (others next (.head _)) (fun i among => others i (.tail _ among)) _ (by omega)]
    simp [named]

end

/-- A written document is read back, with what stands behind it left over. -/
theorem Written.readsBack {j : Json} (written : Written j) : ReadsBack j := by
  induction written with
  | null =>
    intro level steps rest enough delimited
    obtain ⟨steps, rfl⟩ := Written.some_step .null enough
    rfl
  | bool value =>
    intro level steps rest enough delimited
    obtain ⟨steps, rfl⟩ := Written.some_step (.bool value) enough
    cases value <;> rfl
  | integer negative magnitude =>
    intro level steps rest enough delimited
    obtain ⟨steps, rfl⟩ := Written.some_step (.integer negative magnitude) enough
    cases negative with
    | true => exact scanNumber_integer true magnitude delimited
    | false =>
      have number := scanNumber_integer false magnitude delimited
      obtain ⟨c, cs, digits, digit⟩ := toDigits_head magnitude
      have form : pretty level (.integer false magnitude) = c :: cs := digits
      rw [digits] at number
      rw [form, List.cons_append, readValue_digit steps digit]
      exact number
  | string s =>
    intro level steps rest enough delimited
    obtain ⟨steps, rfl⟩ := Written.some_step (.string s) enough
    exact readValue_quoted steps s rest
  | array items each ih =>
    intro level steps rest enough delimited
    obtain ⟨steps, rfl⟩ := Written.some_step (.array items each) enough
    cases items with
    | nil => rfl
    | cons item items =>
      have form : pretty level (.array (item :: items)) ++ rest =
          '[' :: (breakLine (level + 1) ++ (pretty (level + 1) item ++
            (prettyItems (level + 1) items ++ (breakLine level ++ ']' :: rest)))) := by
        simp [pretty]
      simp only [pretty, List.length_cons, List.length_append] at enough
      rw [form, readValue_bracket (each item (.head _))]
      exact readItems_pretty (level + 1) level rest (ih item (.head _))
        (fun i among => ih i (.tail _ among)) [] (by omega)
  | record members each ih =>
    intro level steps rest enough delimited
    obtain ⟨steps, rfl⟩ := Written.some_step (.record members each) enough
    cases members with
    | nil => rfl
    | cons m members =>
      have whole : pretty level (.record (m :: members)) =
          '\x7b' :: (breakLine (level + 1) ++ quote m.1 ++ [':', ' '] ++ pretty (level + 1) m.2 ++
            prettyMembers (level + 1) (named members) ++ breakLine level ++ ['\x7d']) := rfl
      have form : pretty level (.record (m :: members)) ++ rest =
          '\x7b' :: (breakLine (level + 1) ++ (quote m.1 ++ ([':', ' '] ++
            (pretty (level + 1) m.2 ++ (prettyMembers (level + 1) (named members) ++
              (breakLine level ++ '\x7d' :: rest)))))) := by
        simp [whole]
      simp only [whole, List.length_cons, List.length_append] at enough
      rw [form, readValue_brace]
      exact readMembers_pretty (level + 1) level rest (ih m (.head _))
        (fun i among => ih i (.tail _ among)) [] (by omega)

/-- The pretty form of a document says which document it is. -/
theorem Written.read_toPretty {j : Json} (written : Written j) : read j.toPretty = some j := by
  have back := written.readsBack 0 (2 * (pretty 0 j).length + 2) [] (by omega) delimited_nil
  rw [List.append_nil] at back
  unfold read toPretty readChars
  rw [String.toList_ofList, back]
  rfl

end HeapLens.Json
