import HeapLens.Layout.Standard
import HeapLens.Print.Tree
import HeapLens.Proofs.View.Effects

/-!
What can stand on a line of the output. Labels, tags, summaries and internals of every view are
plain, whatever bytes and numbers the target put into it; and so is the message of every error that
interpretation ends in, as long as layouts are the standard ones.
-/
namespace HeapLens
open Run Text

/-! Errors. -/

theorem Registry.plain_standard : ∀ e ∈ standard.entries, Plain e.2.name ∧ e.2.target? = none := by
  decide

theorem Registry.lookup_ok {r : Registry} {name : String} {l : Layout}
    (found : r.lookup name = .ok l) :
    ∃ base key stars, (key, base) ∈ r.entries ∧ l = pointers base stars := by
  unfold lookup at found
  split at found
  next key stars _ =>
  split at found
  · next base known =>
    cases found
    obtain ⟨before, after, parts, -⟩ := List.lookup_eq_some_iff.mp known
    exact ⟨base, _, stars, parts ▸ List.mem_append_right before (List.mem_cons_self ..), rfl⟩
  · cases found

theorem Registry.plain_pointers {base : Layout} (plain : Plain base.name) (stars : Nat) :
    Plain (pointers base stars).name := by
  induction stars with
  | zero => exact plain
  | succ stars ih => exact plain_append ih (by decide)

theorem Target.Lays.plain_name {t : Target} (layouts : t.layout = Registry.standard.lookup)
    {l : Layout} (laid : t.Lays l) : Plain l.name := by
  obtain ⟨name, p, found, same | target⟩ := laid
  all_goals
    rw [layouts] at found
    obtain ⟨base, key, stars, listed, rfl⟩ := Registry.lookup_ok found
    obtain ⟨plain, bare⟩ := Registry.plain_standard _ listed
  · exact same ▸ Registry.plain_pointers plain stars
  · cases stars with
    | zero => cases bare.symm.trans target
    | succ stars =>
      obtain rfl : Registry.pointers base stars = l := Option.some.inj target
      exact Registry.plain_pointers plain stars

theorem Registry.lookup_error {r : Registry} {name : String} {cause : AccessError}
    (plain : Plain name) (failed : r.lookup name = .error cause) : Plain cause.message := by
  unfold lookup at failed
  split at failed
  next base stars parts =>
  split at failed
  · cases failed
  · cases failed
    refine plain_append (by decide) (plain_ofList fun c member => plain c ?_)
    obtain rfl := congrArg Prod.fst parts
    have kept := (List.dropWhile_suffix isBlank).mem member
    have tail := (List.dropWhile_suffix isTail).mem (List.mem_reverse.mp kept)
    exact List.mem_reverse.mp tail

theorem Unreadable.plain_message (e : Unreadable) : Plain e.message :=
  plain_append (plain_append (plain_append (by decide) (plain_nat _)) (by decide)) (plain_hex _)

theorem Target.Refuses.plain_message {t : Target}
    (layouts : t.layout = Registry.standard.lookup) {cause : AccessError}
    (refused : t.Refuses cause) : Plain cause.message := by
  cases refused with
  | unreadable range => exact range.plain_message
  | layout plain failed => exact Registry.lookup_error plain (layouts ▸ failed)
  | member laid plain =>
    exact plain_append (plain_append (plain_append (by decide) plain) (by decide))
      (laid.plain_name layouts)
  | pointer laid => exact plain_append (by decide) (laid.plain_name layouts)
  | address laid =>
    exact plain_append (plain_append (by decide) (laid.plain_name layouts)) (by decide)

theorem Corruption.Worded.plain_message {fault : Corruption} (worded : fault.Worded) :
    Plain fault.message := by
  cases fault with
  | objectGrew | pastAddressSpace | nullBuffer | nullElementTable | nullDigitBuffer => decide
  | inlineOutside offset length =>
    exact plain_append (plain_append (plain_append (plain_nat _) (by decide)) (plain_nat _))
      (by decide)
  | negativeLength what length =>
    exact plain_append (plain_append (plain_append (by decide) worded) (by decide)) (plain_int _)
  | arrayTable size bound capacity =>
    exact plain_append (plain_append (plain_append (plain_append (plain_append (plain_append
      (by decide) (plain_nat _)) (by decide)) (plain_nat _)) (by decide)) (plain_nat _))
      (by decide)
  | entryTable size start bound power =>
    exact plain_append (plain_append (plain_append (plain_append (plain_append (plain_append
      (plain_append (by decide) (plain_nat _)) (by decide)) (plain_nat _)) (by decide))
      (plain_nat _)) (by decide)) (plain_nat _)
  | entryOutside index entries =>
    exact plain_append (plain_append (plain_append (plain_append (by decide) (plain_nat _))
      (by decide)) (plain_hex _)) (by decide)

theorem Target.Raises.plain_message {t : Target} (layouts : t.layout = Registry.standard.lookup)
    {e : InspectError} (raised : t.Raises e) : Plain e.message := by
  cases raised with
  | access refused => exact refused.plain_message layouts
  | unclassifiable bits =>
    exact plain_append (plain_append (by decide) (plain_hex _)) (by decide)
  | corrupt worded =>
    exact plain_append (plain_append (plain_append (by decide) (plain_hex _)) (by decide))
      worded.plain_message

theorem Inspector.interpret_error_plain {i : Inspector}
    (layouts : i.target.layout = Registry.standard.lookup) {word : UInt64} {trace after : Trace}
    {e : InspectError} (failed : i.interpret word trace = (.error e, after)) :
    Plain e.message := by
  have raised := (i.interpret_confined lasting_true admits_raises word).error trace e trivial
    (by rw [failed])
  exact raised.plain_message layouts

/-! Views. -/

theorem ValueType.plain_label (s : ValueType) : Plain s.label := by
  cases s <;> decide

theorem plain_tagLabel (type : Option ValueType) (tag : UInt64) : Plain (tagLabel type tag) := by
  cases type with
  | some s => exact s.plain_label
  | none => exact plain_append (plain_append (by decide) (plain_hex _)) (by decide)

theorem Immediate.plain_text (value : Immediate) : Plain value.text := by
  cases value with
  | falseValue | nilValue | trueValue | undef => decide
  | fixnum value => exact plain_int _
  | flonum value => exact plain_double value
  | symbol id => exact plain_append (by decide) (plain_hex _)

theorem StringView.plain_summary (v : StringView) : Plain v.summary := by
  unfold summary
  refine plain_append (plain_append (plain_append (by decide) (plain_escaped _)) (by decide)) ?_
  split
  · exact plain_append (plain_append (by decide) (plain_nat _)) (by decide)
  · decide

theorem SymbolView.plain_summary (v : SymbolView) : Plain v.summary := by
  unfold summary
  split
  · exact plain_append (by decide) (plain_escaped _)
  · exact plain_append (by decide) (plain_hex _)

theorem BignumView.plain_summary (v : BignumView) : Plain v.summary := by
  unfold summary
  refine plain_append (by split <;> decide) ?_
  split
  · exact plain_decimal _
  · exact plain_append (plain_append (by decide) (plain_nat _)) (by decide)

theorem SequenceView.plain_indexLabel (position : Nat) : Plain (indexLabel position) :=
  plain_append (plain_append (by decide) (plain_nat _)) (by decide)

namespace View

theorem plain_tag (v : View) : Plain v.tag := by
  have label : Plain v.typeLabel := by
    cases v with
    | immediate word value => exact value.type.plain_label
    | _ => exact plain_tagLabel _ _
  unfold tag
  split
  · exact plain_append (plain_append (plain_append (plain_append (by decide) label) (by decide))
      (plain_hex _)) (by decide)
  · exact plain_append (plain_append (by decide) label) (by decide)

theorem plain_summary (v : View) : Plain v.summary := by
  cases v with
  | immediate word value => exact value.plain_text
  | basic object => exact (by decide : Plain "")
  | string v => exact v.plain_summary
  | array v | hash v | record v => exact plain_append (by decide) (plain_nat _)
  | float v => exact plain_double v.value
  | bignum v => exact v.plain_summary
  | symbol v => exact v.plain_summary

/-- A line begins with the tag; the rest is plain as well. -/
theorem line_eq (v : View) : ∃ shown, v.line = v.tag ++ shown ∧ Plain shown := by
  unfold line
  split
  · exact ⟨"", String.append_empty.symm, by decide⟩
  · exact ⟨" " ++ v.summary, String.append_assoc, plain_append (by decide) v.plain_summary⟩

theorem plain_line (v : View) : Plain v.line := by
  obtain ⟨shown, parts, plain⟩ := v.line_eq
  rw [parts]
  exact plain_append v.plain_tag plain

/-- A list of internals by name with plain texts only. -/
def PlainPairs (pairs : List (String × String)) : Prop := ∀ d ∈ pairs, Plain d.1 ∧ Plain d.2

theorem plainPairs_nil : PlainPairs [] := fun _ member => absurd member List.not_mem_nil

theorem plainPairs_cons {name value : String} {pairs : List (String × String)} (named : Plain name)
    (shown : Plain value) (rest : PlainPairs pairs) : PlainPairs ((name, value) :: pairs) := by
  intro d member
  rcases List.mem_cons.mp member with rfl | member
  · exact ⟨named, shown⟩
  · exact rest d member

theorem plain_pointerField (pointer : Option UInt64) : PlainPairs (pointerField pointer) := by
  cases pointer with
  | none => exact plainPairs_nil
  | some address => exact plainPairs_cons (by decide) (plain_hex _) plainPairs_nil

theorem plain_details (v : View) : PlainPairs v.details := by
  cases v with
  | immediate word value => exact plainPairs_cons (by decide) (plain_hex _) plainPairs_nil
  | basic object | float v => exact plainPairs_nil
  | string v =>
    exact plainPairs_cons (by decide) (plain_nat _)
      (plainPairs_cons (by decide) (plain_bool _) (plain_pointerField _))
  | array v => exact plainPairs_cons (by decide) (plain_bool _) (plain_pointerField _)
  | hash v =>
    have kind : Plain v.kind.label := by cases v.kind <;> decide
    exact plainPairs_cons (by decide) (plain_append (plain_append kind (by decide)) (plain_hex _))
      (plainPairs_cons (by decide) (plain_hex _) plainPairs_nil)
  | record v => exact plainPairs_cons (by decide) (plain_bool _) plainPairs_nil
  | bignum v =>
    exact plainPairs_cons (by decide) (plain_nat _)
      (plainPairs_cons (by decide) (plain_bool _) plainPairs_nil)
  | symbol v =>
    exact plainPairs_cons (by decide) (plain_hex _)
      (plainPairs_cons (by decide) (plain_hex _) plainPairs_nil)

theorem plain_describe {flags : UInt64} {names : String}
    (described : HeaderFlag.describe flags = some names) : Plain names := by
  unfold HeaderFlag.describe at described
  split at described
  · cases described
  · cases described
    refine plain_intercalate (by decide) fun label member => ?_
    obtain ⟨flag, -, rfl⟩ := List.mem_map.mp member
    cases flag <;> decide

theorem plain_debugText (v : View) : Plain v.debugText := by
  unfold debugText
  apply plain_append
  · split
    · next h _ =>
      refine plain_append (plain_append (plain_append (plain_append (by decide) (plain_hex _)) ?_)
        (by decide)) (plain_hex _)
      split
      · next names described =>
        exact plain_append (plain_append (by decide) (plain_describe described)) (by decide)
      · decide
    · decide
  · refine plain_join fun text member => ?_
    obtain ⟨d, listed, rfl⟩ := List.mem_map.mp member
    obtain ⟨name, value⟩ := v.plain_details d listed
    exact plain_append (plain_append (plain_append (by decide) name) (by decide)) value

theorem plain_children (v : View) : ∀ c ∈ v.children, Plain c.label := by
  intro c member
  cases v with
  | immediate | basic | string | float | bignum | symbol => exact absurd member List.not_mem_nil
  | array v | record v =>
    obtain ⟨e, -, rfl⟩ := List.mem_map.mp member
    exact SequenceView.plain_indexLabel _
  | hash v =>
    obtain ⟨p, -, member⟩ := List.mem_flatMap.mp member
    rcases List.mem_cons.mp member with rfl | member
    · exact plain_append (SequenceView.plain_indexLabel _) (by decide)
    · obtain rfl := List.mem_singleton.mp member
      exact plain_append (SequenceView.plain_indexLabel _) (by decide)

end View
end HeapLens
