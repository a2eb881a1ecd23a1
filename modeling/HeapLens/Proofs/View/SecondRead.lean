import HeapLens.Proofs.View.Preview
import HeapLens.Proofs.View.Room

/-!
The second read of a slot. In memory that does not change, what was classified is what the decoder
finds again, so the size from before the first read is the size that it calls for; the length of a
string alone is known only then. Main statement: no decoder finds its object too small for its
inline data, and without changes in between only an embedded string that does not end in its
structure is read twice.
-/
namespace HeapLens
open Run

/-- At most one read, at this address. -/
structure SingleRead (address : UInt64) (requests : List ReadRequest) : Prop where
  count : requests.length ≤ 1
  each : ∀ r ∈ requests, r.address = address

theorem singleRead_none (address : UInt64) : SingleRead address [] := ⟨by simp, by simp⟩

theorem singleRead_one (address size : UInt64) : SingleRead address [⟨address, size⟩] :=
  ⟨by simp, by simp⟩

namespace Inspector

/-- The reads of the slot of a string: two if the first shows an embedded one with more bytes than
the structure holds. -/
def TextSlot (i : Inspector) (o : HeapObject) (before : Trace) (slot : List ReadRequest) : Prop :=
  SingleRead o.address slot ∨ ∃ (r : ObjectRead) (length : Int64),
    r.FromSlot i.target "struct RString" before 40 ∧ r.object.address = o.address ∧
    i.stringEmbedded r.object.header.flags = true ∧ r.fields.signedMember "len" = .ok length ∧
    16 < length ∧
    slot = [⟨o.address, 40⟩, ⟨o.address, 24 + min length.toUInt64 previewBytes⟩]

/-- After the slot, at most one read: of the buffer that a field points to, if the flags say that
the data lies outside of the slot. -/
def PointedReads (i : Inspector) (type field : String) (outside : UInt64 → Prop) (before : Trace)
    (slot rest : List ReadRequest) : Prop :=
  rest = [] ∨ ∃ (r : ObjectRead) (pointer size : UInt64),
    r.ParsedFrom i.target type before slot ∧ outside r.object.header.flags ∧
    r.fields.unsignedMember field = .ok pointer ∧ rest = [⟨pointer, size⟩]

/-- The reads for a string in steady memory. -/
def TextReads (i : Inspector) (o : HeapObject) (before : Trace) : List ReadRequest → Prop :=
  SlotFirst (i.TextSlot o before)
    (i.PointedReads "struct RString" "as.heap.ptr" (fun flags => ¬ i.stringEmbedded flags) before)

def ArrayReads (i : Inspector) (o : HeapObject) (before : Trace) : List ReadRequest → Prop :=
  SlotFirst (SingleRead o.address)
    (i.PointedReads "struct RArray" "as.heap.ptr" (fun flags => ¬ i.flag flags .arrayEmbedFlag)
      before)

def RecordReads (i : Inspector) (o : HeapObject) (before : Trace) : List ReadRequest → Prop :=
  SlotFirst (SingleRead o.address)
    (i.PointedReads "struct RStruct" "as.heap.ptr" (fun flags => i.recordLength flags = 0) before)

def DigitReads (i : Inspector) (o : HeapObject) (before : Trace) : List ReadRequest → Prop :=
  SlotFirst (SingleRead o.address)
    (i.PointedReads "struct RBignum" "as.heap.digits" (fun flags => ¬ i.flag flags .bignumEmbedFlag)
      before)

/-- After the slot of a symbol, the reads for its name. -/
def NameFirst (i : Inspector) (before : Trace) (slot rest : List ReadRequest) : Prop :=
  rest = [] ∨ ∃ r name, ObjectRead.ParsedFrom i.target "struct RSymbol" before slot r ∧
    r.fields.unsignedMember "fstr" = .ok name ∧
    i.ClassifiedReads name (before ++ slot.toArray) (fun o later more =>
      if o.type = some .string then i.TextReads o later more else more = []) rest

/-- The reads for a classified object in steady memory, by its type. -/
def SteadyReads (i : Inspector) (o : HeapObject) (before : Trace) : List ReadRequest → Prop :=
  match o.type with
  | some .string => i.TextReads o before
  | some .array => i.ArrayReads o before
  | some .record => i.RecordReads o before
  | some .bignum => i.DigitReads o before
  | some .hash => SlotFirst (SingleRead o.address) (i.DescribedReads before)
  | some .float => SingleRead o.address
  | some .symbol => SlotFirst (SingleRead o.address) (i.NameFirst before)
  | _ => (· = [])

section Slot
variable {i : Inspector} {o : HeapObject} {type : String} {l : Layout}
  {extent : Value → Header → Except InspectError UInt64} {before : Trace}

/-- A slot whose size is known from its first header is read once. -/
theorem Retries.single {size : UInt64} {slot : List ReadRequest}
    (retries : i.Retries o type extent size before slot) (exact : i.target.Exact)
    (enough : ∀ r : ObjectRead, r.FromSlot i.target type before size →
      r.object.address = o.address → ∀ needed, extent r.fields r.object.header = .ok needed →
        needed.toNat ≤ size.toNat) : SingleRead o.address slot := by
  rcases retries with rfl | ⟨r, needed, parsed, place, sized, short, -⟩
  · exact singleRead_one _ _
  · have length := exact _ _ _ _ parsed.answer
    have fits := enough r parsed place needed sized
    omega

/-- The header that an object was classified by. -/
def Seen (i : Inspector) (o : HeapObject) : Prop :=
  ∃ before, o.header.ReadFirst i.target before

/-- In steady memory a slot has the flags of the header that was read before. -/
theorem Seen.flags {r : ObjectRead} {size : UInt64} (seen : i.Seen o)
    (layouts : i.target.layout = Registry.standard.lookup) (steady : i.target.Steady)
    (leads : l.member? "basic.flags" = some (0, .value)) (named : i.target.layout type = .ok l)
    (longer : 16 < size) (parsed : r.FromSlot i.target type before size)
    (place : r.object.address = o.address) : r.object.header.flags = o.header.flags := by
  obtain ⟨earlier, p, basic, bytes, pointer, target, answer, header⟩ := seen
  rw [layouts] at pointer
  obtain rfl : Layout.basic.pointerTo = p := Except.ok.inj pointer
  cases target
  obtain ⟨l', own, named', part, fields⟩ := parsed.fields
  cases named.symm.trans named'
  obtain ⟨inside, rfl⟩ := Bytes.slice?_front part
  have whole := parsed.header
  rw [fields] at whole
  obtain ⟨long, flags⟩ := Header.flags_of_front leads whole
  obtain ⟨short, flags'⟩ := Header.flags_of_front rfl header
  have again := parsed.answer
  rw [place] at again
  obtain ⟨rest, extended⟩ := steady _ _ _ _ _ _ _ longer answer again
  rw [List.length_take] at long
  rw [flags, flags', ← extended, List.take_take, Nat.min_eq_left (by omega),
    List.take_append_of_le_length short]

end Slot

section Decoders
variable {i : Inspector} {before : Trace}

theorem slotFirst_none {own : List ReadRequest → Prop}
    {away : List ReadRequest → List ReadRequest → Prop} (slot : own []) (rest : away [] []) :
    SlotFirst own away [] := ⟨[], [], rfl, slot, rest⟩

/-- The one read of a buffer that the slot points to. -/
theorem pointed_asks {α β : Type} {x : Probe α} {f : α → β} {type field : String}
    {outside : UInt64 → Prop} {r : ObjectRead} {pointer : UInt64} {later : Trace}
    {slot : List ReadRequest} (parsed : r.ParsedFrom i.target type before slot)
    (away : outside r.object.header.flags) (named : r.fields.unsignedMember field = .ok pointer)
    (reads : Asks x later fun rest => rest = [] ∨ ∃ size, rest = [⟨pointer, size⟩]) :
    Asks (do return f (← x)) later (i.PointedReads type field outside before slot) := by
  apply asks_then_pure (reads.mono _)
  rintro rest (rfl | ⟨size, rfl⟩)
  · exact .inl rfl
  · exact .inr ⟨r, pointer, size, parsed, away, named, rfl⟩

theorem readWords_once (address count : UInt64) : Asks (i.readWords address count) before
    fun rest => rest = [] ∨ ∃ size, rest = [⟨address, size⟩] := by
  unfold readWords
  refine asks_ite (fun _ => asks_pure (.inl rfl)) fun _ => ?_
  refine asks_guard (.inl rfl) fun _ => ?_
  apply asks_then_pure ((asks_read _ _ _).mono _)
  rintro _ rfl
  exact .inr ⟨_, rfl⟩

theorem read_once (address size : UInt64) : Asks (i.target.read address size) before
    fun rest => rest = [] ∨ ∃ size, rest = [⟨address, size⟩] := by
  apply (asks_read _ _ _).mono
  rintro _ rfl
  exact .inr ⟨size, rfl⟩

variable (layouts : i.target.layout = Registry.standard.lookup) (exact : i.target.Exact)
  (steady : i.target.Steady) (o : HeapObject)
include layouts exact

omit layouts exact in
/-- Bytes that do not end in the structure are more than sixteen. -/
theorem needed_past_struct {length : Int64}
    (short : 40 < (24 + min (if length < 0 then 0 else length.toUInt64) previewBytes).toNat) :
    ¬ length < 0 ∧ 16 < length := by
  by_cases negative : length < 0
  · rw [if_pos negative] at short
    exact absurd short (by decide)
  rw [if_neg negative] at short
  have natural : (0 : Int64).toInt ≤ length.toInt :=
    Int64.le_iff_toInt_le.mp (Int64.not_lt.mp negative)
  obtain ⟨count, counted⟩ := Int.eq_ofNat_of_zero_le natural
  have plain : length.toUInt64.toNat = count := (natural_of_toInt counted).2
  have sum := toNat_add_le 24 (min length.toUInt64 previewBytes)
  rw [UInt64.toNat_min, plain] at sum
  have start : (24 : UInt64).toNat = 24 := rfl
  refine ⟨negative, Int64.lt_iff_toInt_lt.mpr ?_⟩
  rw [counted]
  change (16 : Int) < count
  omega

theorem textSlot_asks : Asks (i.readObject o "struct RString" 0 (i.stringExtent 24)) before
    (i.TextSlot o before) := by
  apply (readObject_retries (layout_standard layouts Registry.lookup_string) 0).mono
  rintro slot (rfl | ⟨r, needed, parsed, place, sized, short, rfl⟩)
  · exact .inl (singleRead_one _ _)
  · have whole : r.bytes.length = 40 := exact _ _ _ _ parsed.answer
    rw [whole] at short
    unfold stringExtent at sized
    split at sized
    · next embedded =>
      cases counted : r.fields.signedMember "len" with
      | error e => rw [counted] at sized; cases sized
      | ok length =>
        rw [counted] at sized
        cases sized
        obtain ⟨positive, rest⟩ := needed_past_struct short
        rw [if_neg positive] at short ⊢
        exact .inr ⟨r, length, parsed, place, embedded, counted, rest, rfl⟩
    · cases sized
      exact absurd short (by decide)

theorem decodeString_steady : Asks (i.decodeString o) before (i.TextReads o before) := by
  unfold decodeString
  apply asks_after_found (offsetOf_standard layouts Registry.lookup_string rfl)
  apply slot_first_asks (textSlot_asks layouts exact o) fun slot => .inl rfl
  intro r slot parsed
  refine asks_after_access (.inl rfl) fun length _ => ?_
  refine asks_guard (.inl rfl) fun _ => ?_
  apply asks_ite
  · intro _
    exact asks_after_lift (.inl rfl) fun bytes _ => asks_pure (.inl rfl)
  · intro away
    refine asks_after_access (.inl rfl) fun pointer named => ?_
    refine asks_guard (.inl rfl) fun _ => ?_
    refine asks_ite (fun _ => asks_pure (.inl rfl)) fun _ => ?_
    exact pointed_asks parsed away named (read_once _ _)

theorem stringBytes_steady (word : UInt64) : Asks (i.stringBytes word) before
    (i.ClassifiedReads word before fun o later more =>
      if o.type = some .string then i.TextReads o later more else more = []) := by
  unfold stringBytes
  apply classify_then_asks layouts
  · intro word value later
    exact asks_pure rfl
  · intro c later
    by_cases text : c.type = some .string
    · simp only [if_pos text]
      exact asks_then_pure (decodeString_steady layouts exact c)
    · simp only [if_neg text]
      exact asks_pure rfl

variable {o} (seen : i.Seen o)
include steady seen

/-- A slot whose size is known from the header that was read before. -/
theorem single_asks {type : String} {l : Layout} {hint : UInt64}
    {extent : Value → Header → Except InspectError UInt64}
    (named : Registry.standard.lookup type = .ok l)
    (leads : l.member? "basic.flags" = some (0, .value)) (longer : 16 < l.size)
    (hinted : ∀ fields header, header.flags = o.header.flags → extent fields header = .ok hint) :
    Asks (i.readObject o type hint extent) before (SingleRead o.address) := by
  have laid := layout_standard layouts named
  have first : (max l.size hint).toNat = max l.size.toNat hint.toNat := UInt64.toNat_max _ _
  have past : 16 < max l.size hint := by
    rw [UInt64.lt_iff_toNat_lt, first]
    exact Nat.lt_of_lt_of_le (UInt64.lt_iff_toNat_lt.mp longer) (Nat.le_max_left _ _)
  apply (readObject_retries laid hint).mono
  intro slot retries
  apply retries.single exact
  intro r parsed place needed sized
  have same := seen.flags layouts steady leads laid past parsed place
  cases sized.symm.trans (hinted _ _ same)
  rw [first]
  exact Nat.le_max_right _ _

/-- The size of a row of words is known from the flags. -/
theorem row_first_asks {α : Type} {type field : String} {l : Layout} {size : UInt64 → UInt64}
    {outside : UInt64 → Prop} {f : ObjectRead → Probe α}
    (named : Registry.standard.lookup type = .ok l)
    (leads : l.member? "basic.flags" = some (0, .value)) (longer : 16 < l.size)
    (next : ∀ r slot, r.ParsedFrom i.target type before slot →
      Asks (f r) (before ++ slot.toArray) (i.PointedReads type field outside before slot)) :
    Asks (i.readObject o type (size o.header.flags) (fun _ header => .ok (size header.flags)) >>= f)
      before (SlotFirst (SingleRead o.address) (i.PointedReads type field outside before)) := by
  apply slot_first_asks _ (fun slot => .inl rfl) next
  exact single_asks layouts exact steady seen named leads longer fun fields header same => by
    rw [same]

theorem decodeArray_steady : Asks (i.decodeArray o) before (i.ArrayReads o before) := by
  unfold decodeArray
  apply asks_after_found (offsetOf_standard layouts Registry.lookup_array rfl)
  apply row_first_asks layouts exact steady seen Registry.lookup_array rfl (by decide)
  intro r slot parsed
  apply asks_ite
  · intro _
    exact asks_after_lift (.inl rfl) fun ws _ => asks_pure (.inl rfl)
  · intro away
    refine asks_after_access (.inl rfl) fun length _ => ?_
    refine asks_guard (.inl rfl) fun _ => ?_
    refine asks_after_access (.inl rfl) fun pointer named => ?_
    refine asks_guard (.inl rfl) fun _ => ?_
    exact pointed_asks parsed away named (readWords_once _ _)

theorem decodeRecord_steady : Asks (i.decodeRecord o) before (i.RecordReads o before) := by
  unfold decodeRecord
  apply asks_after_found (offsetOf_standard layouts Registry.lookup_struct rfl)
  apply row_first_asks layouts exact steady seen Registry.lookup_struct rfl (by decide)
  intro r slot parsed
  apply asks_ite
  · intro away
    refine asks_after_access (.inl rfl) fun length _ => ?_
    refine asks_guard (.inl rfl) fun _ => ?_
    refine asks_after_access (.inl rfl) fun pointer named => ?_
    exact pointed_asks parsed away named (readWords_once _ _)
  · intro _
    exact asks_after_lift (.inl rfl) fun ws _ => asks_pure (.inl rfl)

theorem decodeBignum_steady : Asks (i.decodeBignum o) before (i.DigitReads o before) := by
  unfold decodeBignum
  apply asks_after_found (offsetOf_standard layouts Registry.lookup_bignum rfl)
  apply asks_after_found (layout_standard layouts Registry.lookup_bigDigit)
  apply row_first_asks layouts exact steady seen Registry.lookup_bignum rfl (by decide)
  intro r slot parsed
  apply asks_ite
  · intro _
    refine asks_ite (fun _ => ?_) fun _ => asks_pure (.inl rfl)
    exact asks_after_lift (.inl rfl) fun bytes _ => asks_pure (.inl rfl)
  · intro away
    refine asks_after_access (.inl rfl) fun length _ => ?_
    refine asks_after_access (.inl rfl) fun digits named => ?_
    refine asks_guard (.inl rfl) fun _ => ?_
    refine asks_ite (fun _ => asks_pure (.inl rfl)) fun _ => ?_
    refine asks_ite (fun _ => ?_) fun _ => asks_pure (.inl rfl)
    exact pointed_asks parsed away named (read_once _ _)

theorem fields_asks {type : String} {l : Layout} (named : Registry.standard.lookup type = .ok l)
    (leads : l.member? "basic.flags" = some (0, .value)) (longer : 16 < l.size) :
    Asks (i.readFields o type) before (SingleRead o.address) :=
  single_asks layouts exact steady seen named leads longer fun _ _ _ => rfl

theorem decodeFloat_steady : Asks (i.decodeFloat o) before (SingleRead o.address) := by
  unfold decodeFloat
  apply asks_bind (fields_asks layouts exact steady seen (l := .heapFloat) rfl rfl (by decide))
  · exact fun _ reads => reads
  · intro r slot _ reads
    have nothing : SingleRead o.address (slot ++ []) := by rwa [List.append_nil]
    exact asks_after_access nothing fun x _ => asks_pure nothing

theorem decodeSymbol_steady : Asks (i.decodeSymbol o) before
    (SlotFirst (SingleRead o.address) (i.NameFirst before)) := by
  unfold decodeSymbol
  have own : Asks (i.readFields o "struct RSymbol") before (SingleRead o.address) :=
    fields_asks layouts exact steady seen Registry.lookup_symbol rfl (by decide)
  apply slot_first_asks own fun slot => .inl rfl
  intro r slot parsed
  refine asks_after_access (.inl rfl) fun id _ => ?_
  refine asks_after_access (.inl rfl) fun name named => ?_
  apply asks_bind (asks_attempt (stringBytes_steady layouts exact name))
  · intro requests reads
    exact .inr ⟨r, name, parsed, named, reads⟩
  · intro outcome requests _ reads
    have nothing : i.NameFirst before slot (requests ++ []) := by
      rw [List.append_nil]
      exact .inr ⟨r, name, parsed, named, reads⟩
    cases outcome with
    | ok text => exact asks_pure nothing
    | error e => exact asks_pure nothing

theorem decodeHash_steady : Asks (i.decodeHash o) before
    (SlotFirst (SingleRead o.address) (i.DescribedReads before)) := by
  unfold decodeHash
  apply asks_after_found (layout_standard layouts Registry.lookup_hash)
  apply asks_after_found (layout_standard layouts Registry.lookup_table)
  apply asks_after_found (pairLayout_standard layouts)
  refine asks_after_lift (slotFirst_none (singleRead_none _) (.inl rfl)) fun hint hinted => ?_
  apply slot_first_asks (single_asks layouts exact steady seen Registry.lookup_hash rfl (by decide)
    fun fields header same => by rw [same]; exact hinted) fun slot => .inl rfl
  intro r slot parsed
  refine asks_after_access (.inl rfl) fun default _ => ?_
  refine asks_after_lift (.inl rfl) fun address _ => ?_
  apply asks_ite
  · intro large
    refine asks_after_lift (.inl rfl) fun inline inside => ?_
    apply asks_then_pure (decodeEntries_asks layouts _ _ _)
    intro range said
    exact ⟨r, parsed, large, _, _, inline, _, layout_standard layouts Registry.lookup_hash,
      layout_standard layouts Registry.lookup_table, r.inline_ok inside, said⟩
  · intro _
    refine asks_after_lift (.inl rfl) fun counts _ => ?_
    exact asks_after_lift (.inl rfl) fun bytes _ => asks_pure (.inl rfl)

theorem decodeObject_steady : Asks (i.decodeObject o) before (i.SteadyReads o before) := by
  unfold decodeObject SteadyReads
  cases o.type with
  | none => exact asks_pure rfl
  | some kind =>
    cases kind with
    | string => exact asks_then_pure (decodeString_steady layouts exact o)
    | array => exact asks_then_pure (decodeArray_steady layouts exact steady seen)
    | hash => exact asks_then_pure (decodeHash_steady layouts exact steady seen)
    | record => exact asks_then_pure (decodeRecord_steady layouts exact steady seen)
    | float => exact asks_then_pure (decodeFloat_steady layouts exact steady seen)
    | bignum => exact asks_then_pure (decodeBignum_steady layouts exact steady seen)
    | symbol => exact asks_then_pure (decodeSymbol_steady layouts exact steady seen)
    | _ => exact asks_pure rfl

omit layouts exact steady seen in
theorem classify_seen {word : UInt64} {after : Trace}
    (run : i.classify word before = (.ok (.heap o), after)) : i.Seen o := by
  unfold Inspector.classify HeapLens.classify at run
  cases encoded : Immediate.ofWord? i.constants word with
  | some value => rw [encoded] at run; cases run
  | none =>
    rw [encoded] at run
    obtain ⟨-, run⟩ := guard_ok run
    obtain ⟨c, middle, first, run⟩ := bind_ok run
    cases run
    exact ⟨before, (classifyObject_first first).1⟩

omit exact steady seen in
/-- What is read for an object may rely on the header that it was classified by. -/
theorem ClassifiedReads.of_seen {word : UInt64} {requests : List ReadRequest}
    {object : HeapObject → Trace → List ReadRequest → Prop}
    (reads : i.ClassifiedReads word before (fun c later more => i.Seen c → object c later more)
      requests) : i.ClassifiedReads word before object requests := by
  unfold ClassifiedReads at reads ⊢
  rcases classify_cases layouts word before with
    ⟨value, run⟩ | run | ⟨cause, run⟩ | ⟨c, -, run⟩
  · rwa [run] at reads ⊢
  · rwa [run] at reads ⊢
  · rwa [run] at reads ⊢
  · rw [run] at reads ⊢
    obtain ⟨place, more, whole, slot⟩ := reads
    exact ⟨place, more, whole, slot (classify_seen run)⟩

omit seen in
/-- The reads of one interpretation in memory that does not change. -/
theorem interpret_steady (word : UInt64) :
    Asks (i.interpret word) before (i.ClassifiedReads word before i.SteadyReads) := by
  have shaped : Asks (i.interpret word) before (i.ClassifiedReads word before
      fun c later more => i.Seen c → i.SteadyReads c later more) := by
    unfold interpret
    apply classify_then_asks layouts
    · intro word value later
      exact asks_pure rfl
    · intro c later
      by_cases seen : i.Seen c
      · exact (decodeObject_steady layouts exact steady seen).mono fun more reads _ => reads
      · exact (decodeObject_asks layouts c).mono fun more _ again => absurd again seen
  exact shaped.mono fun requests reads => reads.of_seen layouts

end Decoders

/-- With the standard layouts and a limit that is not huge, inline data is always inside of what was
read, however memory changes. If it does not change, no object has grown when it is read again, and
only an embedded string that does not end in its structure is read again. -/
theorem interpret_slot_suffices {i : Inspector}
    (layouts : i.target.layout = Registry.standard.lookup) (few : i.limit.toNat < 2 ^ 60)
    (word : UInt64) (before : Trace) :
    (∀ address offset length, (i.interpret word before).1 ≠
      .error (.corrupt address (.inlineOutside offset length))) ∧
    (i.target.Exact → i.target.Steady →
      (∀ address, (i.interpret word before).1 ≠ .error (.corrupt address .objectGrew)) ∧
      Asks (i.interpret word) before (i.ClassifiedReads word before i.SteadyReads)) := by
  refine ⟨fun address offset length => ?_, fun exact steady => ⟨fun address => ?_, ?_⟩⟩
  · have guarded : Guarded True (i.interpret word) :=
      interpret_guarded (.inl trivial) layouts few word
    exact guarded.error before _ trivial
  · have guarded : Guarded False (i.interpret word) :=
      interpret_guarded (.inr ⟨exact, steady⟩) layouts few word
    exact guarded.error before _ trivial
  · exact interpret_steady layouts exact steady word

/-- A string of twenty bytes that lie in its slot, four of them behind the structure. -/
def overlapping : Inspector :=
  ofWords [5, 17, 20, 0x6161616161616161, 0x6262626262626262, 0x63636363]

theorem overlapping_suffices :
    overlapping.target.layout = Registry.standard.lookup ∧ overlapping.limit.toNat < 2 ^ 60 ∧
      (overlapping.interpret 48 #[]).2 = #[⟨48, 16⟩, ⟨48, 40⟩, ⟨48, 44⟩] ∧
      Asks (overlapping.interpret 48) #[]
        (overlapping.ClassifiedReads 48 #[] overlapping.SteadyReads) := by
  have steady : overlapping.target.Steady := (patternTarget_shows _ _).steady
  obtain ⟨-, still⟩ := interpret_slot_suffices (i := overlapping) rfl (by decide) 48 #[]
  exact ⟨rfl, by decide, by decide +kernel, (still (patternTarget_exact _ _) steady).2⟩

/-- A string that is longer whenever its slot is read. -/
def growing : Inspector :=
  { overlapping with
    target := { overlapping.target with
      memory := fun n => (ofWords [5, 17, 20 + UInt64.ofNat n, 0, 0, 0]).target.memory n } }

example : growing.interpret 48 #[] =
    (.error (.corrupt 48 .objectGrew), #[⟨48, 16⟩, ⟨48, 40⟩, ⟨48, 45⟩]) := rfl

end Inspector
end HeapLens
