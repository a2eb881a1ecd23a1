import HeapLens.Proofs.Heap.Classification
import HeapLens.Proofs.View.Asks
import HeapLens.Proofs.View.Extents
import HeapLens.Proofs.View.Slot

/-!
How much memory one interpretation asks for. Lengths, bounds and counts come from memory that may
be broken or hostile and may change between two reads. Main statement: with the standard layouts the
reads are one header, at most two reads of the slot, and then the data elsewhere, each of a size
that the limit bounds, in this order and whether the interpretation fails or not.
-/
namespace HeapLens
open Run

/-- At most two reads at one address. -/
structure SlotReads (address : UInt64) (bound : Nat) (requests : List ReadRequest) : Prop where
  count : requests.length ≤ 2
  each : ∀ r ∈ requests, r.address = address ∧ r.size.toNat ≤ bound

/-- At most one read, anywhere. -/
structure BufferReads (bound : Nat) (requests : List ReadRequest) : Prop where
  count : requests.length ≤ 1
  each : ∀ r ∈ requests, r.size.toNat ≤ bound

/-- Reads of runs of entries: each takes some entries, at most as many as the limit, begins where
the one before it ended and ends at the bound or before it. -/
inductive EntryReads (limit entries bound : Nat) : Nat → List ReadRequest → Prop where
  | done (index : Nat) : EntryReads limit entries bound index []
  | batch {index count : Nat} {request : ReadRequest} {rest : List ReadRequest}
      (some : 0 < count) (few : count ≤ limit) (inside : index + count ≤ bound)
      (address : request.address.toNat = entries + 24 * index)
      (size : request.size.toNat = 24 * count)
      (next : EntryReads limit entries bound (index + count) rest) :
      EntryReads limit entries bound index (request :: rest)

theorem slotReads_none (address : UInt64) (bound : Nat) : SlotReads address bound [] :=
  ⟨by simp, by simp⟩

theorem bufferReads_none (bound : Nat) : BufferReads bound [] := ⟨by simp, by simp⟩

theorem bufferReads_one {address size : UInt64} {bound : Nat} (small : size.toNat ≤ bound) :
    BufferReads bound [⟨address, size⟩] := ⟨by simp, by simpa using small⟩

section
variable {limit entries bound index : Nat} {requests : List ReadRequest}

/-- The batches stay inside the range that is read. -/
theorem EntryReads.each (reads : EntryReads limit entries bound index requests) :
    ∀ r ∈ requests, r.size.toNat ≤ 24 * limit ∧ entries + 24 * index ≤ r.address.toNat ∧
      r.address.toNat + r.size.toNat ≤ entries + 24 * bound := by
  induction reads with
  | done index => simp
  | batch some few inside address size next ih =>
    intro r among
    rcases List.mem_cons.mp among with rfl | later
    · omega
    · have known := ih r later
      omega

/-- No entry is read twice. -/
theorem EntryReads.disjoint (reads : EntryReads limit entries bound index requests) :
    requests.Pairwise fun a b => a.address.toNat + a.size.toNat ≤ b.address.toNat := by
  induction reads with
  | done index => exact .nil
  | batch some few inside address size next ih =>
    refine .cons (fun r later => ?_) ih
    have known := next.each r later
    omega

end

/-- The object was parsed from the answer to the last of the reads of its slot. -/
def ObjectRead.ParsedFrom (t : Target) (type : String) (before : Trace) (slot : List ReadRequest)
    (r : ObjectRead) : Prop :=
  ∃ earlier size, slot = earlier ++ [⟨r.object.address, size⟩] ∧
    r.FromSlot t type (before ++ earlier.toArray) size

/-- What the slot of a hash says about its entries elsewhere, if that is where it has them. -/
def ObjectRead.Describes (i : Inspector) (r : ObjectRead) (range : EntryRange) : Prop :=
  i.flag r.object.header.flags .hashTableFlag = true ∧ ∃ own table bytes address,
    i.target.layout "struct RHash" = .ok own ∧ i.target.layout "st_table" = .ok table ∧
    r.bytes.slice? own.size.toNat table.size.toNat = some bytes ∧
    Inspector.entryRange ⟨table, bytes, address⟩ = .ok range

/-- The reads of a slot, then the rest, which may depend on what they said. -/
def SlotFirst (own : List ReadRequest → Prop) (away : List ReadRequest → List ReadRequest → Prop)
    (requests : List ReadRequest) : Prop :=
  ∃ slot rest, requests = slot ++ rest ∧ own slot ∧ away slot rest

/-- Reads of an object that begin with those of its slot. The rest may depend on what they said. -/
def SlotThen (address : UInt64) (bound : Nat)
    (away : List ReadRequest → List ReadRequest → Prop) (requests : List ReadRequest) : Prop :=
  ∃ slot rest, requests = slot ++ rest ∧ SlotReads address bound slot ∧ away slot rest

namespace Inspector

/-- The reads that classify a word, followed by those for its object if it has one. -/
def ClassifiedReads (i : Inspector) (word : UInt64) (before : Trace)
    (object : HeapObject → Trace → List ReadRequest → Prop) (requests : List ReadRequest) : Prop :=
  match i.classify word before with
  | (.ok (.immediate _ _), _) => requests = []
  | (.ok (.heap o), after) => o.address = word ∧
    ∃ more, requests = ⟨word, 16⟩ :: more ∧ object o after more
  | (.error (.unclassifiable _), _) => requests = []
  | (.error _, _) => requests = [⟨word, 16⟩]

/-- The reads of a slot: one, and one more if the first does not hold what its own fields call
for. -/
def Retries (i : Inspector) (o : HeapObject) (type : String)
    (extent : Value → Header → Except InspectError UInt64) (size : UInt64) (before : Trace)
    (slot : List ReadRequest) : Prop :=
  slot = [⟨o.address, size⟩] ∨ ∃ (r : ObjectRead) (needed : UInt64),
    r.FromSlot i.target type before size ∧ r.object.address = o.address ∧
    extent r.fields r.object.header = .ok needed ∧ r.bytes.length < needed.toNat ∧
    slot = [⟨o.address, size⟩, ⟨o.address, needed⟩]

/-- The reads for an array, a record or an integer: its words lie in the slot or in one buffer. -/
def RowReads (i : Inspector) (o : HeapObject) : List ReadRequest → Prop :=
  SlotThen o.address (max 40 (16 + 8 * i.limit.toNat))
    fun _ rest => BufferReads (8 * i.limit.toNat) rest

def StringReads (o : HeapObject) : List ReadRequest → Prop :=
  SlotThen o.address 280 fun _ rest => BufferReads 256 rest

/-- The reads for a word that names a symbol: its text is read if it is a string. -/
def NameReads (i : Inspector) (word : UInt64) (before : Trace) : List ReadRequest → Prop :=
  i.ClassifiedReads word before fun o _ more =>
    if o.type = some .string then StringReads o more else more = []

/-- After the slot of a symbol, the reads for its name. -/
def NamedReads (i : Inspector) (before : Trace) (slot rest : List ReadRequest) : Prop :=
  rest = [] ∨ ∃ r name, ObjectRead.ParsedFrom i.target "struct RSymbol" before slot r ∧
    r.fields.unsignedMember "fstr" = .ok name ∧ i.NameReads name (before ++ slot.toArray) rest

/-- After the slot of a hash, the reads of the entries that it describes. -/
def DescribedReads (i : Inspector) (before : Trace) (slot rest : List ReadRequest) : Prop :=
  rest = [] ∨ ∃ r range, ObjectRead.ParsedFrom i.target "struct RHash" before slot r ∧
    r.Describes i range ∧
    EntryReads i.limit.toNat range.entries.toNat range.bound.toNat range.start.toNat rest

/-- The reads for an object after it was classified, by its type. -/
def ObjectReads (i : Inspector) (o : HeapObject) (before : Trace) : List ReadRequest → Prop :=
  match o.type with
  | some .array | some .record | some .bignum => i.RowReads o
  | some .string => StringReads o
  | some .float => SlotReads o.address 24
  | some .symbol => SlotThen o.address 40 (i.NamedReads before)
  | some .hash => SlotThen o.address 160 (i.DescribedReads before)
  | _ => (· = [])

section Slot
variable {i : Inspector} {o : HeapObject} {type : String} {l : Layout}
  {extent : Value → Header → Except InspectError UInt64} {before : Trace} {bound : Nat}

theorem readSlot_asks (size : UInt64) :
    Asks (i.readSlot o l extent size) before (· = [⟨o.address, size⟩]) := by
  unfold readSlot
  apply asks_bind (asks_read _ _ _) fun _ one => one
  rintro bytes _ - rfl
  split
  · exact asks_fail rfl
  · refine asks_after_access rfl fun header _ => ?_
    refine asks_after_lift rfl fun needed _ => ?_
    exact asks_ite (fun _ => asks_pure rfl) fun _ => asks_pure rfl

/-- A slot of which not enough was read, as the answer to that read describes it. -/
theorem readSlot_short {size needed : UInt64} {after : Trace} (named : i.target.layout type = .ok l)
    (run : i.readSlot o l extent size before = (.ok (.inr needed), after)) :
    ∃ r : ObjectRead, r.FromSlot i.target type before size ∧ r.object.address = o.address ∧
      extent r.fields r.object.header = .ok needed ∧ r.bytes.length < needed.toNat := by
  unfold readSlot at run
  obtain ⟨bytes, middle, read, run⟩ := bind_ok run
  obtain ⟨answer, rfl⟩ := Target.read_ok read
  cases part : bytes.slice? 0 l.size.toNat with
  | none => rw [part] at run; cases run
  | some own =>
    rw [part] at run
    obtain ⟨header, parsed, run⟩ := access_bind_ok run
    obtain ⟨called, sized, run⟩ := lift_bind_ok run
    have place : o.address = header.address := Option.some.inj (Header.ofValue_address parsed)
    by_cases fits : called.toNat ≤ bytes.length
    · rw [if_pos fits] at run
      cases run
    · rw [if_neg fits] at run
      cases run
      refine ⟨⟨⟨l, own, some o.address⟩, o.withHeader header, bytes⟩, ?_, place.symm, sized,
        Nat.lt_of_not_le fits⟩
      rw [place] at answer parsed ⊢
      exact ⟨answer, ⟨l, own, named, part, rfl⟩, parsed⟩

theorem readObject_retries (named : i.target.layout type = .ok l) (hint : UInt64) :
    Asks (i.readObject o type hint extent) before
      (i.Retries o type extent (max l.size hint) before) := by
  unfold readObject
  apply asks_after_found named
  apply asks_bind (readSlot_asks _)
  · rintro _ rfl
    exact .inl rfl
  · rintro (r | needed) _ run rfl
    · exact asks_pure (.inl rfl)
    · obtain ⟨r, short, place, sized, less⟩ := readSlot_short named run
      have two : i.Retries o type extent (max l.size hint) before
          ([⟨o.address, max l.size hint⟩] ++ [⟨o.address, needed⟩]) :=
        .inr ⟨r, needed, short, place, sized, less, rfl⟩
      apply asks_bind (readSlot_asks needed)
      · rintro _ rfl
        exact two
      · rintro (r | more) _ - rfl
        · exact asks_pure two
        · exact asks_fail two

theorem readObject_asks {hint : UInt64} (named : i.target.layout type = .ok l)
    (own : l.size.toNat ≤ bound) (hinted : hint.toNat ≤ bound)
    (extended : ∀ fields header needed, extent fields header = .ok needed →
      needed.toNat ≤ bound) :
    Asks (i.readObject o type hint extent) before (SlotReads o.address bound) := by
  have first : (max l.size hint).toNat ≤ bound := toNat_max_le own hinted
  apply (readObject_retries named hint).mono
  rintro slot (rfl | ⟨r, needed, -, -, sized, -, rfl⟩)
  · exact ⟨by simp, by simpa using first⟩
  · exact ⟨by simp, by simpa using ⟨first, extended _ _ _ sized⟩⟩

theorem readObject_parsed {hint : UInt64} {r : ObjectRead} {slot : List ReadRequest}
    (run : i.readObject o type hint extent before = (.ok r, before ++ slot.toArray)) :
    r.ParsedFrom i.target type before slot := by
  obtain ⟨last, size, longer, parsed, grown⟩ := readObject_ok run
  have sizes := congrArg Array.size grown
  have lists := congrArg Array.toList grown
  simp only [Array.size_append, List.size_toArray, Array.size_push] at sizes
  rw [Array.toList_append, Array.toList_push] at lists
  rcases List.eq_nil_or_concat' slot with rfl | ⟨earlier, request, rfl⟩
  · simp only [List.length_nil] at sizes
    omega
  · rw [← List.append_assoc] at lists
    obtain ⟨same, final⟩ := List.append_inj' lists rfl
    cases final
    refine ⟨earlier, size, rfl, ?_⟩
    have place : before ++ earlier.toArray = last := Array.toList_inj.mp (by simpa using same)
    rwa [place]

/-- Every decoder first reads the slot and then what lies elsewhere. -/
theorem slot_first_asks {α : Type} {hint : UInt64} {f : ObjectRead → Probe α}
    {own : List ReadRequest → Prop} {away : List ReadRequest → List ReadRequest → Prop}
    (slot : Asks (i.readObject o type hint extent) before own) (nothing : ∀ slot, away slot [])
    (next : ∀ r slot, r.ParsedFrom i.target type before slot →
      Asks (f r) (before ++ slot.toArray) (away slot)) :
    Asks (i.readObject o type hint extent >>= f) before (SlotFirst own away) := by
  apply asks_bind slot
  · intro slot reads
    exact ⟨slot, [], (List.append_nil slot).symm, reads, nothing slot⟩
  · intro r slot run reads
    apply (next r slot (readObject_parsed run)).mono
    intro rest elsewhere
    exact ⟨slot, rest, rfl, reads, elsewhere⟩

theorem slot_then_asks {α : Type} {hint : UInt64} {f : ObjectRead → Probe α}
    {away : List ReadRequest → List ReadRequest → Prop} (named : i.target.layout type = .ok l)
    (own : l.size.toNat ≤ bound) (hinted : hint.toNat ≤ bound)
    (extended : ∀ fields header needed, extent fields header = .ok needed →
      needed.toNat ≤ bound)
    (nothing : ∀ slot, away slot [])
    (next : ∀ r slot, r.ParsedFrom i.target type before slot →
      Asks (f r) (before ++ slot.toArray) (away slot)) :
    Asks (i.readObject o type hint extent >>= f) before (SlotThen o.address bound away) :=
  slot_first_asks (readObject_asks named own hinted extended) nothing next

end Slot

section Decoders
variable {i : Inspector} {before : Trace}

theorem read_few_asks {count : UInt64} (address : UInt64) (few : count ≤ i.limit) :
    Asks (i.target.read address (count * 8)) before (BufferReads (8 * i.limit.toNat)) := by
  apply (asks_read i.target address _).mono
  rintro _ rfl
  exact bufferReads_one (words_le few)

theorem readWords_asks {count : UInt64} (address : UInt64) (few : count ≤ i.limit) :
    Asks (i.readWords address count) before (BufferReads (8 * i.limit.toNat)) := by
  unfold readWords
  refine asks_ite (fun _ => asks_pure (bufferReads_none _)) fun _ => ?_
  refine asks_guard (bufferReads_none _) fun _ => ?_
  exact asks_then_pure (read_few_asks address few)

theorem rowReads_none (o : HeapObject) : i.RowReads o [] :=
  ⟨[], [], rfl, slotReads_none _ _, bufferReads_none _⟩

variable (layouts : i.target.layout = Registry.standard.lookup) (o : HeapObject)
include layouts

theorem layout_standard {type : String} {l : Layout}
    (named : Registry.standard.lookup type = .ok l) : i.target.layout type = .ok l := by
  rw [layouts, named]

theorem offsetOf_standard {type field : String} {l member : Layout} {offset : UInt64}
    (named : Registry.standard.lookup type = .ok l)
    (found : l.member? field = some (offset, member)) :
    i.target.offsetOf type field = .ok offset := by
  unfold Target.offsetOf
  rw [layout_standard layouts named]
  dsimp only [Bind.bind, Except.bind]
  rw [found]
  rfl

theorem pairLayout_standard : i.pairLayout = .ok ⟨8, 16, 0, 8, 8⟩ := by
  unfold pairLayout
  rw [layouts]
  rfl

/-- The decoders of arrays, records and integers differ in how they find the size of the slot. -/
theorem row_then_asks {α : Type} {type : String} {l : Layout} {size : UInt64 → UInt64}
    {f : ObjectRead → Probe α} (named : Registry.standard.lookup type = .ok l)
    (own : l.size.toNat ≤ 40) (small : ∀ flags, (size flags).toNat ≤ 16 + 8 * i.limit.toNat)
    (next : ∀ r later, Asks (f r) later (BufferReads (8 * i.limit.toNat))) :
    Asks (i.readObject o type (size o.header.flags) (fun _ header => .ok (size header.flags)) >>= f)
      before (i.RowReads o) := by
  apply slot_then_asks (layout_standard layouts named)
  · exact Nat.le_trans own (Nat.le_max_left _ _)
  · exact Nat.le_trans (small _) (Nat.le_max_right _ _)
  · intro fields header needed sized
    cases sized
    exact Nat.le_trans (small _) (Nat.le_max_right _ _)
  · intro slot
    exact bufferReads_none _
  · intro r slot _
    exact next r _

theorem decodeArray_asks : Asks (i.decodeArray o) before (i.RowReads o) := by
  unfold decodeArray
  refine asks_after_access (rowReads_none o) fun offset placed => ?_
  cases placed.symm.trans (offsetOf_standard layouts Registry.lookup_array rfl)
  apply row_then_asks layouts o Registry.lookup_array (Nat.le_refl 40) arrayExtent_le
  intro r later
  apply asks_ite
  · intro _
    exact asks_after_lift (bufferReads_none _) fun ws _ => asks_pure (bufferReads_none _)
  · intro _
    refine asks_after_access (bufferReads_none _) fun length _ => ?_
    refine asks_guard (bufferReads_none _) fun _ => ?_
    refine asks_after_access (bufferReads_none _) fun pointer _ => ?_
    refine asks_guard (bufferReads_none _) fun _ => ?_
    exact asks_then_pure (readWords_asks _ Std.min_le_right)

theorem decodeRecord_asks : Asks (i.decodeRecord o) before (i.RowReads o) := by
  unfold decodeRecord
  refine asks_after_access (rowReads_none o) fun offset placed => ?_
  cases placed.symm.trans (offsetOf_standard layouts Registry.lookup_struct rfl)
  apply row_then_asks layouts o Registry.lookup_struct (Nat.le_refl 40) recordExtent_le
  intro r later
  apply asks_ite
  · intro _
    refine asks_after_access (bufferReads_none _) fun length _ => ?_
    refine asks_guard (bufferReads_none _) fun _ => ?_
    refine asks_after_access (bufferReads_none _) fun pointer _ => ?_
    exact asks_then_pure (readWords_asks _ Std.min_le_right)
  · intro _
    exact asks_after_lift (bufferReads_none _) fun ws _ => asks_pure (bufferReads_none _)

theorem decodeBignum_asks : Asks (i.decodeBignum o) before (i.RowReads o) := by
  unfold decodeBignum
  refine asks_after_access (rowReads_none o) fun offset placed => ?_
  cases placed.symm.trans (offsetOf_standard layouts Registry.lookup_bignum rfl)
  refine asks_after_access (rowReads_none o) fun digit named => ?_
  cases named.symm.trans (layout_standard layouts Registry.lookup_bigDigit)
  apply row_then_asks layouts o Registry.lookup_bignum (Nat.le_refl 40) bignumExtent_le
  intro r later
  have nothing (v : BignumView) : Asks (pure v : Probe BignumView) later
      (BufferReads (8 * i.limit.toNat)) := asks_pure (bufferReads_none _)
  apply asks_ite
  · intro _
    refine asks_ite (fun _ => ?_) fun _ => nothing _
    exact asks_after_lift (bufferReads_none _) fun bytes _ => nothing _
  · intro _
    refine asks_after_access (bufferReads_none _) fun length _ => ?_
    refine asks_after_access (bufferReads_none _) fun digits _ => ?_
    refine asks_guard (bufferReads_none _) fun _ => ?_
    refine asks_ite (fun _ => nothing _) fun _ => ?_
    refine asks_ite (fun few => ?_) fun _ => nothing _
    exact asks_then_pure (read_few_asks _ few)

theorem decodeFloat_asks : Asks (i.decodeFloat o) before (SlotReads o.address 24) := by
  unfold decodeFloat
  apply asks_bind (readObject_asks (layout_standard layouts rfl) (Nat.le_refl 24) (Nat.zero_le _) _)
  · exact fun _ reads => reads
  · intro r slot _ reads
    have nothing : SlotReads o.address 24 (slot ++ []) := by rwa [List.append_nil]
    exact asks_after_access nothing fun x _ => asks_pure nothing
  · intro fields header needed sized
    cases sized
    exact Nat.zero_le _

theorem decodeString_asks : Asks (i.decodeString o) before (StringReads o) := by
  have none : StringReads o [] := ⟨[], [], rfl, slotReads_none _ _, bufferReads_none _⟩
  unfold decodeString
  refine asks_after_access none fun offset placed => ?_
  cases placed.symm.trans (offsetOf_standard layouts Registry.lookup_string rfl)
  apply slot_then_asks (layout_standard layouts Registry.lookup_string) (by decide) (Nat.zero_le _)
  · intro fields header needed sized
    exact stringExtent_le sized
  · intro slot
    exact bufferReads_none _
  · intro r slot _
    refine asks_after_access (bufferReads_none _) fun length _ => ?_
    refine asks_guard (bufferReads_none _) fun _ => ?_
    apply asks_ite
    · intro _
      exact asks_after_lift (bufferReads_none _) fun bytes _ => asks_pure (bufferReads_none _)
    · intro _
      refine asks_after_access (bufferReads_none _) fun pointer _ => ?_
      refine asks_guard (bufferReads_none _) fun _ => ?_
      refine asks_ite (fun _ => asks_pure (bufferReads_none _)) fun _ => ?_
      apply asks_then_pure ((asks_read _ _ _).mono _)
      rintro _ rfl
      exact bufferReads_one (min_limit_le _ previewBytes)

theorem classifyObject_address {word : UInt64} {c : HeapObject} {after : Trace}
    (run : classifyObject i.target i.constants word before = (.ok c, after)) :
    c.address = word := by
  rw [classifyObject_standard layouts] at run
  obtain ⟨bytes, middle, _, run⟩ := bind_ok run
  obtain ⟨header, parsed, run⟩ := access_bind_ok run
  cases run
  exact (Option.some.inj (Header.ofValue_address parsed)).symm

/-- Classification reads a header or nothing, and nothing when it ends in an error of its own. -/
theorem classify_cases (word : UInt64) (before : Trace) :
    (∃ value, i.classify word before = (.ok (.immediate word value), before)) ∨
    i.classify word before = (.error (.unclassifiable word), before) ∨
    (∃ cause, i.classify word before = (.error (.access cause), before.push ⟨word, 16⟩)) ∨
    ∃ c, c.address = word ∧ i.classify word before = (.ok (.heap c), before.push ⟨word, 16⟩) := by
  cases encoded : Immediate.ofWord? i.constants word with
  | some value => exact .inl ⟨value, classify_immediate encoded⟩
  | none =>
    by_cases clear : word &&& i.constants.get .immediateMask = 0
    · have object : i.classify word = (do
          return .heap (← classifyObject i.target i.constants word)) :=
        classify_object encoded clear
      have reads := @classifyObject_reads i.target i.constants word before layouts
      have access : Confined (classifyObject i.target i.constants word) (fun _ => True)
          fun e => ∃ cause, e = .access cause :=
        classifyObject_confined i.target lasting_true (fun cause _ => ⟨cause, rfl⟩) _ word
      rw [object, bind_apply]
      cases run : classifyObject i.target i.constants word before with
      | mk outcome after =>
        rw [run] at reads
        dsimp only at reads
        subst reads
        cases outcome with
        | error e =>
          obtain ⟨cause, rfl⟩ := access.error before e trivial (by rw [run])
          exact .inr (.inr (.inl ⟨cause, rfl⟩))
        | ok c =>
          exact .inr (.inr (.inr ⟨c, classifyObject_address layouts run, rfl⟩))
    · refine .inr (.inl ?_)
      unfold Inspector.classify HeapLens.classify
      rw [encoded]
      exact congrFun (if_pos clear) before

theorem classify_then_asks {α : Type} {f : Classification → Probe α}
    {object : HeapObject → Trace → List ReadRequest → Prop}
    (immediate : ∀ word value before, Asks (f (.immediate word value)) before (· = []))
    (heap : ∀ c before, Asks (f (.heap c)) before (object c before)) (word : UInt64) :
    Asks (i.classify word >>= f) before (i.ClassifiedReads word before object) := by
  unfold ClassifiedReads
  rcases classify_cases layouts word before with
    ⟨value, run⟩ | run | ⟨cause, run⟩ | ⟨c, place, run⟩
  · rw [run]
    obtain ⟨requests, grown, rfl⟩ := (immediate word value before).made
    exact ⟨[], by rw [bind_at run, grown], rfl⟩
  · rw [run]
    exact ⟨[], by rw [bind_apply, run]; simp, rfl⟩
  · rw [run]
    exact ⟨[⟨word, 16⟩], by rw [bind_apply, run, Array.push_eq_append], rfl⟩
  · rw [run]
    obtain ⟨more, grown, holds⟩ := (heap c (before.push ⟨word, 16⟩)).made
    exact ⟨⟨word, 16⟩ :: more, by rw [bind_at run, grown]; simp, place, more, rfl, holds⟩

theorem stringBytes_asks (word : UInt64) :
    Asks (i.stringBytes word) before (i.NameReads word before) := by
  unfold stringBytes NameReads
  apply classify_then_asks layouts
  · intro word value later
    exact asks_pure rfl
  · intro c later
    by_cases text : c.type = some .string
    · simp only [if_pos text]
      exact asks_then_pure (decodeString_asks layouts c)
    · simp only [if_neg text]
      exact asks_pure rfl

theorem decodeSymbol_asks : Asks (i.decodeSymbol o) before
    (SlotThen o.address 40 (i.NamedReads before)) := by
  unfold decodeSymbol
  apply slot_then_asks (layout_standard layouts rfl) (Nat.le_refl 40) (Nat.zero_le _)
  · intro fields header needed sized
    cases sized
    exact Nat.zero_le _
  · intro slot
    exact .inl rfl
  · intro r slot parsed
    refine asks_after_access (.inl rfl) fun id _ => ?_
    refine asks_after_access (.inl rfl) fun name named => ?_
    have read : ∀ requests, i.NameReads name (before ++ slot.toArray) requests →
        i.NamedReads before slot requests :=
      fun requests reads => .inr ⟨r, name, parsed, named, reads⟩
    apply asks_bind (asks_attempt (stringBytes_asks layouts name)) read
    intro outcome requests _ reads
    have nothing := read requests reads
    rw [← List.append_nil requests] at nothing
    cases outcome with
    | ok text => exact asks_pure nothing
    | error e => exact asks_pure nothing

omit layouts in
/-- A batch begins where the one before it ended, whatever was found in it. -/
theorem readEntries_asks {r : EntryRange} (possible : r.Plausible) (address key value : UInt64)
    (index : Nat) (found : List (UInt64 × UInt64)) (started : r.start.toNat ≤ index) :
    ∀ before, Asks (i.readEntries address r 24 key value index found) before
      (EntryReads i.limit.toNat r.entries.toNat r.bound.toNat index) := by
  induction index, found using readEntries.induct i r 24 key value with
  | case1 index found more start outside =>
    intro before
    rw [readEntries, dif_pos more]
    dsimp only
    rw [if_pos outside]
    exact asks_fail (.done index)
  | case2 index found more count start inside ih =>
    intro before
    have slots := possible.slots_le
    have limit := i.limit.toNat_lt
    have space : UInt64.size = 2 ^ 64 := rfl
    have counted : count = min (r.bound.toNat - index) i.limit.toNat := rfl
    have placed : start = r.entries.toNat + index * 24 := rfl
    have place : (UInt64.ofNat start).toNat = start :=
      UInt64.toNat_ofNat_of_lt' (Nat.lt_of_not_le inside)
    have size : (UInt64.ofNat count * 24).toNat = 24 * count := by
      rw [UInt64.toNat_mul, UInt64.toNat_ofNat_of_lt' (by omega)]
      have stride : (24 : UInt64).toNat = 24 := rfl
      rw [stride]
      omega
    have reads {rest : List ReadRequest}
        (next : EntryReads i.limit.toNat r.entries.toNat r.bound.toNat (index + count) rest) :
        EntryReads i.limit.toNat r.entries.toNat r.bound.toNat index
          ([⟨UInt64.ofNat start, UInt64.ofNat count * 24⟩] ++ rest) :=
      .batch (by omega) (by omega) (by omega) (place.trans (by omega)) size next
    rw [readEntries, dif_pos more]
    dsimp only
    rw [if_neg inside]
    apply asks_bind (asks_read _ _ _)
    · rintro _ rfl
      exact reads (.done _)
    · rintro bytes _ - rfl
      exact (ih bytes (by omega) _).mono fun rest => reads
  | case3 index found done =>
    intro before
    rw [readEntries, dif_neg done]
    exact asks_pure (.done index)

theorem decodeEntries_asks (table : Value) {slot : List ReadRequest}
    (describes : ∀ range, entryRange table = .ok range → ∃ r,
      ObjectRead.ParsedFrom i.target "struct RHash" before slot r ∧ r.Describes i range) :
    Asks (i.decodeEntries o table) (before ++ slot.toArray) (i.DescribedReads before slot) := by
  unfold decodeEntries
  refine asks_after_access (.inl rfl) fun range said => ?_
  refine asks_ite (fun possible => ?_) fun _ => asks_fail (.inl rfl)
  refine asks_after_access (.inl rfl) fun entry named => ?_
  cases named.symm.trans (layout_standard layouts rfl)
  refine asks_after_access (.inl rfl) fun key _ => ?_
  refine asks_after_access (.inl rfl) fun value _ => ?_
  apply asks_then_pure ((readEntries_asks possible _ _ _ _ _ (Nat.le_refl _) _).mono _)
  intro rest reads
  obtain ⟨r, parsed, describes⟩ := describes range said
  exact .inr ⟨r, range, parsed, describes, reads⟩

theorem decodeHash_asks : Asks (i.decodeHash o) before
    (SlotThen o.address 160 (i.DescribedReads before)) := by
  have none : SlotThen o.address 160 (i.DescribedReads before) [] :=
    ⟨[], [], rfl, slotReads_none _ _, .inl rfl⟩
  unfold decodeHash
  refine asks_after_access none fun own named => ?_
  cases named.symm.trans (layout_standard layouts Registry.lookup_hash)
  refine asks_after_access none fun table named => ?_
  cases named.symm.trans (layout_standard layouts Registry.lookup_table)
  refine asks_after_access none fun p rows => ?_
  cases rows.symm.trans (pairLayout_standard layouts)
  refine asks_after_lift none fun hint hinted => ?_
  apply slot_then_asks (layout_standard layouts Registry.lookup_hash) (by decide) (hashExtent_le hinted)
  · intro fields header needed sized
    exact hashExtent_le sized
  · intro slot
    exact .inl rfl
  · intro r slot parsed
    refine asks_after_access (.inl rfl) fun default _ => ?_
    refine asks_after_lift (.inl rfl) fun address _ => ?_
    refine asks_ite (fun large => ?_) fun small => ?_
    · refine asks_after_lift (.inl rfl) fun inline inside => ?_
      apply asks_then_pure (decodeEntries_asks layouts _ _ _)
      intro range said
      exact ⟨r, parsed, large, _, _, inline, _, layout_standard layouts Registry.lookup_hash,
        layout_standard layouts Registry.lookup_table, r.inline_ok inside, said⟩
    · refine asks_after_lift (.inl rfl) fun counts _ => ?_
      exact asks_after_lift (.inl rfl) fun bytes _ => asks_pure (.inl rfl)

theorem decodeObject_asks : Asks (i.decodeObject o) before (i.ObjectReads o before) := by
  unfold decodeObject ObjectReads
  cases o.type with
  | none => exact asks_pure rfl
  | some kind =>
    cases kind with
    | string => exact asks_then_pure (decodeString_asks layouts o)
    | array => exact asks_then_pure (decodeArray_asks layouts o)
    | hash => exact asks_then_pure (decodeHash_asks layouts o)
    | record => exact asks_then_pure (decodeRecord_asks layouts o)
    | float => exact asks_then_pure (decodeFloat_asks layouts o)
    | bignum => exact asks_then_pure (decodeBignum_asks layouts o)
    | symbol => exact asks_then_pure (decodeSymbol_asks layouts o)
    | _ => exact asks_pure rfl

/-- All that one interpretation reads, for every target with the standard layouts: memory may
change between two reads and the constants and the limit may be any. -/
theorem interpret_asks (word : UInt64) (before : Trace) :
    Asks (i.interpret word) before (i.ClassifiedReads word before i.ObjectReads) := by
  unfold interpret
  apply classify_then_asks layouts
  · intro word value later
    exact asks_pure rfl
  · intro c later
    exact decodeObject_asks layouts c

end Decoders

/-- A hash with three slots in use behind an unused one, the first of them deleted. Two live entries
are wanted, so a second batch is read. -/
def batched : Inspector :=
  { ofWords [32776, 17, 4, 2, 0, 2, 0, 1, 4, 80, 0, 36, 0, 0, 36, 0, 0, 3, 5, 0, 7, 9] with
    limit := 2 }

theorem batched_asks :
    batched.target.layout = Registry.standard.lookup ∧
      (batched.interpret 176 #[]).2 = #[⟨176, 16⟩, ⟨176, 80⟩, ⟨104, 48⟩, ⟨152, 24⟩] ∧
      Asks (batched.interpret 176) #[] (batched.ClassifiedReads 176 #[] batched.ObjectReads) :=
  ⟨rfl, by decide +kernel, interpret_asks rfl 176 #[]⟩

end Inspector
end HeapLens
