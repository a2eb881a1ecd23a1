import HeapLens.Proofs.Text.Plain
import HeapLens.Proofs.View.Children

/-!
What interpretation does besides its result. It adds reads to the list and takes none away, and it
fails because of a name, a type or a read, of tag bits that fit no encoding, or of the contents of
an object, never because of an option, a constant table or the output. The names in such an error
are those of the program and those that the target gives to its layouts.
-/
namespace HeapLens
open Run Text

/-- A property that further reads do not undo. -/
def Lasting (P : Trace → Prop) : Prop := ∀ trace request, P trace → P (trace.push request)

theorem lasting_size (count : Nat) : Lasting fun reads => count ≤ reads.size := by
  intro reads request least
  rw [Array.size_push]
  exact Nat.le_succ_of_le least

theorem lasting_true : Lasting fun _ => True := fun _ _ _ => trivial

theorem lasting_request (number : Nat) (request : ReadRequest) :
    Lasting fun reads => reads[number]? = some request := by
  intro reads other made
  obtain ⟨bound, _⟩ := Array.getElem?_eq_some_iff.mp made
  rw [Array.getElem?_push_lt bound, ← made, Array.getElem?_eq_getElem bound]

/-! Errors that a target is to blame for. -/

/-- A layout that the target gives for a name, or what such a layout points to. -/
def Target.Lays (t : Target) (l : Layout) : Prop :=
  ∃ name p, t.layout name = .ok p ∧ (p = l ∨ p.target? = some l)

/-- What can be wrong with an access to the target: the range, the name of a layout, or a layout
that is not what it is taken for. Names that are looked up are plain. -/
inductive Target.Refuses (t : Target) : AccessError → Prop where
  | unreadable (range : Unreadable) : t.Refuses (.unreadable range)
  | layout {name : String} {cause : AccessError} (plain : Plain name)
      (failed : t.layout name = .error cause) : t.Refuses cause
  | member {l : Layout} {field : String} (laid : t.Lays l) (plain : Plain field) :
      t.Refuses (.unknownMember l.name field)
  | pointer {l : Layout} (laid : t.Lays l) : t.Refuses (.notPointer l.name)
  | address {l : Layout} (laid : t.Lays l) : t.Refuses (.notAddressable l.name)

/-- Contents that are named in plain words. -/
def Corruption.Worded : Corruption → Prop
  | .negativeLength what _ => Plain what
  | _ => True

/-- The errors that interpretation can end in. -/
inductive Target.Raises (t : Target) : InspectError → Prop where
  | access {cause : AccessError} (refused : t.Refuses cause) : t.Raises (.access cause)
  | unclassifiable (bits : UInt64) : t.Raises (.unclassifiable bits)
  | corrupt {address : UInt64} {fault : Corruption} (worded : fault.Worded) :
      t.Raises (.corrupt address fault)

/-- All of them are allowed. -/
def Admits (t : Target) (E : InspectError → Prop) : Prop := ∀ e, t.Raises e → E e

section
variable {t : Target}

theorem Admits.access {E : InspectError → Prop} (admits : Admits t E) (cause : AccessError)
    (refused : t.Refuses cause) : E (.access cause) := admits _ (.access refused)

theorem admits_all : Admits t fun _ => True := fun _ _ => trivial

theorem admits_raises : Admits t t.Raises := fun _ raised => raised

theorem Target.lays_of_layout {name : String} {l : Layout} (found : t.layout name = .ok l) :
    t.Lays l := ⟨name, l, found, .inl rfl⟩

end

/-- Every error of the outcome has the property. -/
def Blames {ε α : Type} (x : Except ε α) (E : ε → Prop) : Prop := ∀ e, x = .error e → E e

section
variable {ε α β : Type}

theorem blames_ok {E : ε → Prop} (a : α) : Blames (.ok a) E := by
  intro e failed
  cases failed

theorem blames_error {E : ε → Prop} {e : ε} (h : E e) : Blames (.error e : Except ε α) E := by
  intro d failed
  cases failed
  exact h

theorem blames_bind {E : ε → Prop} {x : Except ε α} {f : α → Except ε β} (first : Blames x E)
    (next : ∀ a, x = .ok a → Blames (f a) E) : Blames (x >>= f) E := by
  intro e failed
  cases x with
  | error d => cases failed; exact first _ rfl
  | ok a => exact next a rfl e failed

variable {σ : Type} {P : σ → Prop} {E : InspectError → Prop} {t : Target}
  (access : ∀ cause, t.Refuses cause → E (.access cause)) {x : Except AccessError α}
  (refused : Blames x t.Refuses)
include access refused

theorem blames_access : Blames (liftM x : Except InspectError α) E := by
  intro e failed
  cases x with
  | error cause => cases failed; exact access cause (refused cause rfl)
  | ok a => cases failed

theorem confined_refused : Confined (liftM x : Run σ α) P E :=
  confined_access fun cause failed => access cause (refused cause failed)

theorem confined_bind_refused {f : α → Run σ β} (next : ∀ a, x = .ok a → Confined (f a) P E) :
    Confined ((liftM x : Run σ α) >>= f) P E :=
  confined_bind_access (fun cause failed => access cause (refused cause failed)) next

end

/-! Access without reading. -/

section
variable (t : Target) {v : Value} {field : String}

theorem Target.layout_refuses {name : String} (plain : Plain name) :
    Blames (t.layout name) t.Refuses := fun _ failed => .layout plain failed

theorem Target.offsetOf_refuses {type : String} (plain : Plain type) (named : Plain field) :
    Blames (t.offsetOf type field) t.Refuses := by
  refine blames_bind (t.layout_refuses plain) fun l found => ?_
  split
  · exact blames_ok _
  · exact blames_error (.member (lays_of_layout found) named)

variable {t}

theorem Value.member_refuses (laid : t.Lays v.type) (plain : Plain field) :
    Blames (v.member field) t.Refuses := by
  unfold member
  split
  · exact blames_error (.member laid plain)
  · split
    · exact blames_error (.member laid plain)
    · exact blames_ok _

theorem Value.unsignedMember_refuses (laid : t.Lays v.type) (plain : Plain field) :
    Blames (v.unsignedMember field) t.Refuses :=
  blames_bind (member_refuses laid plain) fun _ _ => blames_ok _

theorem Value.signedMember_refuses (laid : t.Lays v.type) (plain : Plain field) :
    Blames (v.signedMember field) t.Refuses :=
  blames_bind (member_refuses laid plain) fun _ _ => blames_ok _

theorem Value.requireAddress_refuses (laid : t.Lays v.type) :
    Blames v.requireAddress t.Refuses := by
  unfold requireAddress
  split
  · exact blames_ok _
  · exact blames_error (.address laid)

theorem Header.ofValue_refuses (laid : t.Lays v.type) : Blames (ofValue v) t.Refuses := by
  refine blames_bind (Value.requireAddress_refuses laid) fun address _ => ?_
  refine blames_bind (Value.unsignedMember_refuses laid (by decide)) fun flags _ => ?_
  exact blames_bind (Value.unsignedMember_refuses laid (by decide)) fun klass _ => blames_ok _

theorem Inspector.memberOffset_refuses {l : Layout} (laid : t.Lays l) (plain : Plain field) :
    Blames (memberOffset l field) t.Refuses := by
  unfold memberOffset
  split
  · exact blames_ok _
  · exact blames_error (.member laid plain)

theorem Inspector.pairLayout_refuses (i : Inspector) : Blames i.pairLayout i.target.Refuses := by
  refine blames_bind (i.target.layout_refuses (by decide)) fun table named => ?_
  refine blames_bind (i.target.layout_refuses (by decide)) fun pair paired => ?_
  have laid := Target.lays_of_layout named
  have one := Target.lays_of_layout paired
  refine blames_bind (memberOffset_refuses laid (by decide)) fun offset _ => ?_
  refine blames_bind (memberOffset_refuses one (by decide)) fun key _ => ?_
  exact blames_bind (memberOffset_refuses one (by decide)) fun value _ => blames_ok _

theorem Inspector.entryRange_refuses (laid : t.Lays v.type) :
    Blames (entryRange v) t.Refuses := by
  refine blames_bind (Value.unsignedMember_refuses laid (by decide)) fun size _ => ?_
  refine blames_bind (Value.unsignedMember_refuses laid (by decide)) fun start _ => ?_
  refine blames_bind (Value.unsignedMember_refuses laid (by decide)) fun bound _ => ?_
  refine blames_bind (Value.unsignedMember_refuses laid (by decide)) fun power _ => ?_
  exact blames_bind (Value.unsignedMember_refuses laid (by decide)) fun entries _ => blames_ok _

end

/-! Reading and classifying objects. -/

section
variable {P : Trace → Prop} {E : InspectError → Prop} (t : Target) (lasting : Lasting P)
  (access : ∀ cause, t.Refuses cause → E (.access cause))
include lasting access

theorem Target.read_confined (address size : UInt64) : Confined (t.read address size) P E := by
  constructor
  · intro trace before
    rw [read_apply]
    exact lasting _ _ before
  · intro trace e before failed
    rw [read_apply] at failed
    cases answer : t.memory trace.size address size with
    | error range => rw [answer] at failed; cases failed; exact access _ (.unreadable range)
    | ok bytes => rw [answer] at failed; cases failed

theorem fetch_confined (l : Layout) (address : UInt64) :
    Confined (Value.fetch t.read l address) P E := by
  unfold Value.fetch
  exact confined_bind (t.read_confined lasting access _ _) fun bytes => confined_pure _

theorem deref_confined {v : Value} (laid : t.Lays v.type) : Confined (v.deref t.read) P E := by
  unfold Value.deref
  split
  · exact confined_refused access (blames_error (.pointer laid))
  · exact fetch_confined t lasting access _ _

theorem cast_confined {v : Value} (laid : t.Lays v.type) (l : Layout) :
    Confined (v.cast t.read l) P E := by
  unfold Value.cast
  refine confined_ite ?_ (confined_pure _)
  exact confined_bind_refused access (Value.requireAddress_refuses laid) fun address _ =>
    fetch_confined t lasting access _ _

omit lasting access in
theorem cast_ensures_type (v : Value) (l : Layout) :
    Ensures (v.cast t.read l) fun cast => cast.type = l := by
  unfold Value.cast
  refine ensures_ite (ensures_after fun address => ?_) (ensures_pure rfl)
  exact ensures_after fun bytes => ensures_pure rfl

omit lasting access in
theorem deref_ensures_type (v : Value) :
    Ensures (v.deref t.read) fun target => v.type.target? = some target.type := by
  unfold Value.deref
  split
  · exact ensures_access fun _ made => nomatch made
  · next found => exact ensures_after fun bytes => ensures_pure found

theorem classifyObject_confined (k : Constants) (word : UInt64) :
    Confined (classifyObject t k word) P E := by
  unfold classifyObject
  apply confined_bind_refused access (t.layout_refuses (by decide))
  intro l named
  apply confined_bind_refused access (t.layout_refuses (by decide))
  intro p pointed
  apply confined_bind_of (cast_confined t lasting access (Target.lays_of_layout named) p)
    (cast_ensures_type t _ p)
  rintro pointer rfl
  apply confined_bind_of (deref_confined t lasting access (Target.lays_of_layout pointed))
    (deref_ensures_type t pointer)
  intro basic target
  have laid : t.Lays basic.type := ⟨_, _, pointed, .inr target⟩
  exact confined_bind_refused access (Header.ofValue_refuses laid) fun header _ => confined_pure _

end

theorem Inspector.readSlot_confined {P : Trace → Prop} {E : InspectError → Prop} (i : Inspector)
    (lasting : Lasting P) (access : ∀ cause, i.target.Refuses cause → E (.access cause))
    (o : HeapObject) {l : Layout} (laid : i.target.Lays l)
    {extent : Value → Header → Except InspectError UInt64}
    (sized : ∀ fields header, i.target.Lays fields.type → Blames (extent fields header) E)
    (size : UInt64) : Confined (i.readSlot o l extent size) P E := by
  unfold readSlot
  apply confined_bind (i.target.read_confined lasting access _ _)
  intro bytes
  split
  · exact confined_fail (access _ (.unreadable _))
  · next own _ =>
    apply confined_bind_refused access (Header.ofValue_refuses (v := ⟨l, own, some o.address⟩) laid)
    intro header _
    apply confined_bind (confined_lift (sized _ _ laid))
    intro needed
    exact confined_ite (confined_pure _) (confined_pure _)

/-! The decoders. -/

section
variable {t : Target} {E : InspectError → Prop} (admits : Admits t E) (r : ObjectRead)
include admits

theorem ObjectRead.inline_blames (offset length : UInt64) : Blames (r.inline offset length) E := by
  unfold ObjectRead.inline
  split
  · exact blames_ok _
  · exact blames_error (admits _ (.corrupt trivial))

theorem ObjectRead.inlineWords_blames (offset count : UInt64) :
    Blames (r.inlineWords offset count) E :=
  blames_bind (r.inline_blames admits _ _) fun _ _ => blames_ok _

theorem ObjectRead.addressAt_blames (offset : UInt64) : Blames (r.addressAt offset) E := by
  unfold ObjectRead.addressAt
  split
  · exact blames_ok _
  · exact blames_error (admits _ (.corrupt trivial))

variable (i : Inspector)

theorem Inspector.pairCounts_blames (p : PairLayout) (address flags : UInt64) :
    Blames (i.pairCounts p address flags) E := by
  unfold pairCounts
  dsimp only
  split
  · exact blames_error (admits _ (.corrupt trivial))
  · exact blames_ok _

theorem Inspector.hashExtent_blames (p : PairLayout) (own table address flags : UInt64) :
    Blames (i.hashExtent p own table address flags) E := by
  unfold hashExtent
  split
  · exact blames_ok _
  · exact blames_bind (i.pairCounts_blames admits _ _ _) fun counts _ => blames_ok _

theorem Inspector.stringExtent_blames (offset : UInt64) {fields : Value} (header : Header)
    (laid : t.Lays fields.type) : Blames (i.stringExtent offset fields header) E := by
  unfold stringExtent
  split
  · exact blames_bind
      (blames_access admits.access (Value.signedMember_refuses laid (by decide)))
      fun length _ => blames_ok _
  · exact blames_ok _

end

section
variable {P : Trace → Prop} {E : InspectError → Prop} (lasting : Lasting P)
include lasting

theorem classify_confined {t : Target} (admits : Admits t E) (k : Constants) (word : UInt64) :
    Confined (classify t k word) P E := by
  unfold classify
  split
  · exact confined_pure _
  · refine confined_guard (admits _ (.unclassifiable _)) ?_
    exact confined_bind (classifyObject_confined t lasting admits.access k word)
      fun o => confined_pure _

namespace Inspector
variable (i : Inspector) (admits : Admits i.target E)

omit lasting in
theorem readSlot_ensures_type (o : HeapObject) (l : Layout)
    (extent : Value → Header → Except InspectError UInt64) (size : UInt64) :
    Ensures (i.readSlot o l extent size) (Sum.elim (fun r => r.fields.type = l) fun _ => True) := by
  unfold readSlot
  apply ensures_after
  intro bytes
  split
  · exact ensures_fail _
  · apply ensures_after
    intro header
    apply ensures_after
    intro needed
    exact ensures_ite (ensures_pure rfl) (ensures_pure trivial)

omit lasting in
theorem readObject_ensures_laid (o : HeapObject) (type : String) (hint : UInt64)
    (extent : Value → Header → Except InspectError UInt64) :
    Ensures (i.readObject o type hint extent) fun r => i.target.Lays r.fields.type := by
  unfold readObject
  apply ensures_after_access
  intro l found
  have laid := Target.lays_of_layout found
  apply ensures_bind (i.readSlot_ensures_type o l extent _)
  rintro (r | needed) first
  · exact ensures_pure (first ▸ laid)
  · apply ensures_bind (i.readSlot_ensures_type o l extent _)
    rintro (r | more) second
    · exact ensures_pure (second ▸ laid)
    · exact ensures_fail _

include admits

theorem readObject_confined (o : HeapObject) {type : String} (plain : Plain type) (hint : UInt64)
    {extent : Value → Header → Except InspectError UInt64}
    (sized : ∀ fields header, i.target.Lays fields.type → Blames (extent fields header) E) :
    Confined (i.readObject o type hint extent) P E := by
  unfold readObject
  apply confined_bind_refused admits.access (i.target.layout_refuses plain)
  intro l found
  have laid := Target.lays_of_layout found
  apply confined_bind (i.readSlot_confined lasting admits.access o laid sized _)
  rintro (r | needed)
  · exact confined_pure _
  · apply confined_bind (i.readSlot_confined lasting admits.access o laid sized _)
    rintro (r | more)
    · exact confined_pure _
    · exact confined_fail (admits _ (.corrupt trivial))

/-- What follows an object that was read can rely on where its fields got their layout. -/
theorem object_then_confined {β : Type} (o : HeapObject) {type : String} (plain : Plain type)
    (hint : UInt64) {extent : Value → Header → Except InspectError UInt64}
    (sized : ∀ fields header, i.target.Lays fields.type → Blames (extent fields header) E)
    {f : ObjectRead → Probe β}
    (next : ∀ r : ObjectRead, i.target.Lays r.fields.type → Confined (f r) P E) :
    Confined (i.readObject o type hint extent >>= f) P E :=
  confined_bind_of (i.readObject_confined lasting admits o plain hint sized)
    (i.readObject_ensures_laid o type hint extent) next

theorem readWords_confined (address count : UInt64) :
    Confined (i.readWords address count) P E := by
  unfold readWords
  refine confined_ite (confined_pure _)
    (confined_guard (admits.access _ (.unreadable _)) ?_)
  exact confined_bind (i.target.read_confined lasting admits.access _ _)
    fun bytes => confined_pure _

theorem decodeArray_confined (o : HeapObject) : Confined (i.decodeArray o) P E := by
  unfold decodeArray
  apply confined_bind_refused admits.access
    (i.target.offsetOf_refuses (by decide) (by decide))
  intro offset _
  apply i.object_then_confined lasting admits o (by decide) _ fun _ _ _ => blames_ok _
  intro r laid
  apply confined_ite
  · exact confined_bind (confined_lift (r.inlineWords_blames admits _ _)) fun ws => confined_pure _
  · apply confined_bind_refused admits.access (Value.signedMember_refuses laid (by decide))
    intro length _
    refine confined_guard (admits _ (.corrupt (by decide : Plain "array"))) ?_
    apply confined_bind_refused admits.access (Value.unsignedMember_refuses laid (by decide))
    intro pointer _
    refine confined_guard (admits _ (.corrupt trivial)) ?_
    exact confined_bind (i.readWords_confined lasting admits _ _) fun ws => confined_pure _

theorem decodeRecord_confined (o : HeapObject) : Confined (i.decodeRecord o) P E := by
  unfold decodeRecord
  apply confined_bind_refused admits.access
    (i.target.offsetOf_refuses (by decide) (by decide))
  intro offset _
  apply i.object_then_confined lasting admits o (by decide) _ fun _ _ _ => blames_ok _
  intro r laid
  apply confined_ite
  · apply confined_bind_refused admits.access (Value.signedMember_refuses laid (by decide))
    intro length _
    refine confined_guard (admits _ (.corrupt (by decide : Plain "struct"))) ?_
    apply confined_bind_refused admits.access (Value.unsignedMember_refuses laid (by decide))
    intro pointer _
    exact confined_bind (i.readWords_confined lasting admits _ _) fun ws => confined_pure _
  · exact confined_bind (confined_lift (r.inlineWords_blames admits _ _)) fun ws => confined_pure _

theorem readEntries_confined (address : UInt64) (r : EntryRange) (stride key value : UInt64)
    (index : Nat) (found : List (UInt64 × UInt64)) :
    Confined (i.readEntries address r stride key value index found) P E := by
  induction index, found using readEntries.induct i r stride key value with
  | case1 index found more start outside =>
    rw [readEntries, dif_pos more]
    dsimp only
    rw [if_pos outside]
    exact confined_fail (admits _ (.corrupt trivial))
  | case2 index found more count start inside ih =>
    rw [readEntries, dif_pos more]
    dsimp only
    rw [if_neg inside]
    exact confined_bind (i.target.read_confined lasting admits.access _ _) fun bytes => ih bytes
  | case3 index found done =>
    rw [readEntries, dif_neg done]
    exact confined_pure _

theorem decodeEntries_confined (o : HeapObject) {table : Value} (laid : i.target.Lays table.type) :
    Confined (i.decodeEntries o table) P E := by
  unfold decodeEntries
  apply confined_bind_refused admits.access (entryRange_refuses laid)
  intro r _
  refine confined_ite ?_ (confined_fail (admits _ (.corrupt trivial)))
  apply confined_bind_refused admits.access (i.target.layout_refuses (by decide))
  intro entry named
  have one := Target.lays_of_layout named
  apply confined_bind_refused admits.access (memberOffset_refuses one (by decide))
  intro key _
  apply confined_bind_refused admits.access (memberOffset_refuses one (by decide))
  intro value _
  exact confined_bind (i.readEntries_confined lasting admits _ _ _ _ _ _ _)
    fun pairs => confined_pure _

theorem decodeHash_confined (o : HeapObject) : Confined (i.decodeHash o) P E := by
  unfold decodeHash
  apply confined_bind_refused admits.access (i.target.layout_refuses (by decide))
  intro own _
  apply confined_bind_refused admits.access (i.target.layout_refuses (by decide))
  intro table named
  apply confined_bind_refused admits.access i.pairLayout_refuses
  intro p _
  apply confined_bind (confined_lift (i.hashExtent_blames admits _ _ _ _ _))
  intro hint
  apply i.object_then_confined lasting admits o (by decide) _
    fun _ _ _ => i.hashExtent_blames admits _ _ _ _ _
  intro r laid
  apply confined_bind_refused admits.access (Value.unsignedMember_refuses laid (by decide))
  intro default _
  apply confined_bind (confined_lift (r.addressAt_blames admits _))
  intro address
  apply confined_ite
  · apply confined_bind (confined_lift (r.inline_blames admits _ _))
    intro inline
    have one : i.target.Lays (Value.mk table inline (some address)).type :=
      Target.lays_of_layout named
    exact confined_bind (i.decodeEntries_confined lasting admits _ one)
      fun entries => confined_pure _
  · apply confined_bind (confined_lift (i.pairCounts_blames admits _ _ _))
    intro counts
    exact confined_bind (confined_lift (r.inline_blames admits _ _)) fun bytes => confined_pure _

theorem decodeString_confined (o : HeapObject) : Confined (i.decodeString o) P E := by
  unfold decodeString
  apply confined_bind_refused admits.access
    (i.target.offsetOf_refuses (by decide) (by decide))
  intro offset _
  apply i.object_then_confined lasting admits o (by decide) _
    fun fields header => i.stringExtent_blames admits offset header
  intro r laid
  apply confined_bind_refused admits.access (Value.signedMember_refuses laid (by decide))
  intro length _
  refine confined_guard (admits _ (.corrupt (by decide : Plain "string"))) ?_
  apply confined_ite
  · exact confined_bind (confined_lift (r.inline_blames admits _ _)) fun bytes => confined_pure _
  · apply confined_bind_refused admits.access (Value.unsignedMember_refuses laid (by decide))
    intro pointer _
    refine confined_guard (admits _ (.corrupt trivial)) (confined_ite (confined_pure _) ?_)
    exact confined_bind (i.target.read_confined lasting admits.access _ _)
      fun bytes => confined_pure _

theorem stringBytes_confined (word : UInt64) : Confined (i.stringBytes word) P E := by
  unfold stringBytes
  apply confined_bind (classify_confined lasting admits _ _)
  intro c
  cases c with
  | immediate word value => exact confined_pure _
  | heap o =>
    refine confined_ite ?_ (confined_pure _)
    exact confined_bind (i.decodeString_confined lasting admits o) fun v => confined_pure _

theorem decodeFloat_confined (o : HeapObject) : Confined (i.decodeFloat o) P E := by
  unfold decodeFloat readFields
  apply i.object_then_confined lasting admits o (by decide) _ fun _ _ _ => blames_ok _
  intro r laid
  exact confined_bind_refused admits.access (Value.member_refuses laid (by decide))
    fun v _ => confined_pure _

theorem decodeBignum_confined (o : HeapObject) : Confined (i.decodeBignum o) P E := by
  unfold decodeBignum
  apply confined_bind_refused admits.access
    (i.target.offsetOf_refuses (by decide) (by decide))
  intro offset _
  apply confined_bind_refused admits.access (i.target.layout_refuses (by decide))
  intro digit _
  apply i.object_then_confined lasting admits o (by decide) _ fun _ _ _ => blames_ok _
  intro r laid
  apply confined_ite
  · refine confined_ite ?_ (confined_pure _)
    exact confined_bind (confined_lift (r.inline_blames admits _ _)) fun bytes => confined_pure _
  · apply confined_bind_refused admits.access (Value.unsignedMember_refuses laid (by decide))
    intro length _
    apply confined_bind_refused admits.access (Value.unsignedMember_refuses laid (by decide))
    intro digits _
    refine confined_guard (admits _ (.corrupt trivial)) (confined_ite (confined_pure _) ?_)
    refine confined_ite ?_ (confined_pure _)
    exact confined_bind (i.target.read_confined lasting admits.access _ _)
      fun bytes => confined_pure _

theorem decodeSymbol_confined (o : HeapObject) : Confined (i.decodeSymbol o) P E := by
  unfold decodeSymbol readFields
  apply i.object_then_confined lasting admits o (by decide) _ fun _ _ _ => blames_ok _
  intro r laid
  apply confined_bind_refused admits.access (Value.unsignedMember_refuses laid (by decide))
  intro id _
  apply confined_bind_refused admits.access (Value.unsignedMember_refuses laid (by decide))
  intro name _
  apply confined_bind (confined_attempt (i.stringBytes_confined lasting admits _))
  intro outcome
  split
  · exact confined_pure _
  · exact confined_pure _

theorem decodeObject_confined (o : HeapObject) : Confined (i.decodeObject o) P E := by
  unfold decodeObject
  split
  · exact confined_bind (i.decodeString_confined lasting admits o) fun v => confined_pure _
  · exact confined_bind (i.decodeArray_confined lasting admits o) fun v => confined_pure _
  · exact confined_bind (i.decodeHash_confined lasting admits o) fun v => confined_pure _
  · exact confined_bind (i.decodeRecord_confined lasting admits o) fun v => confined_pure _
  · exact confined_bind (i.decodeFloat_confined lasting admits o) fun v => confined_pure _
  · exact confined_bind (i.decodeBignum_confined lasting admits o) fun v => confined_pure _
  · exact confined_bind (i.decodeSymbol_confined lasting admits o) fun v => confined_pure _
  · exact confined_pure _

theorem interpret_confined (word : UInt64) : Confined (i.interpret word) P E := by
  unfold interpret
  apply confined_bind (classify_confined lasting admits _ _)
  intro c
  cases c with
  | immediate word value => exact confined_pure _
  | heap o => exact i.decodeObject_confined lasting admits o

end Inspector

end

end HeapLens
