import HeapLens.Proofs.View.ReadBounds

/-!
Objects that have data elsewhere, but nowhere. A slot can say that there are elements, bytes, digits
or entries behind a pointer that is null. Main statement: strings, arrays, integers and hashes with
such a slot are corrupt and nothing more is read; for a record the words at address zero are read.
-/
namespace HeapLens
open Run

/-- The slot says that the data are elsewhere, that there are some, and that they lie nowhere. -/
inductive ObjectRead.NullTable (i : Inspector) (r : ObjectRead) : ValueType → Prop where
  | string {length : Int64} (away : i.stringEmbedded r.object.header.flags = false)
      (counted : r.fields.signedMember "len" = .ok length) (positive : 0 < length)
      (null : r.fields.unsignedMember "as.heap.ptr" = .ok 0) : NullTable i r .string
  | array {length : Int64} (away : i.flag r.object.header.flags .arrayEmbedFlag = false)
      (counted : r.fields.signedMember "as.heap.len" = .ok length) (positive : 0 < length)
      (null : r.fields.unsignedMember "as.heap.ptr" = .ok 0) : NullTable i r .array
  | record {length : Int64} (away : i.recordLength r.object.header.flags = 0)
      (counted : r.fields.signedMember "as.heap.len" = .ok length) (positive : 0 < length)
      (null : r.fields.unsignedMember "as.heap.ptr" = .ok 0) : NullTable i r .record
  | bignum {length : UInt64} (away : i.flag r.object.header.flags .bignumEmbedFlag = false)
      (counted : r.fields.unsignedMember "as.heap.len" = .ok length) (positive : 0 < length)
      (null : r.fields.unsignedMember "as.heap.digits" = .ok 0) : NullTable i r .bignum
  | hash {range : EntryRange} {default : UInt64} (described : r.Describes i range)
      (known : r.fields.unsignedMember "ifnone" = .ok default) (positive : 0 < range.size)
      (null : range.entries = 0) : NullTable i r .hash

/-! Lengths. -/

theorem toUInt64_pos {n : Int64} (positive : 0 < n) : 0 < n.toUInt64 := by
  rw [UInt64.pos_iff_ne_zero]
  intro zero
  obtain rfl : n = 0 := congrArg UInt64.toInt64 zero
  exact absurd positive (by decide)

theorem EntryRange.not_plausible {r : EntryRange} (positive : 0 < r.size) (null : r.entries = 0) :
    ¬ r.Plausible := by
  rintro ⟨-, -, -, -, live | none⟩
  · exact live null
  · rw [none] at positive
    exact absurd positive (by decide)

theorem ObjectRead.addressAt_cases (r : ObjectRead) (offset : UInt64) :
    (∃ address, r.addressAt offset = .ok address) ∨
      r.addressAt offset = .error (.corrupt r.object.address .pastAddressSpace) := by
  unfold addressAt
  split
  · exact .inl ⟨_, rfl⟩
  · exact .inr rfl

/-! What a record says does not depend on where it lies. -/

theorem Value.unsignedMember_address (l : Layout) (bytes : Bytes) (a b : Option UInt64)
    (field : String) : (⟨l, bytes, a⟩ : Value).unsignedMember field =
      (⟨l, bytes, b⟩ : Value).unsignedMember field := by
  unfold unsignedMember member
  dsimp only
  split
  · rfl
  · split <;> rfl

theorem Inspector.entryRange_address (l : Layout) (bytes : Bytes) (a b : Option UInt64) :
    entryRange ⟨l, bytes, a⟩ = entryRange ⟨l, bytes, b⟩ := by
  unfold entryRange
  simp only [Value.unsignedMember_address l bytes a b]

namespace Inspector
variable {i : Inspector} {o : HeapObject} {r : ObjectRead} {word : UInt64}
  {trace middle later : Trace}

/-- The slot of an object as it is read by the decoder of a type. -/
def readOwn (i : Inspector) (o : HeapObject) : ValueType → Probe ObjectRead
  | .string => do
    let offset ← i.target.offsetOf "struct RString" "as.embed.ary"
    i.readObject o "struct RString" 0 (i.stringExtent offset)
  | .array => do
    let offset ← i.target.offsetOf "struct RArray" "as.ary"
    i.readObject o "struct RArray" (i.arrayExtent offset o.header.flags)
      fun _ header => .ok (i.arrayExtent offset header.flags)
  | .record => do
    let offset ← i.target.offsetOf "struct RStruct" "as.ary"
    i.readObject o "struct RStruct" (i.recordExtent offset o.header.flags)
      fun _ header => .ok (i.recordExtent offset header.flags)
  | .bignum => do
    let offset ← i.target.offsetOf "struct RBignum" "as.ary"
    let digit ← i.target.layout "BDIGIT"
    i.readObject o "struct RBignum" (i.bignumExtent offset digit.size o.header.flags)
      fun _ header => .ok (i.bignumExtent offset digit.size header.flags)
  | .hash => do
    let own ← i.target.layout "struct RHash"
    let table ← i.target.layout "st_table"
    let p ← i.pairLayout
    let hint ← i.hashExtent p own.size table.size o.address o.header.flags
    i.readObject o "struct RHash" hint
      fun _ header => i.hashExtent p own.size table.size o.address header.flags
  | _ => i.readFields o "struct RBasic"

theorem decodeString_null (read : i.readOwn o .string middle = (.ok r, later))
    (nowhere : r.NullTable i .string) :
    i.decodeString o middle = (.error (.corrupt r.object.address .nullBuffer), later) := by
  obtain ⟨offset, placed, read⟩ := access_bind_ok read
  cases nowhere with | @string length away counted positive null =>
  unfold decodeString
  rw [bind_access_at placed, bind_at read, bind_access_at counted,
    if_neg (Int64.lt_asymm positive), if_neg (Bool.eq_false_iff.mp away),
    bind_access_at null, if_pos ⟨rfl, toUInt64_pos positive⟩]
  rfl

theorem decodeArray_null (read : i.readOwn o .array middle = (.ok r, later))
    (nowhere : r.NullTable i .array) :
    i.decodeArray o middle = (.error (.corrupt r.object.address .nullElementTable), later) := by
  obtain ⟨offset, placed, read⟩ := access_bind_ok read
  cases nowhere with | @array length away counted positive null =>
  unfold decodeArray
  rw [bind_access_at placed, bind_at read]
  dsimp only
  rw [if_neg (Bool.eq_false_iff.mp away), bind_access_at counted,
    if_neg (Int64.lt_asymm positive), bind_access_at null, if_pos ⟨rfl, positive⟩]
  rfl

theorem decodeBignum_null (read : i.readOwn o .bignum middle = (.ok r, later))
    (nowhere : r.NullTable i .bignum) :
    i.decodeBignum o middle = (.error (.corrupt r.object.address .nullDigitBuffer), later) := by
  obtain ⟨offset, placed, read⟩ := access_bind_ok read
  obtain ⟨digit, named, read⟩ := access_bind_ok read
  cases nowhere with | @bignum length away counted positive null =>
  unfold decodeBignum
  rw [bind_access_at placed, bind_access_at named, bind_at read]
  dsimp only
  rw [if_neg (Bool.eq_false_iff.mp away), bind_access_at counted, bind_access_at null,
    if_pos ⟨rfl, positive⟩]
  rfl

/-- The row of words at address zero, as far as the limit goes. -/
theorem decodeRecord_null (read : i.readOwn o .record middle = (.ok r, later))
    (nowhere : r.NullTable i .record) :
    ∃ length, r.fields.signedMember "as.heap.len" = .ok length ∧ 0 < length ∧
      i.decodeRecord o middle = (do
        let elements ← i.readWords 0 (min length.toUInt64 i.limit)
        return (⟨r.object, length.toUInt64, false, some 0, elements⟩ : SequenceView)) later := by
  obtain ⟨offset, placed, read⟩ := access_bind_ok read
  cases nowhere with | @record length away counted positive null =>
  refine ⟨length, counted, positive, ?_⟩
  unfold decodeRecord
  rw [bind_access_at placed, bind_at read]
  dsimp only
  rw [if_pos away, bind_access_at counted, if_neg (Int64.lt_asymm positive),
    bind_access_at null]

theorem decodeHash_null (read : i.readOwn o .hash middle = (.ok r, later))
    (nowhere : r.NullTable i .hash) :
    ∃ fault, i.decodeHash o middle = (.error (.corrupt r.object.address fault), later) := by
  obtain ⟨own, sized, read⟩ := access_bind_ok read
  obtain ⟨table, named, read⟩ := access_bind_ok read
  obtain ⟨p, packed, read⟩ := access_bind_ok read
  obtain ⟨hint, needed, read⟩ := lift_bind_ok read
  cases nowhere with | @hash range default described known positive null =>
  obtain ⟨large, own', table', bytes, address, sized', named', inside, said⟩ := described
  cases sized.symm.trans sized'
  cases named.symm.trans named'
  have inline : r.inline own.size table.size = .ok bytes := by
    rw [ObjectRead.inline, inside]
  unfold decodeHash
  rw [bind_access_at sized, bind_access_at named, bind_access_at packed, bind_lift_at needed,
    bind_at read, bind_access_at known]
  rcases r.addressAt_cases own.size with ⟨start, place⟩ | outside
  · rw [entryRange_address _ _ _ (some start)] at said
    refine ⟨.entryTable range.size range.start range.bound range.power, ?_⟩
    have entries : i.decodeEntries r.object ⟨table, bytes, some start⟩ later =
        (.error (.corrupt r.object.address
          (.entryTable range.size range.start range.bound range.power)), later) := by
      rw [decodeEntries, bind_access_at said, if_neg (EntryRange.not_plausible positive null)]
      rfl
    rw [bind_lift_at place]
    dsimp only
    rw [if_pos large, bind_lift_at inline]
    exact bind_error_at entries
  · rw [outside]
    exact ⟨_, rfl⟩

theorem readOwn_address {kind : ValueType} (read : i.readOwn o kind middle = (.ok r, later)) :
    r.object.address = o.address := by
  have reread (type : String) (hint : UInt64)
      (extent : Value → Header → Except InspectError UInt64) :=
    readObject_ensures_reread (i := i) o type hint extent
  have own : Ensures (i.readOwn o kind) fun r => o.Reread r.object := by
    cases kind with
    | string | array | record =>
      exact ensures_after fun offset => reread _ _ _
    | bignum => exact ensures_after fun offset => ensures_after fun digit => reread _ _ _
    | hash =>
      exact ensures_after fun own => ensures_after fun table => ensures_after fun p =>
        ensures_after fun hint => reread _ _ _
    | _ => exact reread _ _ _
  exact (own.result _ _ _ read).2

/-- Words that cannot be read are not blamed on the object. -/
theorem readWords_access (address count : UInt64) :
    Confined (i.readWords address count) (fun _ => True) fun e => ∃ cause, e = .access cause := by
  unfold readWords
  refine confined_ite (confined_pure _) (confined_guard ⟨_, rfl⟩ ?_)
  exact confined_bind (i.target.read_confined (fun _ _ _ => trivial) (fun cause _ => ⟨cause, rfl⟩)
    _ _) fun bytes => confined_pure _

/-- Data that a slot says are at the null pointer make the object corrupt, and nothing is read after
the slot. A record is the exception: it is shown with the words at address zero, or fails as these
cannot be read, and is not called corrupt. -/
theorem interpret_null_table {kind : ValueType}
    (classified : i.classify word trace = (.ok (.heap o), middle)) (type : o.type = some kind)
    (read : i.readOwn o kind middle = (.ok r, later)) (nowhere : r.NullTable i kind) :
    (kind ≠ .record →
      ∃ fault, i.interpret word trace = (.error (.corrupt o.address fault), later)) ∧
    (kind = .record → ∃ length, r.fields.signedMember "as.heap.len" = .ok length ∧ 0 < length ∧
      i.interpret word trace = (do
        let elements ← i.readWords 0 (min length.toUInt64 i.limit)
        return View.record ⟨r.object, length.toUInt64, false, some 0, elements⟩) later ∧
      ∀ address fault, (i.interpret word trace).1 ≠ .error (.corrupt address fault)) := by
  rw [interpret_heap classified, decodeObject, type, ← readOwn_address read]
  cases kind with
  | string => exact ⟨fun _ => ⟨_, bind_error_at (decodeString_null read nowhere)⟩, nofun⟩
  | array => exact ⟨fun _ => ⟨_, bind_error_at (decodeArray_null read nowhere)⟩, nofun⟩
  | bignum => exact ⟨fun _ => ⟨_, bind_error_at (decodeBignum_null read nowhere)⟩, nofun⟩
  | hash =>
    obtain ⟨fault, corrupt⟩ := decodeHash_null read nowhere
    exact ⟨fun _ => ⟨fault, bind_error_at corrupt⟩, nofun⟩
  | record =>
    refine ⟨fun other => absurd rfl other, fun _ => ?_⟩
    obtain ⟨length, counted, positive, run⟩ := decodeRecord_null read nowhere
    have shown : (do return View.record (← i.decodeRecord o)) middle = (do
        let elements ← i.readWords 0 (min length.toUInt64 i.limit)
        return View.record ⟨r.object, length.toUInt64, false, some 0, elements⟩ : Probe View)
        later := by
      rw [bind_apply, run, ← bind_apply, bind_assoc]
      rfl
    refine ⟨length, counted, positive, shown, fun address fault failed => ?_⟩
    -- What can fail behind the slot is a read, and its error is one of memory.
    have access := confined_bind (readWords_access (i := i) 0 (min length.toUInt64 i.limit))
      fun elements => confined_pure
        (View.record ⟨r.object, length.toUInt64, false, some 0, elements⟩)
    obtain ⟨cause, other⟩ := access.error later _ trivial
      ((congrArg Prod.fst shown).symm.trans failed)
    cases other
  | _ => cases nowhere

/-- Three elements at the null pointer, where words can be read. -/
def nullArray : Inspector := .ofWords [0, 0, 0, 0, 0, 7, 17, 3, 0, 0]

def nullArrayRead : ObjectRead :=
  ⟨⟨.array, [7, 17, 3, 0, 0].flatMap Bytes.ofWord, some 40⟩, ⟨40, ⟨40, 7, 17⟩, 7, some .array⟩,
    [7, 17, 3, 0, 0].flatMap Bytes.ofWord⟩

theorem null_array_corrupt : ∃ fault, nullArray.interpret 40 #[] =
    (.error (.corrupt 40 fault), #[⟨40, 16⟩, ⟨40, 40⟩]) := by
  have classified : nullArray.classify 40 #[] =
      (.ok (.heap ⟨40, ⟨40, 7, 17⟩, 7, some .array⟩), #[⟨40, 16⟩]) := by
    decide +kernel
  have read : nullArray.readOwn ⟨40, ⟨40, 7, 17⟩, 7, some .array⟩ .array #[⟨40, 16⟩] =
      (.ok nullArrayRead, #[⟨40, 16⟩, ⟨40, 40⟩]) := by
    rfl
  have nowhere : nullArrayRead.NullTable nullArray .array :=
    .array (by decide) (by decide : nullArrayRead.fields.signedMember "as.heap.len" = .ok 3)
      (by decide) (by decide)
  exact (interpret_null_table classified rfl read nowhere).1 nofun

/-- Two members at the null pointer are shown. -/
theorem null_record_shown : (ofWords [5, 7, 0, 0, 0, 9, 17, 2, 0, 0]).interpret 40 #[] =
    (.ok (.record ⟨⟨40, ⟨40, 9, 17⟩, 9, some .record⟩, 2, false, some 0, [5, 7]⟩),
      #[⟨40, 16⟩, ⟨40, 40⟩, ⟨0, 16⟩]) := by
  decide +kernel

end Inspector
end HeapLens
