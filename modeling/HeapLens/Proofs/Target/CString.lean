import HeapLens.Proofs.Run
import HeapLens.Proofs.Snapshot.Memory
import HeapLens.Target.CString

/-!
Strings that end at a zero byte, in memory that is there at some addresses only. A piece is read
wherever the first of its bytes is there, and a string that is put together piece by piece is the
one that a walk from byte to byte finds. Main statement: it is the longest row of bytes other than
zero that memory holds from the address on, up to the limit, and it takes a bounded number of reads.
-/
namespace HeapLens

/-- The bytes at some of the addresses. -/
abbrev Mapping := UInt64 → Option UInt8

namespace Mapping
variable (m : Mapping)

/-- Nothing is there past the end of the address space. -/
def byte? (address : Nat) : Option UInt8 :=
  if address < UInt64.size then m (UInt64.ofNat address) else none

/-- The bytes of a range, when all of them are there. -/
def bytes? : Nat → Nat → Option Bytes
  | _, 0 => some []
  | address, count + 1 =>
    (m.byte? address).bind fun byte => (bytes? (address + 1) count).map (byte :: ·)

/-- A read of memory that has these bytes and no others. -/
def read (address size : UInt64) : Except Unreadable Bytes :=
  match m.bytes? address.toNat size.toNat with
  | some bytes => .ok bytes
  | none => .error ⟨address, size⟩

/-- Bytes that stand in memory one behind the other, none of them zero. -/
def IsText : Nat → Bytes → Prop
  | _, [] => True
  | address, byte :: rest => m.byte? address = some byte ∧ byte ≠ 0 ∧ IsText (address + 1) rest

/-- The longest text within a limit, and what stands where it ends. -/
structure LongestText (address limit : Nat) (text : Bytes) : Prop where
  isText : m.IsText address text
  short : text.length ≤ limit
  longest : ∀ other, m.IsText address other → other.length ≤ limit → other <+: text
  ends : text.length = limit ∨ m.byte? (address + text.length) = none ∨
    m.byte? (address + text.length) = some 0

/-- The text from an address on, byte by byte. -/
def text : Nat → Nat → Bytes
  | _, 0 => []
  | address, count + 1 =>
    match m.byte? address with
    | none => []
    | some byte => if byte = 0 then [] else byte :: text (address + 1) count

variable {m}

theorem byte?_toNat (address : UInt64) : m.byte? address.toNat = m address := by
  rw [byte?, if_pos address.toNat_lt, UInt64.ofNat_toNat]

theorem bytes?_cons {address count : Nat} {bytes : Bytes} :
    m.bytes? address (count + 1) = some bytes ↔
      ∃ byte rest, m.byte? address = some byte ∧ m.bytes? (address + 1) count = some rest ∧
        byte :: rest = bytes := by
  simp only [bytes?, Option.bind_eq_some_iff, Option.map_eq_some_iff]
  constructor
  · rintro ⟨byte, first, rest, more, same⟩
    exact ⟨byte, rest, first, more, same⟩
  · rintro ⟨byte, rest, first, more, same⟩
    exact ⟨byte, first, rest, more, same⟩

theorem bytes?_eq_some_iff {address count : Nat} {bytes : Bytes} :
    m.bytes? address count = some bytes ↔
      bytes.length = count ∧ ∀ i < count, m.byte? (address + i) = bytes[i]? := by
  induction count generalizing address bytes with
  | zero =>
    constructor
    · rintro ⟨⟩
      exact ⟨rfl, fun i low => absurd low (Nat.not_lt_zero i)⟩
    · rintro ⟨empty, -⟩
      rw [List.length_eq_zero_iff.mp empty, bytes?]
  | succ count ih =>
    rw [bytes?_cons]
    constructor
    · rintro ⟨byte, rest, first, more, rfl⟩
      obtain ⟨length, behind⟩ := ih.mp more
      refine ⟨congrArg Nat.succ length, fun i inside => ?_⟩
      cases i with
      | zero => exact first
      | succ i =>
        rw [Nat.add_succ, ← Nat.succ_add]
        exact behind i (Nat.lt_of_succ_lt_succ inside)
    · rintro ⟨length, all⟩
      cases bytes with
      | nil => cases length
      | cons byte rest =>
        refine ⟨byte, rest, all 0 (Nat.succ_pos count), ih.mpr ⟨Nat.succ.inj length, ?_⟩, rfl⟩
        intro i inside
        rw [Nat.succ_add, ← Nat.add_succ]
        exact all (i + 1) (Nat.succ_lt_succ inside)

theorem bytes?_one (address : Nat) : m.bytes? address 1 = (m.byte? address).map ([·]) := by
  cases first : m.byte? address <;> simp [bytes?, first]

theorem length_bytes? {address count : Nat} {bytes : Bytes}
    (found : m.bytes? address count = some bytes) : bytes.length = count :=
  (bytes?_eq_some_iff.mp found).1

/-! The text from byte to byte. -/

theorem text_missing {address : Nat} (missing : m.byte? address = none) (count : Nat) :
    m.text address count = [] := by
  cases count with
  | zero => rfl
  | succ count => rw [text, missing]

/-- A piece is taken up to its first zero, or as a whole, and then the text goes on behind it. -/
theorem text_piece {address count : Nat} {piece : Bytes}
    (found : m.bytes? address piece.length = some piece) (few : piece.length ≤ count) :
    m.text address count =
      if (piece.takeWhile (· != 0)).length < piece.length then piece.takeWhile (· != 0)
      else piece ++ m.text (address + piece.length) (count - piece.length) := by
  induction piece generalizing address count with
  | nil => rfl
  | cons byte rest ih =>
    obtain ⟨_, _, first, more, ⟨⟩⟩ := bytes?_cons.mp found
    obtain ⟨count, rfl⟩ : ∃ less, count = less + 1 := ⟨count - 1, by
      rw [List.length_cons] at few; omega⟩
    rw [List.length_cons, Nat.add_le_add_iff_right] at few
    rw [text, first]
    by_cases zero : byte = 0
    · simp [zero]
    · have goes : (byte :: rest).takeWhile (· != 0) = byte :: rest.takeWhile (· != 0) :=
        List.takeWhile_cons_of_pos (bne_iff_ne.mpr zero)
      dsimp only
      rw [if_neg zero, ih more few, goes]
      simp only [List.length_cons, Nat.add_lt_add_iff_right, Nat.add_sub_add_right,
        Nat.add_assoc, Nat.add_comm 1]
      split
      · rfl
      · rfl

theorem longest_text (address count : Nat) :
    m.LongestText address count (m.text address count) := by
  induction count generalizing address with
  | zero =>
    refine ⟨trivial, Nat.le_refl 0, fun other _ short => ?_, .inl rfl⟩
    rw [List.length_eq_zero_iff.mp (Nat.le_zero.mp short)]
    exact List.nil_prefix
  | succ count ih =>
    cases first : m.byte? address with
    | none =>
      rw [text_missing first]
      refine ⟨trivial, Nat.zero_le _, fun other isText _ => ?_, .inr (.inl first)⟩
      cases other with
      | nil => exact List.nil_prefix
      | cons byte rest => cases first.symm.trans isText.1
    | some byte =>
      rw [text, first]
      dsimp only
      by_cases zero : byte = 0
      · rw [if_pos zero]
        refine ⟨trivial, Nat.zero_le _, fun other isText _ => ?_, .inr (.inr (zero ▸ first))⟩
        cases other with
        | nil => exact List.nil_prefix
        | cons c rest =>
          cases first.symm.trans isText.1
          exact absurd zero isText.2.1
      · obtain ⟨isText, short, longest, ends⟩ := ih (address + 1)
        rw [if_neg zero]
        refine ⟨⟨first, zero, isText⟩, Nat.succ_le_succ short, fun other text few => ?_, ?_⟩
        · cases other with
          | nil => exact List.nil_prefix
          | cons c rest =>
            cases first.symm.trans text.1
            exact List.cons_prefix_cons.mpr
              ⟨rfl, longest rest text.2.2 (Nat.le_of_succ_le_succ few)⟩
        · rw [Nat.add_assoc, Nat.add_comm 1] at ends
          rwa [List.length_cons, Nat.add_right_cancel_iff]

/-- There is one longest text. -/
theorem LongestText.eq_text {address limit : Nat} {text : Bytes}
    (longest : m.LongestText address limit text) : text = m.text address limit := by
  have walked := longest_text (m := m) address limit
  have front := longest.longest _ walked.isText walked.short
  have back := walked.longest _ longest.isText longest.short
  exact back.eq_of_length (Nat.le_antisymm back.length_le front.length_le)

/-! The text behind what was found. -/

/-- What is still to be found. -/
def behind (m : Mapping) (address : UInt64) (limit : Nat) (found : Bytes) : Bytes :=
  m.text (address.toNat + found.length) (limit - found.length)

/-- What was found, with the rest behind it. Only where nothing was found and the first byte is
missing is it an error. -/
def outcome (m : Mapping) (address : UInt64) (limit : Nat) (found : Bytes) :
    Except InspectError Bytes :=
  if found = [] ∧ 0 < limit ∧ m address = none then .error (.access (.unreadable ⟨address, 1⟩))
  else .ok (found ++ m.behind address limit found)

section
variable {m : Mapping} {address : UInt64} {limit : Nat} {found : Bytes}

theorem behind_done
    (done : ¬ (found.length < limit ∧ address.toNat + found.length < UInt64.size)) :
    m.behind address limit found = [] := by
  by_cases room : found.length < limit
  · apply text_missing
    rw [byte?, if_neg fun inside => done ⟨room, inside⟩]
  · rw [behind, Nat.sub_eq_zero_of_le (Nat.le_of_not_lt room), text]

theorem outcome_done
    (done : ¬ (found.length < limit ∧ address.toNat + found.length < UInt64.size)) :
    m.outcome address limit found = .ok found := by
  rw [outcome, behind_done done, List.append_nil, if_neg]
  rintro ⟨rfl, room, -⟩
  exact done ⟨room, address.toNat_lt⟩

theorem behind_gap (missing : m.byte? (address.toNat + found.length) = none) :
    m.behind address limit found = [] :=
  text_missing missing _

theorem outcome_gap (room : found.length < limit)
    (missing : m.byte? (address.toNat + found.length) = none) :
    m.outcome address limit found =
      if found.isEmpty then
        .error (.access (.unreadable ⟨address + UInt64.ofNat found.length, 1⟩))
      else .ok found := by
  rw [outcome, behind_gap missing, List.append_nil]
  cases found with
  | nil =>
    have first : address + UInt64.ofNat 0 = address := UInt64.add_zero address
    rw [List.length_nil, Nat.add_zero, byte?_toNat] at missing
    rw [if_pos ⟨rfl, room, missing⟩, if_pos List.isEmpty_nil, List.length_nil, first]
  | cons byte more => rw [if_neg (by simp), if_neg (by simp)]

theorem behind_piece {piece : Bytes}
    (there : m.bytes? (address.toNat + found.length) piece.length = some piece)
    (few : piece.length ≤ limit - found.length) :
    m.behind address limit found =
      if (piece.takeWhile (· != 0)).length < piece.length then piece.takeWhile (· != 0)
      else piece ++ m.behind address limit (found ++ piece) := by
  rw [behind, text_piece there few, behind, List.length_append, Nat.add_assoc, Nat.sub_sub]

theorem outcome_piece {piece : Bytes} (filled : 0 < piece.length)
    (there : m.bytes? (address.toNat + found.length) piece.length = some piece)
    (few : piece.length ≤ limit - found.length) :
    m.outcome address limit found =
      if (piece.takeWhile (· != 0)).length < piece.length then
        .ok (found ++ piece.takeWhile (· != 0))
      else m.outcome address limit (found ++ piece) := by
  have here : ¬ (found = [] ∧ 0 < limit ∧ m address = none) := by
    rintro ⟨rfl, -, missing⟩
    have first := (bytes?_eq_some_iff.mp there).2 0 filled
    rw [List.length_nil, Nat.add_zero, byte?_toNat, missing] at first
    have outside := List.getElem?_eq_none_iff.mp first.symm
    omega
  have next : ¬ (found ++ piece = [] ∧ 0 < limit ∧ m address = none) := by
    rintro ⟨empty, -⟩
    rw [(List.append_eq_nil_iff.mp empty).2] at filled
    exact absurd filled (Nat.lt_irrefl 0)
  rw [outcome, if_neg here, behind_piece there few, outcome, if_neg next]
  split
  · rfl
  · rw [List.append_assoc]

end

end Mapping

/-- Every read, whenever it is made, gives the bytes of its range if all of them are there. -/
def Target.Serves (t : Target) (m : Mapping) : Prop := ∀ n, t.memory n = m.read

def LoadedSnapshot.mapping (image : LoadedSnapshot) : Mapping := fun address =>
  image.memory.byte? address.toNat

/-- A loaded image is memory of this kind. -/
theorem Snapshot.load_serves {s : Snapshot} {image : LoadedSnapshot} (loaded : s.load = .ok image)
    (types : Registry) : (image.target types).Serves image.mapping := by
  intro n
  funext address size
  have whole := Snapshot.represents_of_load loaded
  have inside {a : Nat} {byte : UInt8} (found : image.memory.byte? a = some byte) :
      a + 1 < UInt64.size := whole.inside ((Memory.byte?_eq_some_iff whole.ordered).mp found)
  have look (a : Nat) : image.mapping.byte? a = image.memory.byte? a := by
    by_cases low : a < UInt64.size
    · rw [Mapping.byte?, if_pos low, LoadedSnapshot.mapping, UInt64.toNat_ofNat_of_lt' low]
    · rw [Mapping.byte?, if_neg low]
      cases found : image.memory.byte? a with
      | none => rfl
      | some byte => exact absurd (inside found) (by omega)
  have gathered (bytes : Bytes) : image.mapping.bytes? address.toNat size.toNat = some bytes ↔
      image.memory.gather address.toNat size.toNat = some bytes := by
    rw [Mapping.bytes?_eq_some_iff, Memory.gather_eq_some_iff whole.ordered]
    simp only [look]
  change image.memory.read address size = image.mapping.read address size
  rw [Memory.read, Mapping.read, Option.ext gathered]
  split
  · rfl
  · next ends =>
    cases found : image.memory.gather address.toNat size.toNat with
    | none => rfl
    | some bytes =>
      obtain ⟨length, held⟩ := (Memory.gather_eq_some_iff whole.ordered _ _ _).mp found
      have start : address.toNat < UInt64.size := address.toNat_lt
      have last := held (size.toNat - 1) (by omega)
      rw [List.getElem?_eq_getElem (by omega)] at last
      exact absurd (inside last) (by omega)

/-- What a piece from an address on can be: bytes that are there, or the first one missing. -/
inductive Mapping.Starts (m : Mapping) (address : UInt64) (most : Nat) :
    Except Unreadable Bytes → Prop where
  | piece {piece : Bytes} (filled : 0 < piece.length) (few : piece.length ≤ most)
      (found : m.bytes? address.toNat piece.length = some piece) :
      Starts m address most (.ok piece)
  | gap (missing : m address = none) : Starts m address most (.error ⟨address, 1⟩)

theorem Mapping.Starts.more {m : Mapping} {address : UInt64} {most more : Nat}
    {outcome : Except Unreadable Bytes} (starts : m.Starts address most outcome)
    (below : most ≤ more) : m.Starts address more outcome := by
  cases starts with
  | piece filled few found => exact .piece filled (Nat.le_trans few below) found
  | gap missing => exact .gap missing

namespace Target
variable {t : Target} {m : Mapping}

theorem readShrinking_starts (serves : t.Serves m) (address : UInt64) {want : Nat}
    (positive : 0 < want) (small : want < UInt64.size) (trace : Trace) :
    ∃ outcome reads, t.readShrinking address want trace = (.ok outcome, trace ++ reads) ∧
      reads.size ≤ Nat.log2 want + 1 ∧ m.Starts address want outcome := by
  induction want using Nat.strongRecOn generalizing trace with
  | ind want ih =>
    have size : (UInt64.ofNat want).toNat = want := UInt64.toNat_ofNat_of_lt' small
    rw [readShrinking, Run.bind_apply, tryRead, serves, Mapping.read, size]
    dsimp only
    cases found : m.bytes? address.toNat want with
    | some bytes =>
      have length := Mapping.length_bytes? found
      refine ⟨.ok bytes, #[⟨address, UInt64.ofNat want⟩], ?_, ?_, ?_⟩
      · rw [Array.push_eq_append]
        rfl
      · exact Nat.succ_le_succ (Nat.zero_le _)
      · exact .piece (by omega) (Nat.le_of_eq length) (by rw [length, found])
    | none =>
      dsimp only
      by_cases last : want ≤ 1
      · obtain rfl : want = 1 := Nat.le_antisymm last positive
        refine ⟨.error ⟨address, 1⟩, #[⟨address, 1⟩], ?_, ?_, .gap ?_⟩
        · rw [if_pos last, Array.push_eq_append]
          rfl
        · exact Nat.succ_le_succ (Nat.zero_le _)
        · rwa [Mapping.bytes?_one, Option.map_eq_none_iff, Mapping.byte?_toNat] at found
      · obtain ⟨outcome, reads, run, few, starts⟩ := ih (want / 2)
          (Nat.div_lt_self positive (by decide)) (by omega) (by omega)
          (trace.push ⟨address, UInt64.ofNat want⟩)
        refine ⟨outcome, #[⟨address, UInt64.ofNat want⟩] ++ reads, ?_, ?_, starts.more ?_⟩
        · rw [if_neg last, run, Array.push_eq_append, Array.append_assoc]
        · rw [Array.size_append, Nat.log2_def want, if_pos (by omega)]
          simp only [List.size_toArray, List.length_singleton]
          omega
        · exact Nat.div_le_self want 2

/-- How many reads a piece takes at most. -/
def pieceReads : Nat := Nat.log2 pieceSize + 1

theorem log2_lt_pieceReads {want : Nat} (few : want ≤ pieceSize) : Nat.log2 want < pieceReads := by
  by_cases zero : want = 0
  · rw [zero]
    decide
  · exact (Nat.log2_lt zero).mpr (Nat.lt_of_le_of_lt few (by decide))

theorem toNat_start {address : UInt64} {count : Nat}
    (inside : address.toNat + count < UInt64.size) :
    (address + UInt64.ofNat count).toNat = address.toNat + count := by
  have size : (UInt64.ofNat count).toNat = count := UInt64.toNat_ofNat_of_lt' (by omega)
  rw [UInt64.toNat_add, size]
  exact Nat.mod_eq_of_lt inside

/-- The induction is on what is left of the limit: each piece is at least one byte long. -/
theorem cstringFrom_eq (serves : t.Serves m) (address : UInt64) {limit : Nat} {found : Bytes}
    (within : found.length ≤ limit) (trace : Trace) :
    ∃ reads : Trace, t.cstringFrom address limit found trace =
        (m.outcome address limit found, trace ++ reads) ∧
      reads.size ≤ pieceReads * ((m.behind address limit found).length + 1) := by
  induction goal : limit - found.length using Nat.strongRecOn generalizing found trace with
  | ind left ih =>
    subst goal
    have whole : found.take limit = found := List.take_of_length_le within
    rw [cstringFrom, whole]
    split
    · next more =>
      obtain ⟨room, inside⟩ := more
      have place := toNat_start inside
      have positive : 0 < min pieceSize (limit - found.length) := by rw [pieceSize]; omega
      have small : min pieceSize (limit - found.length) < UInt64.size :=
        Nat.lt_of_le_of_lt (Nat.min_le_left pieceSize _) (by decide)
      obtain ⟨outcome, reads, run, few, starts⟩ := readShrinking_starts serves
        (address + UInt64.ofNat found.length) positive small trace
      have bound := log2_lt_pieceReads (Nat.min_le_left pieceSize (limit - found.length))
      rw [Run.bind_at run]
      cases starts with
      | gap missing =>
        rw [← Mapping.byte?_toNat (m := m), place] at missing
        refine ⟨reads, ?_, by rw [Mapping.behind_gap missing, List.length_nil]; omega⟩
        rw [Mapping.outcome_gap room missing]
        split <;> rfl
      | @piece piece filled short there =>
        rw [place] at there
        have short : piece.length ≤ limit - found.length := by omega
        rw [Mapping.outcome_piece filled there short, Mapping.behind_piece there short]
        dsimp only
        split
        · refine ⟨reads, rfl, ?_⟩
          exact Nat.le_trans (by omega) (Nat.le_mul_of_pos_right pieceReads (Nat.succ_pos _))
        · have present : ¬ piece.isEmpty = true := by
            rw [List.isEmpty_iff, ← List.length_eq_zero_iff]
            omega
          have longer : (found ++ piece).length = found.length + piece.length :=
            List.length_append
          obtain ⟨others, continued, bounded⟩ := ih (limit - (found ++ piece).length)
            (by omega) (by omega) (trace ++ reads) rfl
          refine ⟨reads ++ others, ?_, ?_⟩
          · rw [if_neg present, continued, Array.append_assoc]
          · rw [Array.size_append, List.length_append]
            generalize (m.behind address limit (found ++ piece)).length = rest at bounded ⊢
            calc reads.size + others.size
                ≤ pieceReads * 1 + pieceReads * (rest + 1) := by omega
              _ = pieceReads * (1 + (rest + 1)) := (Nat.mul_add ..).symm
              _ ≤ pieceReads * (piece.length + rest + 1) := Nat.mul_le_mul_left _ (by omega)
    · next done =>
      refine ⟨#[], ?_, Nat.zero_le _⟩
      rw [Mapping.outcome_done done, Array.append_empty, Run.pure_apply]

/-- Where the first byte is missing, reading one byte is what fails. Otherwise the string is the
longest text, so it ends at the first zero byte, at the first missing one, at the limit or at the
end of the address space. Each turn of the loop but the last finds a byte. -/
theorem cstring_longest (serves : t.Serves m) (address limit : UInt64) (trace : Trace) :
    ∃ reads : Trace,
      (0 < limit → m address = none →
        t.cstring address limit trace =
          (.error (.access (.unreadable ⟨address, 1⟩)), trace ++ reads) ∧
        reads.size ≤ pieceReads) ∧
      (limit = 0 ∨ m address ≠ none → ∃ text,
        t.cstring address limit trace = (.ok text, trace ++ reads) ∧
        m.LongestText address.toNat limit.toNat text ∧
        reads.size ≤ pieceReads * (text.length + 1)) := by
  have start : ([] : Bytes).length ≤ limit.toNat := Nat.zero_le _
  obtain ⟨reads, run, few⟩ := cstringFrom_eq serves address start trace
  refine ⟨reads, fun room missing => ?_, fun there => ?_⟩
  · have first : m.byte? (address.toNat + 0) = none := by rwa [Nat.add_zero, Mapping.byte?_toNat]
    rw [Mapping.behind_gap first] at few
    rw [cstring, run, Mapping.outcome, if_pos ⟨rfl, room, missing⟩]
    exact ⟨rfl, few⟩
  · refine ⟨m.text address.toNat limit.toNat, ?_, Mapping.longest_text _ _, few⟩
    rw [cstring, run, Mapping.outcome, if_neg]
    · rfl
    · rintro ⟨-, room, missing⟩
      rcases there with rfl | there
      · cases room
      · exact there missing

theorem adjacent_cstring_longest : ∃ image, Snapshot.adjacent.load = .ok image ∧
    ((image.target .standard).cstring 4096 10 #[]).1 = .ok [1, 2, 3] ∧
    ((image.target .standard).cstring 4099 10 #[]).1 =
      .error (.access (.unreadable ⟨4099, 1⟩)) := by
  obtain ⟨image, loaded⟩ : ∃ image, Snapshot.adjacent.load = .ok image := ⟨_, rfl⟩
  have serves := Snapshot.load_serves loaded .standard
  have there : image.mapping 4096 ≠ none ∧ image.mapping 4099 = none ∧
      image.mapping.text 4096 10 = [1, 2, 3] := by
    cases loaded
    decide
  obtain ⟨first, missing, walked⟩ := there
  obtain ⟨_, -, found⟩ := cstring_longest serves 4096 10 #[]
  obtain ⟨_, failed, -⟩ := cstring_longest serves 4099 10 #[]
  obtain ⟨text, run, whole, -⟩ := found (.inr first)
  refine ⟨image, loaded, ?_, ?_⟩
  · rw [run, whole.eq_text, ← walked]
    rfl
  · rw [(failed (by decide) missing).1]

end Target
end HeapLens
