import HeapLens.Proofs.Snapshot.Addressed
import Mathlib.Data.List.Pairwise

/-!
Which images can be loaded. A region is compared with one block of the memory so far, and this
decides whether it shares an address with any region before it. Main statements: an image loads
exactly if its regions lie apart and end below the end of the address space, in whatever order they
are listed; a region that ends with the last address is refused.
-/
namespace HeapLens

namespace Region

/-- The region has contents. -/
def filled (r : Region) : Bool := !r.data.isEmpty

theorem filled_of_holds {r : Region} {address : Nat} {byte : UInt8} (held : r.Holds address byte) :
    r.filled = true := by
  obtain ⟨offset, found, -⟩ := held
  have mem : byte ∈ r.data := List.mem_of_getElem? found
  simpa [filled] using List.ne_nil_of_mem mem

instance : Std.Symm Apart where
  symm _ _ apart address both := apart address both.symm

end Region

namespace Memory

/-! Regions without contents. -/

theorem add_unfilled {r : Region} (unfilled : r.filled = false) (m : Memory) : m.add r = .ok m := by
  have empty : r.data = [] := by simpa [Region.filled] using unfilled
  have inside : ¬ UInt64.size ≤ r.address.toNat + r.data.length := by
    rw [empty]
    exact Nat.not_le.mpr r.address.toNat_lt
  unfold add
  dsimp only
  rw [if_neg inside, empty]
  rfl

theorem foldlM_add_filled (regions : List Region) (m : Memory) :
    (regions.filter Region.filled).foldlM add m = regions.foldlM add m := by
  induction regions generalizing m with
  | nil => rfl
  | cons r regions ih =>
    cases filled : r.filled with
    | false =>
      rw [List.filter_cons_of_neg (Bool.eq_false_iff.mp filled), ih, List.foldlM_cons,
        add_unfilled filled]
      rfl
    | true =>
      rw [List.filter_cons_of_pos filled, List.foldlM_cons, List.foldlM_cons]
      exact congrArg (m.add r >>= ·) (funext ih)

/-- Regions without contents change nothing, not even the error. -/
theorem ofRegions_filled (regions : List Region) :
    ofRegions (regions.filter Region.filled) = ofRegions regions :=
  foldlM_add_filled regions empty

/-! One more region. -/

section
variable {m m' : Memory} {regions more : List Region} {r : Region}

/-- The regions so far have a block that comes close to another region exactly if one of them
shares an address with it. -/
theorem Represents.meets_iff (h : m.Represents regions) (filled : r.data ≠ []) :
    m.Meets r ↔ ∃ q ∈ regions, ∃ address, q.Covers address ∧ r.Covers address := by
  have some : 0 < r.block.data.length := List.length_pos_iff.mpr filled
  constructor
  · rintro ⟨b, mem, low, high⟩
    have solid := h.ordered.solid b mem
    have shared : b.Covers (max b.start.toNat r.address.toNat) := ⟨Nat.le_max_left .., by omega⟩
    obtain ⟨byte, held⟩ := Block.covers_iff_holds.mp shared
    obtain ⟨q, listed, holds⟩ := (h.holds _ byte).mp ⟨b, mem, held⟩
    refine ⟨q, listed, _, Block.covers_iff_holds.mpr ⟨byte, holds⟩, Nat.le_max_right .., ?_⟩
    rw [Block.stop] at low ⊢
    change max b.start.toNat r.address.toNat < r.address.toNat + r.block.data.length
    change b.start.toNat < r.address.toNat + r.block.data.length at low
    omega
  · rintro ⟨q, listed, address, covered, low, high⟩
    obtain ⟨byte, holds⟩ := Block.covers_iff_holds.mp covered
    obtain ⟨b, mem, held⟩ := (h.holds address byte).mpr ⟨q, listed, holds⟩
    have covers := Block.covers_iff_holds.mpr ⟨byte, held⟩
    exact ⟨b, mem, Nat.lt_of_le_of_lt covers.1 high, Nat.lt_of_le_of_lt low covers.2⟩

theorem Represents.add_error (h : m.Represents regions) {e : InspectError}
    (refused : m.add r = .error e) :
    e = .snapshot (.wraps r.address) ∧ UInt64.size ≤ r.block.stop ∨
      e = .snapshot (.overlaps r.address) ∧
        ∃ q ∈ regions, ∃ address, q.Covers address ∧ r.Covers address := by
  rw [add_eq h.ordered] at refused
  by_cases wraps : UInt64.size ≤ r.block.stop
  · rw [if_pos wraps] at refused
    cases refused
    exact .inl ⟨rfl, wraps⟩
  rw [if_neg wraps] at refused
  by_cases empty : r.data.isEmpty
  · rw [if_pos empty] at refused
    cases refused
  rw [if_neg empty] at refused
  by_cases meets : m.Meets r
  · rw [if_pos meets] at refused
    cases refused
    exact .inr ⟨rfl, (h.meets_iff (mt List.isEmpty_iff.mpr empty)).mp meets⟩
  · rw [if_neg meets] at refused
    cases refused

theorem Represents.add_succeeds_iff (h : m.Represents regions) :
    (∃ m', m.add r = .ok m') ↔ r.block.stop < UInt64.size ∧ ∀ q ∈ regions, q.Apart r := by
  constructor
  · rintro ⟨m', added⟩
    have apart := List.pairwise_append.mp (h.add added).apart
    exact ⟨(add_ok h.ordered added).1, fun q mem => apart.2.2 q mem r (List.mem_singleton_self r)⟩
  · rintro ⟨inside, apart⟩
    cases outcome : m.add r with
    | ok m' => exact ⟨m', rfl⟩
    | error e =>
      rcases h.add_error outcome with ⟨-, wraps⟩ | ⟨-, q, mem, address, shared⟩
      · exact absurd inside (Nat.not_lt.mpr wraps)
      · exact absurd shared (apart q mem address)

/-! A list of regions. -/

theorem Represents.addAll_succeeds_iff (h : m.Represents regions) :
    (∃ m', more.foldlM Memory.add m = .ok m') ↔
      (regions ++ more).Pairwise Region.Apart ∧ ∀ r ∈ more, r.block.stop < UInt64.size := by
  induction more generalizing m regions with
  | nil =>
    rw [List.append_nil]
    exact ⟨fun _ => ⟨h.apart, nofun⟩, fun _ => ⟨m, rfl⟩⟩
  | cons r more ih =>
    rw [List.foldlM_cons, List.forall_mem_cons, List.append_cons]
    cases first : m.add r with
    | error e =>
      refine ⟨fun ⟨m', added⟩ => (nomatch added), fun ⟨apart, inside, _⟩ => ?_⟩
      have beside := (List.pairwise_append.mp (List.pairwise_append.mp apart).1).2.2
      obtain ⟨m', added⟩ := h.add_succeeds_iff.mpr
        ⟨inside, fun q mem => beside q mem r (List.mem_singleton_self r)⟩
      cases first.symm.trans added
    | ok middle =>
      have inside := (h.add_succeeds_iff.mp ⟨middle, first⟩).1
      rw [and_iff_right inside]
      exact ih (h.add first)

theorem ofRegions_succeeds_iff (regions : List Region) :
    (∃ m, ofRegions regions = .ok m) ↔
      regions.Pairwise Region.Apart ∧ ∀ r ∈ regions, r.block.stop < UInt64.size :=
  represents_empty.addAll_succeeds_iff

/-- The regions up to the one that is refused are taken. -/
theorem addAll_error {e : InspectError} (refused : more.foldlM Memory.add m = .error e) :
    ∃ front r back m', more = front ++ r :: back ∧ front.foldlM Memory.add m = .ok m' ∧
      m'.add r = .error e := by
  induction more generalizing m with
  | nil => cases refused
  | cons r more ih =>
    rw [List.foldlM_cons] at refused
    cases first : m.add r with
    | error d =>
      rw [first] at refused
      cases refused
      exact ⟨[], r, more, m, rfl, rfl, first⟩
    | ok middle =>
      rw [first] at refused
      obtain ⟨front, q, back, m', rfl, taken, last⟩ := ih refused
      refine ⟨r :: front, q, back, m', rfl, ?_, last⟩
      rw [List.foldlM_cons, first]
      exact taken

/-! The same contents. -/

/-- What memory answers depends on what its regions hold, and on nothing else. -/
theorem Represents.read_congr {others : List Region} (h : m.Represents regions)
    (h' : m'.Represents others)
    (same : ∀ address byte, (∃ r ∈ regions, r.Holds address byte) ↔
      ∃ r ∈ others, r.Holds address byte) : m.read = m'.read := by
  funext address size
  cases outcome : m'.read address size with
  | ok bytes =>
    obtain ⟨length, held⟩ := (h'.read_eq_ok_iff address size bytes).mp outcome
    exact (h.read_eq_ok_iff address size bytes).mpr
      ⟨length, fun i byte there => (same _ byte).mpr (held i byte there)⟩
  | error range =>
    obtain ⟨rfl, i, inside, gap⟩ := (h'.read_eq_error_iff address size range).mp outcome
    refine (h.read_eq_error_iff address size _).mpr ⟨rfl, i, inside, fun r mem covers => ?_⟩
    obtain ⟨byte, holds⟩ := Block.covers_iff_holds.mp covers
    obtain ⟨q, listed, holds⟩ := (same _ byte).mp ⟨r, mem, holds⟩
    exact gap q listed (Block.covers_iff_holds.mpr ⟨byte, holds⟩)

end
end Memory

namespace LoadedSnapshot

/-- Images with the same names and the same reads are the same target. -/
theorem target_congr {image image' : LoadedSnapshot}
    (build : image.snapshot.build = image'.snapshot.build)
    (constants : image.snapshot.constants = image'.snapshot.constants)
    (symbols : image.snapshot.symbols = image'.snapshot.symbols)
    (reads : image.memory.read = image'.memory.read) (types : Registry) :
    image.target types = image'.target types := by
  have read : image.read = image'.read := by
    unfold LoadedSnapshot.read
    rw [reads]
  have symbol : image.symbol? = image'.symbol? := by
    unfold symbol?
    rw [symbols]
  have value : image.symbolValue types = image'.symbolValue types := by
    unfold symbolValue
    rw [read, symbol]
  have scope : image.scope types = image'.scope types := by
    unfold scope
    rw [read, value]
  unfold target
  rw [build, constants, reads, scope]

end LoadedSnapshot

namespace Snapshot

theorem load_eq_ok_iff {s : Snapshot} {image : LoadedSnapshot} :
    s.load = .ok image ↔ image.snapshot = s ∧ Memory.ofRegions s.regions = .ok image.memory := by
  unfold load
  cases Memory.ofRegions s.regions with
  | error e => exact ⟨nofun, nofun⟩
  | ok m =>
    constructor
    · rintro ⟨⟩
      exact ⟨rfl, rfl⟩
    · rintro ⟨rfl, ⟨⟩⟩
      rfl

theorem loads_iff (s : Snapshot) :
    (∃ image, s.load = .ok image) ↔ ∃ m, Memory.ofRegions s.regions = .ok m := by
  constructor
  · rintro ⟨image, loaded⟩
    exact ⟨_, (load_eq_ok_iff.mp loaded).2⟩
  · rintro ⟨m, made⟩
    exact ⟨⟨s, m⟩, load_eq_ok_iff.mpr ⟨rfl, made⟩⟩

theorem load_succeeds_iff (s : Snapshot) :
    (∃ image, s.load = .ok image) ↔ s.regions.Pairwise Region.Apart ∧
      ∀ r ∈ s.regions, r.address.toNat + r.data.length < UInt64.size :=
  (loads_iff s).trans (Memory.ofRegions_succeeds_iff s.regions)

theorem load_error {s : Snapshot} {e : InspectError} (refused : s.load = .error e) :
    ∃ front r back, s.regions = front ++ r :: back ∧
      (∃ image, { s with regions := front }.load = .ok image) ∧
      (e = .snapshot (.wraps r.address) ∧ UInt64.size ≤ r.address.toNat + r.data.length ∨
        e = .snapshot (.overlaps r.address) ∧
          ∃ q ∈ front, ∃ address, q.Covers address ∧ r.Covers address) := by
  have failed : Memory.ofRegions s.regions = .error e := by
    unfold load at refused
    cases made : Memory.ofRegions s.regions with
    | error d => rw [made] at refused; cases refused; rfl
    | ok m => rw [made] at refused; cases refused
  obtain ⟨front, r, back, m, split, taken, last⟩ := Memory.addAll_error failed
  have before : m.Represents front := Memory.represents_ofRegions taken
  exact ⟨front, r, back, split, ⟨⟨{ s with regions := front }, m⟩, load_eq_ok_iff.mpr ⟨rfl, taken⟩⟩,
    before.add_error last⟩

/-- The regions with contents are the same ones, in any order, and there may be any others. -/
def Rearranged (regions others : List Region) : Prop :=
  (regions.filter Region.filled).Perm (others.filter Region.filled)

section
variable {regions others : List Region}

theorem rearranged_of_perm (permuted : regions.Perm others) : Rearranged regions others :=
  permuted.filter _

theorem rearranged_insert (front : List Region) {back : List Region} {r : Region}
    (empty : r.data = []) :
    Rearranged (front ++ back) (front ++ r :: back) := by
  have unfilled : ¬ r.filled = true := by simp [Region.filled, empty]
  rw [Rearranged, List.filter_append, List.filter_append, List.filter_cons_of_neg unfilled]

theorem Rearranged.holds (rearranged : Rearranged regions others) (address : Nat) (byte : UInt8) :
    (∃ r ∈ regions, r.Holds address byte) ↔ ∃ r ∈ others, r.Holds address byte := by
  have same (r : Region) (held : r.Holds address byte) : r ∈ regions ↔ r ∈ others := by
    have filled := Region.filled_of_holds held
    simpa [List.mem_filter, filled] using rearranged.mem_iff (a := r)
  constructor
  · rintro ⟨r, mem, held⟩
    exact ⟨r, (same r held).mp mem, held⟩
  · rintro ⟨r, mem, held⟩
    exact ⟨r, (same r held).mpr mem, held⟩

theorem Rearranged.succeeds_iff (rearranged : Rearranged regions others) :
    (∃ m, Memory.ofRegions regions = .ok m) ↔ ∃ m, Memory.ofRegions others = .ok m := by
  rw [← Memory.ofRegions_filled regions, ← Memory.ofRegions_filled others,
    Memory.ofRegions_succeeds_iff, Memory.ofRegions_succeeds_iff]
  refine and_congr (rearranged.pairwise_iff (Std.Symm.symm _ _)) ?_
  exact forall_congr' fun r => imp_congr_left rearranged.mem_iff

variable {s : Snapshot} {image image' : LoadedSnapshot}

theorem Rearranged.read_eq (rearranged : Rearranged s.regions others)
    (loaded : s.load = .ok image) (loaded' : { s with regions := others }.load = .ok image') :
    image'.memory.read = image.memory.read :=
  ((represents_of_load loaded).read_congr (represents_of_load loaded') rearranged.holds).symm

/-- The target that a rearranged image loads as is the same one. -/
theorem Rearranged.target_eq (rearranged : Rearranged s.regions others)
    (loaded : s.load = .ok image) (loaded' : { s with regions := others }.load = .ok image')
    (types : Registry) : image'.target types = image.target types := by
  obtain ⟨whole, -⟩ := load_eq_ok_iff.mp loaded
  obtain ⟨whole', -⟩ := load_eq_ok_iff.mp loaded'
  apply LoadedSnapshot.target_congr _ _ _ (rearranged.read_eq loaded loaded')
  all_goals rw [whole, whole']

end

/-- An image loads exactly if no two of its regions share an address and each ends below the end of
the address space. Neither this nor the target that it loads as depends on the order of the regions
or on those without contents. What is refused is named, and is at fault. -/
theorem load_in_any_order (s : Snapshot) :
    ((∃ image, s.load = .ok image) ↔ s.regions.Pairwise Region.Apart ∧
      ∀ r ∈ s.regions, r.address.toNat + r.data.length < UInt64.size) ∧
    (∀ others, Rearranged s.regions others →
      ((∃ image, s.load = .ok image) ↔ ∃ image, { s with regions := others }.load = .ok image) ∧
      ∀ image image', s.load = .ok image → { s with regions := others }.load = .ok image' →
        image'.memory.read = image.memory.read ∧
          ∀ types, image'.target types = image.target types) ∧
    (∀ e, s.load = .error e → ∃ front r back, s.regions = front ++ r :: back ∧
      (∃ image, { s with regions := front }.load = .ok image) ∧
      (e = .snapshot (.wraps r.address) ∧ UInt64.size ≤ r.address.toNat + r.data.length ∨
        e = .snapshot (.overlaps r.address) ∧
          ∃ q ∈ front, ∃ address, q.Covers address ∧ r.Covers address)) := by
  refine ⟨load_succeeds_iff s, fun others rearranged => ⟨?_, ?_⟩, fun e => load_error⟩
  · rw [loads_iff, loads_iff]
    exact rearranged.succeeds_iff
  · intro image image' loaded loaded'
    exact ⟨rearranged.read_eq loaded loaded', rearranged.target_eq loaded loaded'⟩

/-- Adjacent regions from below, with two empty ones, one of them inside another region. -/
def ascending : List Region :=
  [⟨4097, [], [], ""⟩, ⟨4096, [], [1, 2], ""⟩, ⟨4098, [], [], ""⟩, ⟨4098, [], [3], ""⟩]

theorem ascending_in_any_order :
    Rearranged adjacent.regions ascending ∧
      (∃ image, adjacent.load = .ok image) ∧
      (∃ image, { adjacent with regions := ascending }.load = .ok image) ∧
      ∀ image image', adjacent.load = .ok image →
        { adjacent with regions := ascending }.load = .ok image' →
          image'.memory.read = image.memory.read := by
  have rearranged : Rearranged adjacent.regions ascending :=
    (rearranged_of_perm (List.reverse_perm adjacent.regions).symm).trans
      (rearranged_insert [] rfl)
  obtain ⟨accepted, anyOrder, -⟩ := load_in_any_order adjacent
  obtain ⟨alike, same⟩ := anyOrder ascending rearranged
  have loads : ∃ image, adjacent.load = .ok image := ⟨_, rfl⟩
  exact ⟨rearranged, loads, alike.mp loads,
    fun image image' loaded loaded' => (same image image' loaded loaded').1⟩

/-! Up to the last address. -/

/-- A part of a region is read as it is stored. -/
theorem read_part {s : Snapshot} {image : LoadedSnapshot} (loaded : s.load = .ok image) {r : Region}
    (mem : r ∈ s.regions) {offset count : Nat} (inside : offset + count ≤ r.data.length) :
    image.memory.read (r.address + UInt64.ofNat offset) (UInt64.ofNat count) =
      .ok ((r.data.drop offset).take count) := by
  have whole := represents_of_load loaded
  have fits := ((load_succeeds_iff s).mp ⟨image, loaded⟩).2 r mem
  have narrow {n : Nat} (low : n ≤ r.data.length) : (UInt64.ofNat n).toNat = n :=
    UInt64.toNat_ofNat_of_lt' (by omega)
  have stored : image.memory.read r.address (UInt64.ofNat r.data.length) = .ok r.data :=
    (whole.read_eq_ok_iff _ _ _).mpr
      ⟨(narrow (Nat.le_refl _)).symm, fun i byte there => ⟨r, mem, i, there, rfl⟩⟩
  refine (whole.read_part stored ?_).2
  rw [narrow (by omega), narrow (by omega), Bytes.slice?, if_pos inside]

/-- Regions that lie apart cannot both end with the last address, so one that does is the one that
is refused. -/
theorem load_refuses_last {s : Snapshot} (filled : ∀ r ∈ s.regions, r.data ≠ [])
    (apart : s.regions.Pairwise Region.Apart)
    (inside : ∀ r ∈ s.regions, r.address.toNat + r.data.length ≤ UInt64.size) {r : Region}
    (mem : r ∈ s.regions) (last : r.address.toNat + r.data.length = UInt64.size) :
    s.load = .error (.snapshot (.wraps r.address)) := by
  have covers {q : Region} (listed : q ∈ s.regions)
      (ends : UInt64.size ≤ q.address.toNat + q.data.length) : q.Covers (UInt64.size - 1) := by
    have some : 0 < q.data.length := List.length_pos_iff.mpr (filled q listed)
    have within := inside q listed
    exact ⟨show q.address.toNat ≤ _ by omega, show _ < q.address.toNat + q.data.length by omega⟩
  cases outcome : s.load with
  | ok image =>
    have below := ((load_succeeds_iff s).mp ⟨image, outcome⟩).2 r mem
    omega
  | error e =>
    obtain ⟨front, q, back, split, -, ⟨rfl, wraps⟩ | ⟨-, p, before, address, shared⟩⟩ :=
      load_error outcome
    · have listed : q ∈ s.regions := by simp [split]
      by_cases same : q = r
      · rw [same]
      · have beside := apart.forall listed mem same
        exact absurd ⟨covers listed wraps, covers mem (Nat.le_of_eq last.symm)⟩ (beside _)
    · rw [split] at apart
      exact absurd shared ((List.pairwise_append.mp apart).2.2 p before q (List.mem_cons_self ..) _)

/-- Regions with contents that lie apart, each inside the address space, load and are read as they
are stored in every part, unless one of them ends with the last address: that one is refused. -/
theorem load_below_last_address {s : Snapshot} (filled : ∀ r ∈ s.regions, r.data ≠ [])
    (apart : s.regions.Pairwise Region.Apart)
    (inside : ∀ r ∈ s.regions, r.address.toNat + r.data.length ≤ UInt64.size) :
    ((∀ r ∈ s.regions, r.address.toNat + r.data.length ≠ UInt64.size) →
      ∃ image, s.load = .ok image ∧
        ∀ r ∈ s.regions, ∀ offset count, offset + count ≤ r.data.length →
          image.memory.read (r.address + UInt64.ofNat offset) (UInt64.ofNat count) =
            .ok ((r.data.drop offset).take count)) ∧
    ∀ r ∈ s.regions, r.address.toNat + r.data.length = UInt64.size →
      s.load = .error (.snapshot (.wraps r.address)) := by
  refine ⟨fun none => ?_, fun r mem last => load_refuses_last filled apart inside mem last⟩
  have below : ∀ r ∈ s.regions, r.address.toNat + r.data.length < UInt64.size :=
    fun r mem => Nat.lt_of_le_of_ne (inside r mem) (none r mem)
  obtain ⟨image, loaded⟩ := (load_succeeds_iff s).mpr ⟨apart, below⟩
  exact ⟨image, loaded, fun r mem offset count part => read_part loaded mem part⟩

/-- Two bytes that end below the last address. -/
def nearTop : Snapshot := empty.withBytes 0xfffffffffffffffd [1, 2]

def atTop : Snapshot := nearTop.withBytes 0xffffffffffffffff [3]

theorem near_top_loads :
    (∃ image, nearTop.load = .ok image ∧ image.memory.read 0xfffffffffffffffe 1 = .ok [2]) ∧
      atTop.load = .error (.snapshot (.wraps 0xffffffffffffffff)) := by
  have below := (load_below_last_address (s := nearTop) (by decide) (List.pairwise_singleton ..)
    (by decide)).1 (by decide)
  have apart : atTop.regions.Pairwise Region.Apart := by
    refine List.pairwise_cons.mpr ⟨fun q mem address => ?_, List.pairwise_singleton ..⟩
    rintro ⟨⟨-, high⟩, low, -⟩
    obtain rfl := List.mem_singleton.mp mem
    change address < 0xfffffffffffffffd + 2 at high
    change 0xffffffffffffffff ≤ address at low
    omega
  have last := (load_below_last_address (s := atTop) (by decide) apart (by decide)).2
    ⟨0xffffffffffffffff, [], [3], ""⟩ (by decide) (by decide)
  obtain ⟨image, loaded, reads⟩ := below
  exact ⟨⟨image, loaded, reads ⟨0xfffffffffffffffd, [], [1, 2], ""⟩ (by decide) 1 1 (by decide)⟩,
    last⟩

/-- The last byte of the address space, alone. -/
def topByte : Snapshot := empty.withBytes 0xffffffffffffffff [1]

theorem last_byte_refused :
    (∀ r ∈ topByte.regions, r.data ≠ [] ∧ r.address.toNat + r.data.length ≤ UInt64.size) ∧
      topByte.regions.Pairwise Region.Apart ∧
      topByte.load = .error (.snapshot (.wraps 0xffffffffffffffff)) :=
  ⟨by decide, List.pairwise_singleton .., rfl⟩

end Snapshot
end HeapLens
