import HeapLens.Proofs.Snapshot.Target

/-!
A loaded image as a byte memory. The blocks of a memory lie apart from each other, by falling
address; adding a region keeps them so, and what an address holds is what some region holds there.
Main statement: a read gives the bytes that the regions hold from its address on, and fails as a
whole if one of them is missing.
-/
namespace HeapLens

namespace Block

/-- The byte that a block has at an address. -/
def Holds (b : Block) (address : Nat) (byte : UInt8) : Prop :=
  ∃ offset, b.data[offset]? = some byte ∧ b.start.toNat + offset = address

instance (b : Block) (address : Nat) : Decidable (b.Covers address) := by
  unfold Covers; infer_instance

theorem covers_iff_holds {b : Block} {address : Nat} :
    b.Covers address ↔ ∃ byte, b.Holds address byte := by
  constructor
  · rintro ⟨low, high⟩
    rw [stop] at high
    have inside : address - b.start.toNat < b.data.length := by omega
    exact ⟨_, _, List.getElem?_eq_getElem inside, by omega⟩
  · rintro ⟨byte, offset, found, rfl⟩
    obtain ⟨inside, -⟩ := List.getElem?_eq_some_iff.mp found
    exact ⟨by omega, by rw [stop]; omega⟩

theorem holds_iff {b : Block} {address : Nat} {byte : UInt8} (covers : b.Covers address) :
    b.Holds address byte ↔ b.data[address - b.start.toNat]? = some byte := by
  have low := covers.1
  constructor
  · rintro ⟨offset, found, rfl⟩
    rwa [Nat.add_sub_cancel_left]
  · intro found
    exact ⟨_, found, by omega⟩

end Block

namespace Region

/-- The contents of a region, at its address. -/
def block (r : Region) : Block := ⟨r.address, r.data⟩

def Holds (r : Region) (address : Nat) (byte : UInt8) : Prop := r.block.Holds address byte

def Covers (r : Region) (address : Nat) : Prop := r.block.Covers address

instance (r : Region) (address : Nat) : Decidable (r.Covers address) := by
  unfold Covers; infer_instance

/-- No address is covered by both. -/
def Apart (r q : Region) : Prop := ∀ address, ¬ (r.Covers address ∧ q.Covers address)

end Region

/-- Looking up bytes one by one, after a first part that was looked up already. -/
theorem lookup_append {look : Nat → Option UInt8} {part bytes : Bytes} {count : Nat}
    (short : part.length ≤ count) (near : ∀ i < part.length, look i = part[i]?) :
    (∃ rest : Bytes, (rest.length = count - part.length ∧
        ∀ i < count - part.length, look (part.length + i) = rest[i]?) ∧ part ++ rest = bytes) ↔
      bytes.length = count ∧ ∀ i < count, look i = bytes[i]? := by
  constructor
  · rintro ⟨rest, ⟨length, found⟩, rfl⟩
    refine ⟨by rw [List.length_append, length]; omega, fun i inside => ?_⟩
    by_cases first : i < part.length
    · rw [List.getElem?_append_left first, near i first]
    · rw [List.getElem?_append_right (by omega), ← found (i - part.length) (by omega),
        Nat.add_sub_cancel' (by omega)]
  · rintro ⟨length, found⟩
    have front : bytes.take part.length = part := by
      apply List.ext_getElem?
      intro i
      by_cases first : i < part.length
      · rw [List.getElem?_take_of_lt first, ← near i first, found i (by omega)]
      · rw [List.getElem?_eq_none (by rw [List.length_take]; omega),
          List.getElem?_eq_none (by omega)]
    refine ⟨bytes.drop part.length, ⟨?_, fun i inside => ?_⟩, ?_⟩
    · rw [List.length_drop, length]
    · rw [List.getElem?_drop, found _ (by omega)]
    · conv => lhs; rw [← front]
      rw [List.length_take, Nat.min_eq_left (by omega), List.take_append_drop]

namespace Memory

/-- The second block ends before the first one starts. -/
def Falls (b c : Block) : Prop := c.stop ≤ b.start.toNat

/-- Blocks with contents, by falling address and apart from each other, inside the address space. -/
structure Ordered (m : Memory) : Prop where
  falling : m.blocks.Pairwise Falls
  solid : ∀ b ∈ m.blocks, b.start.toNat < b.stop
  inside : ∀ b ∈ m.blocks, b.stop < UInt64.size

def Holds (m : Memory) (address : Nat) (byte : UInt8) : Prop :=
  ∃ b ∈ m.blocks, b.Holds address byte

/-- The byte at an address, looked up as a read does it. -/
def byte? (m : Memory) (address : Nat) : Option UInt8 :=
  (m.lastBelow (address + 1)).bind fun b => b.data[address - b.start.toNat]?

theorem ordered_empty : empty.Ordered where
  falling := .nil
  solid := nofun
  inside := nofun

theorem mem_of_lastBelow {m : Memory} {b : Block} {stop : Nat} (found : m.lastBelow stop = some b) :
    b ∈ m.blocks ∧ b.start.toNat < stop := by
  unfold lastBelow at found
  have below := List.find?_some found
  exact ⟨List.mem_of_find?_eq_some found, of_decide_eq_true below⟩

/-! Looking up a byte. -/

section
variable {m : Memory} (ordered : m.Ordered)
include ordered

/-- The blocks in front of the one that covers an address start above it. -/
theorem lastBelow_of_covers {b : Block} {address : Nat} (mem : b ∈ m.blocks)
    (covers : b.Covers address) : m.lastBelow (address + 1) = some b := by
  obtain ⟨above, below, place⟩ := List.append_of_mem mem
  have falling := ordered.falling
  rw [place] at falling
  rw [lastBelow, List.find?_eq_some_iff_append]
  refine ⟨decide_eq_true (Nat.lt_succ_of_le covers.1), above, below, place, fun c higher => ?_⟩
  have apart : Falls c b :=
    (List.pairwise_append.mp falling).2.2 c higher b (List.mem_cons_self ..)
  have low := covers.2
  rw [Falls] at apart
  simp only [Bool.not_eq_true', decide_eq_false_iff_not]
  omega

theorem byte?_eq_some_iff {address : Nat} {byte : UInt8} :
    m.byte? address = some byte ↔ m.Holds address byte := by
  constructor
  · intro found
    obtain ⟨b, below, found⟩ := Option.bind_eq_some_iff.mp found
    obtain ⟨mem, start⟩ := mem_of_lastBelow below
    exact ⟨b, mem, _, found, by omega⟩
  · rintro ⟨b, mem, held⟩
    have covers := Block.covers_iff_holds.mpr ⟨_, held⟩
    rw [byte?, lastBelow_of_covers ordered mem covers]
    exact (Block.holds_iff covers).mp held

omit ordered in
theorem missing_first {bytes : Bytes} {address count : Nat} (more : ¬ count = 0)
    (missing : m.byte? address = none) :
    ¬ (bytes.length = count ∧ ∀ i < count, m.byte? (address + i) = bytes[i]?) := by
  rintro ⟨length, found⟩
  have first := found 0 (Nat.pos_of_ne_zero more)
  rw [Nat.add_zero, missing] at first
  have short := List.getElem?_eq_none_iff.mp first.symm
  omega

/-- The part that a read takes from a block holds the bytes at its addresses. -/
theorem byte?_part {b : Block} {address count i : Nat}
    (below : m.lastBelow (address + 1) = some b)
    (inside : i < ((b.data.drop (address - b.start.toNat)).take count).length) :
    m.byte? (address + i) = ((b.data.drop (address - b.start.toNat)).take count)[i]? := by
  obtain ⟨mem, start⟩ := mem_of_lastBelow below
  rw [List.length_take, List.length_drop] at inside
  have covers : b.Covers (address + i) := ⟨by omega, by rw [Block.stop]; omega⟩
  have moved : address + i - b.start.toNat = address - b.start.toNat + i := by omega
  rw [byte?, lastBelow_of_covers ordered mem covers, Option.bind_some, moved,
    List.getElem?_take_of_lt (by omega), List.getElem?_drop]

/-- Bytes are gathered if they are all there, and then they are the bytes at their addresses. -/
theorem gather_eq_some_iff (address count : Nat) (bytes : Bytes) :
    m.gather address count = some bytes ↔
      bytes.length = count ∧ ∀ i < count, m.byte? (address + i) = bytes[i]? := by
  induction address, count using gather.induct m generalizing bytes with
  | case1 address =>
    rw [gather, if_pos rfl]
    constructor
    · rintro ⟨⟩
      exact ⟨rfl, fun i low => absurd low (Nat.not_lt_zero i)⟩
    · rintro ⟨empty, -⟩
      rw [List.length_eq_zero_iff.mp empty]
  | case2 address count more below =>
    have missing : m.byte? address = none := by
      rw [byte?, below]
      rfl
    rw [gather, if_neg more, below]
    exact ⟨fun read => (by cases read), fun all => absurd all (missing_first more missing)⟩
  | case3 address count more b below part gap =>
    have missing : m.byte? address = none := by
      rw [byte?, below, Option.bind_some, List.getElem?_eq_none_iff]
      simp only [part, List.length_take, List.length_drop] at gap
      omega
    rw [gather, if_neg more, below]
    dsimp only
    rw [dif_pos gap]
    exact ⟨fun read => (by cases read), fun all => absurd all (missing_first more missing)⟩
  | case4 address count more b below part some ih =>
    have near : ∀ i < part.length, m.byte? (address + i) = part[i]? :=
      fun i inside => byte?_part ordered below inside
    have short : part.length ≤ count := List.length_take_le ..
    rw [gather, if_neg more, below]
    dsimp only
    rw [dif_neg some, Option.map_eq_some_iff, ← lookup_append short near]
    refine exists_congr fun rest => and_congr_left fun _ => (ih rest).trans ?_
    simp only [Nat.add_assoc, part]

/-- The block that starts next below the end of a range shares an address with it if any block
does. -/
theorem lastBelow_meets_iff {start stop : Nat} :
    (∃ b, m.lastBelow stop = some b ∧ start < b.stop) ↔
      ∃ b ∈ m.blocks, b.start.toNat < stop ∧ start < b.stop := by
  constructor
  · rintro ⟨b, below, high⟩
    obtain ⟨mem, low⟩ := mem_of_lastBelow below
    exact ⟨b, mem, low, high⟩
  · rintro ⟨c, mem, low, high⟩
    cases below : m.lastBelow stop with
    | none =>
      unfold lastBelow at below
      exact absurd (decide_eq_true low) (List.find?_eq_none.mp below c mem)
    | some b =>
      refine ⟨b, rfl, ?_⟩
      unfold lastBelow at below
      obtain ⟨-, above, others, place, skipped⟩ := List.find?_eq_some_iff_append.mp below
      have falling := ordered.falling
      rw [place] at falling mem
      rcases List.mem_append.mp mem with earlier | later
      · have other := skipped c earlier
        rw [decide_eq_true low] at other
        cases other
      · rcases List.mem_cons.mp later with rfl | later
        · exact high
        · have under : Falls b c :=
            (List.pairwise_cons.mp (List.pairwise_append.mp falling).2.1).1 c later
          rw [Falls] at under
          rw [Block.stop]
          omega

end

/-! Adding a region. -/

theorem mem_place {block c : Block} {blocks : List Block} :
    c ∈ place block blocks ↔ c = block ∨ c ∈ blocks := by
  induction blocks with
  | nil => rw [place, List.mem_singleton, or_iff_left List.not_mem_nil]
  | cons b rest ih =>
    rw [place]
    split
    · rw [List.mem_cons]
    · rw [List.mem_cons, ih, List.mem_cons, or_left_comm]

theorem falling_place {block : Block} {blocks : List Block} (falling : blocks.Pairwise Falls)
    (solid : ∀ b ∈ blocks, b.start.toNat < b.stop)
    (apart : ∀ b ∈ blocks, Falls b block ∨ Falls block b) :
    (place block blocks).Pairwise Falls := by
  induction blocks with
  | nil => exact List.pairwise_singleton ..
  | cons b rest ih =>
    obtain ⟨under, falling⟩ := List.pairwise_cons.mp falling
    obtain ⟨filled, solid⟩ := List.forall_mem_cons.mp solid
    obtain ⟨beside, apart⟩ := List.forall_mem_cons.mp apart
    rw [place]
    split
    · next higher =>
      rw [UInt64.lt_iff_toNat_lt] at higher
      refine List.pairwise_cons.mpr ⟨fun c mem => ?_, List.pairwise_cons.mpr ⟨under, falling⟩⟩
      have low : c.start.toNat ≤ b.start.toNat := by
        rcases List.mem_cons.mp mem with rfl | mem
        · exact Nat.le_refl _
        · have below := under c mem
          have solid := solid c mem
          rw [Falls] at below
          omega
      have apart : Falls c block ∨ Falls block c := by
        rcases List.mem_cons.mp mem with rfl | mem
        · exact beside
        · exact apart c mem
      refine apart.resolve_left fun beyond => ?_
      rw [Falls, Block.stop] at beyond
      omega
    · next lower =>
      rw [UInt64.lt_iff_toNat_lt] at lower
      refine List.pairwise_cons.mpr ⟨fun c mem => ?_, ih falling solid apart⟩
      rcases mem_place.mp mem with rfl | mem
      · refine beside.resolve_right fun beyond => ?_
        rw [Falls] at beyond
        omega
      · exact under c mem

/-- Some block shares an address with a region that has contents. -/
def Meets (m : Memory) (r : Region) : Prop :=
  ∃ b ∈ m.blocks, b.start.toNat < r.block.stop ∧ r.address.toNat < b.stop

instance (m : Memory) (r : Region) : Decidable (m.Meets r) := by unfold Meets; infer_instance

/-- The check of one block stands for a check of all. -/
theorem add_eq {m : Memory} (ordered : m.Ordered) (r : Region) :
    m.add r =
      if UInt64.size ≤ r.block.stop then .error (.snapshot (.wraps r.address))
      else if r.data.isEmpty then .ok m
      else if m.Meets r then .error (.snapshot (.overlaps r.address))
      else .ok ⟨place r.block m.blocks⟩ := by
  have meets : _ ↔ m.Meets r := lastBelow_meets_iff ordered
  have stop : r.address.toNat + r.data.length = r.block.stop := rfl
  simp only [add, stop]
  congr 2
  cases below : m.lastBelow r.block.stop with
  | none =>
    have alone : ¬ m.Meets r := by
      intro h
      obtain ⟨b, found, -⟩ := meets.mpr h
      cases below.symm.trans found
    rw [if_neg alone]
    rfl
  | some b =>
    dsimp only
    by_cases high : r.address.toNat < b.stop
    · rw [if_pos high, if_pos (meets.mp ⟨b, below, high⟩)]
    · have alone : ¬ m.Meets r := by
        intro h
        obtain ⟨c, found, beyond⟩ := meets.mpr h
        cases below.symm.trans found
        exact high beyond
      rw [if_neg high, if_neg alone]
      rfl

theorem add_ok {m m' : Memory} {r : Region} (ordered : m.Ordered) (added : m.add r = .ok m') :
    r.block.stop < UInt64.size ∧
      (r.data = [] ∧ m' = m ∨
        r.data ≠ [] ∧ ¬ m.Meets r ∧ m' = ⟨place r.block m.blocks⟩) := by
  rw [add_eq ordered] at added
  by_cases wraps : UInt64.size ≤ r.block.stop
  · rw [if_pos wraps] at added
    cases added
  rw [if_neg wraps] at added
  refine ⟨by omega, ?_⟩
  by_cases empty : r.data.isEmpty
  · rw [if_pos empty] at added
    cases added
    exact Or.inl ⟨List.isEmpty_iff.mp empty, rfl⟩
  rw [if_neg empty] at added
  by_cases meets : m.Meets r
  · rw [if_pos meets] at added
    cases added
  rw [if_neg meets] at added
  cases added
  exact Or.inr ⟨mt List.isEmpty_iff.mpr empty, meets, rfl⟩

/-- A region that is added lies apart from the blocks, and brings its own bytes. -/
theorem add_holds {m m' : Memory} {r : Region} (ordered : m.Ordered) (added : m.add r = .ok m') :
    m'.Ordered ∧ (∀ address byte, m'.Holds address byte ↔ m.Holds address byte ∨
        r.Holds address byte) ∧
      ∀ b ∈ m.blocks, ∀ address, ¬ (b.Covers address ∧ r.Covers address) := by
  obtain ⟨inside, ⟨empty, rfl⟩ | ⟨filled, alone, rfl⟩⟩ := add_ok ordered added
  · have length : r.block.data.length = 0 := List.length_eq_zero_iff.mpr empty
    have nothing : ∀ address, ¬ r.Covers address := by
      rintro address ⟨low, high⟩
      rw [Block.stop, length] at high
      omega
    refine ⟨ordered, fun address byte => ?_, fun b mem address both => nothing address both.2⟩
    refine ⟨Or.inl, fun held => held.resolve_right fun held => ?_⟩
    exact nothing address (Block.covers_iff_holds.mpr ⟨byte, held⟩)
  · have solid : r.block.start.toNat < r.block.stop :=
      Nat.lt_add_of_pos_right (List.length_pos_iff.mpr filled)
    have apart : ∀ b ∈ m.blocks, Falls b r.block ∨ Falls r.block b := by
      intro b mem
      have far : ¬ (b.start.toNat < r.block.stop ∧ r.address.toNat < b.stop) :=
        fun close => alone ⟨b, mem, close⟩
      have under : r.block.start = r.address := rfl
      rw [Falls, Falls, under]
      omega
    refine ⟨⟨falling_place ordered.falling ordered.solid apart, fun b mem => ?_,
      fun b mem => ?_⟩, fun address byte => ?_, fun b mem address both => ?_⟩
    · rcases mem_place.mp mem with rfl | mem
      · exact solid
      · exact ordered.solid b mem
    · rcases mem_place.mp mem with rfl | mem
      · exact inside
      · exact ordered.inside b mem
    · constructor
      · rintro ⟨b, mem, held⟩
        rcases mem_place.mp mem with rfl | mem
        · exact Or.inr held
        · exact Or.inl ⟨b, mem, held⟩
      · rintro (⟨b, mem, held⟩ | held)
        · exact ⟨b, mem_place.mpr (Or.inr mem), held⟩
        · exact ⟨r.block, mem_place.mpr (Or.inl rfl), held⟩
    · obtain ⟨⟨low, high⟩, start, stop⟩ := both
      have beside := apart b mem
      rw [Falls, Falls] at beside
      omega

/-- The memory holds what the regions hold, which share no address. -/
structure Represents (m : Memory) (regions : List Region) : Prop where
  ordered : m.Ordered
  holds : ∀ address byte, m.Holds address byte ↔ ∃ r ∈ regions, r.Holds address byte
  apart : regions.Pairwise Region.Apart

theorem represents_empty : empty.Represents [] where
  ordered := ordered_empty
  holds _ _ := ⟨nofun, nofun⟩
  apart := .nil

theorem Represents.add {m m' : Memory} {regions : List Region} {r : Region}
    (h : m.Represents regions) (added : m.add r = .ok m') : m'.Represents (regions ++ [r]) := by
  obtain ⟨ordered, holds, beside⟩ := add_holds h.ordered added
  refine ⟨ordered, fun address byte => ?_, ?_⟩
  · rw [holds, h.holds]
    simp only [List.mem_append, List.mem_singleton, or_and_right, exists_or, exists_eq_left]
  · refine List.pairwise_append.mpr ⟨h.apart, List.pairwise_singleton .., ?_⟩
    intro q mem _ last address both
    cases List.mem_singleton.mp last
    obtain ⟨byte, held⟩ := Block.covers_iff_holds.mp both.1
    obtain ⟨b, placed, held⟩ := (h.holds address byte).mpr ⟨q, mem, held⟩
    exact beside b placed address ⟨Block.covers_iff_holds.mpr ⟨_, held⟩, both.2⟩

theorem Represents.addAll {m m' : Memory} {regions more : List Region} (h : m.Represents regions)
    (added : more.foldlM Memory.add m = .ok m') : m'.Represents (regions ++ more) := by
  induction more generalizing m regions with
  | nil =>
    cases added
    rwa [List.append_nil]
  | cons r more ih =>
    rw [List.foldlM_cons] at added
    cases first : m.add r with
    | error e => rw [first] at added; cases added
    | ok middle =>
      rw [first] at added
      rw [List.append_cons]
      exact ih (h.add first) added

theorem represents_ofRegions {m : Memory} {regions : List Region}
    (loaded : ofRegions regions = .ok m) : m.Represents regions :=
  represents_empty.addAll loaded

/-! Reading what the regions hold. -/

section
variable {m : Memory} {regions : List Region} (h : m.Represents regions)
include h

/-- What is held lies below the end of the address space, so a read of it ends there too. -/
theorem Represents.inside {address : Nat} {byte : UInt8} (held : m.Holds address byte) :
    address + 1 < UInt64.size := by
  obtain ⟨b, mem, held⟩ := held
  have below := (Block.covers_iff_holds.mpr ⟨byte, held⟩).2
  have inside := h.ordered.inside b mem
  omega

theorem Represents.read_eq_ok_iff (address size : UInt64) (bytes : Bytes) :
    m.read address size = .ok bytes ↔ bytes.length = size.toNat ∧
      ∀ i byte, bytes[i]? = some byte → ∃ r ∈ regions, r.Holds (address.toNat + i) byte := by
  have gathered := gather_eq_some_iff h.ordered address.toNat size.toNat bytes
  unfold read
  constructor
  · intro found
    split at found
    · split at found
      · next some =>
        cases found
        obtain ⟨length, looked⟩ := gathered.mp some
        refine ⟨length, fun i byte there => (h.holds _ byte).mp ?_⟩
        obtain ⟨inside, -⟩ := List.getElem?_eq_some_iff.mp there
        rw [← byte?_eq_some_iff h.ordered, looked i (by omega), there]
      · cases found
    · cases found
  · rintro ⟨length, held⟩
    have looked : ∀ i < size.toNat, m.byte? (address.toNat + i) = bytes[i]? := by
      intro i inside
      have there := List.getElem?_eq_getElem (l := bytes) (i := i) (by omega)
      rw [there, byte?_eq_some_iff h.ordered, h.holds]
      exact held i _ there
    have ends : address.toNat + size.toNat < UInt64.size := by
      by_cases empty : size.toNat = 0
      · rw [empty]
        exact address.toNat_lt
      · have last := List.getElem?_eq_getElem (l := bytes) (i := size.toNat - 1) (by omega)
        have inside := h.inside ((h.holds _ _).mpr (held _ _ last))
        omega
    rw [if_pos ends, gathered.mpr ⟨length, looked⟩]

omit h in
theorem read_error {address size : UInt64} {range : Unreadable}
    (failed : m.read address size = .error range) : range = ⟨address, size⟩ := by
  unfold read at failed
  split at failed
  · split at failed
    · cases failed
    · cases failed
      rfl
  · cases failed
    rfl

theorem Represents.read_eq_error_iff (address size : UInt64) (range : Unreadable) :
    m.read address size = .error range ↔ range = ⟨address, size⟩ ∧
      ∃ i < size.toNat, ∀ r ∈ regions, ¬ r.Covers (address.toNat + i) := by
  constructor
  · intro failed
    refine ⟨read_error failed, Classical.byContradiction fun whole => ?_⟩
    have held : ∀ i < size.toNat, ∃ byte, m.byte? (address.toNat + i) = some byte := by
      intro i inside
      cases found : m.byte? (address.toNat + i) with
      | some byte => exact ⟨byte, rfl⟩
      | none =>
        refine absurd ⟨i, inside, fun r mem covers => ?_⟩ whole
        obtain ⟨byte, there⟩ := Block.covers_iff_holds.mp covers
        have placed := (h.holds _ byte).mpr ⟨r, mem, there⟩
        rw [← byte?_eq_some_iff h.ordered, found] at placed
        cases placed
    have found := (h.read_eq_ok_iff address size
      ((List.range size.toNat).map fun i => (m.byte? (address.toNat + i)).getD 0)).mpr
      ⟨by rw [List.length_map, List.length_range], fun i byte there => ?_⟩
    · cases failed.symm.trans found
    · obtain ⟨j, listed, rfl⟩ := List.getElem?_eq_some_iff.mp there
      rw [List.length_map, List.length_range] at j
      obtain ⟨byte, known⟩ := held i j
      rw [List.getElem_map, List.getElem_range, known, Option.getD_some, ← h.holds,
        ← byte?_eq_some_iff h.ordered, known]
  · rintro ⟨rfl, i, inside, gap⟩
    cases outcome : m.read address size with
    | error range => rw [read_error outcome]
    | ok bytes =>
      obtain ⟨length, held⟩ := (h.read_eq_ok_iff address size bytes).mp outcome
      have there := List.getElem?_eq_getElem (l := bytes) (i := i) (by omega)
      obtain ⟨r, mem, held⟩ := held i _ there
      exact absurd (Block.covers_iff_holds.mpr ⟨_, held⟩) (gap r mem)

/-- A read gives the front of every longer read at the same address. -/
theorem Represents.read_front {address size more : UInt64} {bytes : Bytes} (shorter : size ≤ more)
    (found : m.read address more = .ok bytes) :
    m.read address size = .ok (bytes.take size.toNat) := by
  obtain ⟨length, held⟩ := (h.read_eq_ok_iff address more bytes).mp found
  rw [UInt64.le_iff_toNat_le] at shorter
  refine (h.read_eq_ok_iff address size _).mpr ⟨?_, fun i byte there => held i byte ?_⟩
  · rw [List.length_take]
    omega
  · obtain ⟨inside, -⟩ := List.getElem?_eq_some_iff.mp there
    rw [List.length_take] at inside
    rwa [List.getElem?_take_of_lt (by omega)] at there

end

end Memory

/-- Each read gives the front of every longer read at the same address, made before or after it. -/
def Target.Coherent (t : Target) : Prop :=
  ∀ n m address size more bytes, size ≤ more → t.memory n address more = .ok bytes →
    t.memory m address size = .ok (bytes.take size.toNat)

namespace Snapshot

theorem represents_of_load {s : Snapshot} {image : LoadedSnapshot} (loaded : s.load = .ok image) :
    image.memory.Represents s.regions := by
  unfold load at loaded
  cases made : Memory.ofRegions s.regions with
  | error e => rw [made] at loaded; cases loaded
  | ok m =>
    rw [made] at loaded
    cases loaded
    exact Memory.represents_ofRegions made

/-- The reads of a loaded image fit together, whenever they are made. -/
theorem load_coherent {s : Snapshot} {image : LoadedSnapshot} (loaded : s.load = .ok image)
    (types : Registry) : (image.target types).Coherent :=
  fun _ _ _ _ _ _ shorter found => (represents_of_load loaded).read_front shorter found

/-- Two adjacent regions, the upper one first, with an empty one between them. -/
def adjacent : Snapshot :=
  ((empty.withBytes 4098 [3]).withBytes 4098 []).withBytes 4096 [1, 2]

end Snapshot
end HeapLens
