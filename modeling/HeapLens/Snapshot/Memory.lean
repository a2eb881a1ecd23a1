import HeapLens.Error
import HeapLens.Snapshot.Basic

/-!
Memory made of blocks. The blocks are kept by falling address, none of them is empty and no two
share an address, so the block that can hold an address is the first that does not start above
it. A read gathers bytes from block to block and fails at the first gap.
-/
namespace HeapLens

structure Block where
  start : UInt64
  data : Bytes
  deriving DecidableEq, Repr

namespace Block

def stop (b : Block) : Nat := b.start.toNat + b.data.length

def Covers (b : Block) (address : Nat) : Prop := b.start.toNat ≤ address ∧ address < b.stop

end Block

structure Memory where
  blocks : List Block
  deriving DecidableEq, Repr

namespace Memory

def empty : Memory := ⟨[]⟩

def lastBelow (m : Memory) (address : Nat) : Option Block :=
  m.blocks.find? fun b => b.start.toNat < address

/-- Blocks by falling address with one more of them. -/
def place (block : Block) : List Block → List Block
  | [] => [block]
  | b :: rest => if b.start < block.start then block :: b :: rest else b :: place block rest

/-- Memory with one more region, unless it overlaps another or does not end below the end of the
address space. A region without contents adds nothing. -/
def add (m : Memory) (r : Region) : Except InspectError Memory :=
  let data := r.data
  let stop := r.address.toNat + data.length
  if UInt64.size ≤ stop then .error (.snapshot (.wraps r.address))
  else if data.isEmpty then .ok m
  else
    match m.lastBelow stop with
    | some b =>
      if r.address.toNat < b.stop then .error (.snapshot (.overlaps r.address))
      else .ok ⟨place ⟨r.address, data⟩ m.blocks⟩
    | none => .ok ⟨place ⟨r.address, data⟩ m.blocks⟩

def ofRegions (regions : List Region) : Except InspectError Memory := regions.foldlM add empty

/-- `count` bytes from an address on, unless one of them is missing. -/
def gather (m : Memory) (address count : Nat) : Option Bytes :=
  if count = 0 then some []
  else
    match m.lastBelow (address + 1) with
    | none => none
    | some b =>
      let part := (b.data.drop (address - b.start.toNat)).take count
      if _gap : part.length = 0 then none
      else (m.gather (address + part.length) (count - part.length)).map (part ++ ·)
termination_by count
decreasing_by
  simp only [part] at _gap
  omega

/-- A read has to end below the end of the address space. -/
def read (m : Memory) (address size : UInt64) : Except Unreadable Bytes :=
  if address.toNat + size.toNat < UInt64.size then
    match m.gather address.toNat size.toNat with
    | some bytes => .ok bytes
    | none => .error ⟨address, size⟩
  else .error ⟨address, size⟩

end Memory
end HeapLens
