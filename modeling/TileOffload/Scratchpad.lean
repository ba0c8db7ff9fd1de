import TileOffload.Chip
import TileOffload.Error

/-! # The scratchpad

Operands are packed into the scratchpad one after another in the order they are given, each at the next
multiple of the alignment. A region is cut into slots of equal length. -/

namespace TileOffload

/-- A named operand and its size in bytes. -/
structure Operand where
  name : String
  bytes : Nat
deriving DecidableEq, Repr

/-- A range of the scratchpad, placed relative to the scratchpad's base. -/
structure Region where
  base : Word
  offset : Nat
  len : Nat
deriving DecidableEq, Repr

namespace Region

/-- The absolute address where the region begins. -/
def addr (r : Region) : Word := r.base + UInt32.ofNat r.offset

/-- The offset just past the region. -/
def endOffset (r : Region) : Nat := r.offset + r.len

/-- Whether the region has no byte. -/
def isEmpty (r : Region) : Bool := r.len == 0

/-- Whether each region begins before the other ends. -/
def overlaps (r s : Region) : Bool := r.offset < s.endOffset && s.offset < r.endOffset

/-- The address of slot `index` when the region is cut into slots of `bytes` bytes. A slot that begins at no
    size is outside, and one that ends at none ends at the largest. -/
def slotAddr (r : Region) (index bytes : Nat) : Except Error Word :=
  match (Size.mul? index bytes).filter fun start => min (start + bytes) Size.largest ≤ r.len with
  | some start => .ok (r.addr + UInt32.ofNat start)
  | none => .error (.invalidPlan (.slotOutside index bytes r.len))

end Region

/-- Operands with their places, and how much of the scratchpad they take. -/
structure Layout where
  regions : List (String × Region)
  used : Nat
  capacity : Nat
deriving DecidableEq, Repr

namespace Layout

/-- The first region of that name. -/
def get? (l : Layout) (name : String) : Option Region :=
  (l.regions.find? (·.1 == name)).map (·.2)

end Layout

/-- Whether exactly one bit of the number is set. -/
def isPowerOfTwo (n : Nat) : Bool := 0 < n && n &&& (n - 1) == 0

/-- Where the scratchpad lies and how operands are aligned in it. Its end is a sum that is not checked. -/
structure Scratchpad where
  base : Word
  capacity : Nat
  alignment : Nat
  alignment_pow : isPowerOfTwo alignment = true
  alignment_dvd_base : alignment ∣ base.toNat
  capacity_lt : capacity < Size.limit
  end_lt : Size.wrap (base.toNat + capacity) < addressLimit
deriving DecidableEq, Repr

namespace Scratchpad

/-- A scratchpad with operands at multiples of a power of two, on a base that is such a multiple too. -/
def make (base : Word) (capacity alignment : Nat) : Except Error Scratchpad :=
  if ha : isPowerOfTwo alignment = true then
    if hb : alignment ∣ base.toNat then
      if he : capacity < Size.limit ∧ Size.wrap (base.toNat + capacity) < addressLimit then
        .ok ⟨base, capacity, alignment, ha, hb, he.1, he.2⟩
      else .error (.addressOutOfRange base.toNat capacity)
    else .error (.misaligned "scratchpad base" base.toNat alignment)
  else .error (.invalidPlan (.badAlignment alignment))

/-- The TCDM of the chip as a scratchpad. -/
def tcdm : Scratchpad :=
  ⟨Chip.tcdmBase, Chip.tcdmSize, Chip.defaultAlignment, by decide, by decide, by decide, by decide⟩

/-- The packing of operands from an offset on: their regions, and the offset after the last. -/
def pack? (s : Scratchpad) (cursor : Nat) : List Operand → Option (List (String × Region) × Nat)
  | [] => some ([], cursor)
  | op :: rest => do
    let offset ← Size.alignUp? cursor s.alignment
    let stop ← Size.add? offset op.bytes
    let (regions, last) ← s.pack? stop rest
    return ((op.name, ⟨s.base, offset, op.bytes⟩) :: regions, last)

/-- Places the operands, if they fit. -/
def allocate (s : Scratchpad) (operands : List Operand) : Except Error Layout :=
  match s.pack? 0 operands with
  | none => .error (.scratchpadOverflow Size.largest s.capacity)
  | some (regions, used) =>
    if used ≤ s.capacity then .ok ⟨regions, used, s.capacity⟩
    else .error (.scratchpadOverflow used s.capacity)

end Scratchpad

end TileOffload
