import TileOffload.Scratchpad
import TileOffload.WaitPolicy

/-! # Tile plans

A dataset is cut into tiles of equal length. In iteration `i` of the pipeline tile `i` is loaded, tile
`i - 1` computed and tile `i - 2` stored. Every operand has a region of the scratchpad with one slot or
more, and tiles take the slots in turn. A plan is accepted only if these slots exist and no load can
overwrite a slot that is still in use. -/

namespace TileOffload

/-- How many slots each operand gets. -/
inductive BufferDepth
  | single
  | double
  | resident
deriving DecidableEq, Repr

namespace BufferDepth

/-- The name of a depth. -/
def name : BufferDepth → String
  | single => "single"
  | double => "double"
  | resident => "resident"

/-- The slots that a number of tiles uses. -/
def slots : BufferDepth → Nat → Nat
  | single, _ => 1
  | double, tiles => min tiles 2
  | resident, tiles => tiles

end BufferDepth

/-- How to cut a dataset, and how to wait for the device. -/
structure PipelineConfig where
  tileLength : Nat
  depth : BufferDepth
  wait : WaitPolicy
deriving DecidableEq, Repr

namespace PipelineConfig

/-- Tiles of a length, double buffered. -/
def tiled (tileLength : Nat) : PipelineConfig := ⟨tileLength, .double, .standard⟩

/-- The whole dataset as one tile. -/
def untiled (length : Nat) : PipelineConfig := ⟨length, .resident, .standard⟩

end PipelineConfig

/-- Where the three vectors begin in backing storage. -/
structure Backing where
  a : Word
  b : Word
  o : Word
deriving DecidableEq, Repr

/-- A stage of the pipeline. -/
inductive Stage
  | load
  | compute
  | store
deriving DecidableEq, Repr

/-- The name of a stage. -/
def Stage.name : Stage → String
  | load => "load"
  | compute => "compute"
  | store => "store"

/-- The tile that each stage has in an iteration. -/
structure Stages where
  load : Option Nat
  compute : Option Nat
  store : Option Nat
deriving DecidableEq, Repr

/-- The stages of iteration `i` with so many tiles: each stage is one iteration behind the one before. -/
def Stages.at (i tiles : Nat) : Stages where
  load := if i < tiles then some i else none
  compute := if 0 < i ∧ i ≤ tiles then some (i - 1) else none
  store := if 1 < i ∧ i < Size.wrap (tiles + 2) then some (i - 2) else none

/-- Where the operands of one tile are, in the scratchpad or in backing storage. -/
structure Tile where
  index : Nat
  a : Word
  b : Word
  o : Word
  elements : Nat
  elementBytes : Nat
deriving DecidableEq, Repr

/-- The bytes of each operand of the tile. -/
def Tile.bytes (t : Tile) : Nat := t.elements * t.elementBytes

/-- An accepted cut of a dataset with its places in both memories. -/
structure TilePlan where
  length : Nat
  tileLength : Nat
  tiles : Nat
  depth : BufferDepth
  slots : Nat
  layout : Layout
  a : Region
  b : Region
  o : Region
  backing : Backing
deriving DecidableEq, Repr

namespace TilePlan

/-- The region of an operand that has been placed. -/
def placed (layout : Layout) (name : String) : Except Error Region :=
  match layout.get? name with
  | some r => .ok r
  | none => .error (.invalidPlan (.notPlaced name))

/-- Every vector of backing storage begins at a whole element. -/
def checkAligned (name : String) (addr : Word) : Except Error Unit :=
  if Chip.elementBytes ∣ addr.toNat then .ok ()
  else .error (.misaligned s!"backing buffer {name}" addr.toNat Chip.elementBytes)

/-- A size that the plan needs; without it the plan has a fault. -/
def needed (size : Option Nat) (fault : PlanFault) : Except Error Nat :=
  match size with
  | some n => .ok n
  | none => .error (.invalidPlan fault)

/-- The plan of a dataset of the given length. The first check that fails decides the error. -/
def make (length : Nat) (config : PipelineConfig) (scratchpad : Scratchpad) (backing : Backing) :
    Except Error TilePlan := do
  let tile := config.tileLength
  if length = 0 ∨ tile = 0 then throw (.invalidPlan (.zeroLength length tile))
  if length % tile ≠ 0 then throw (.invalidPlan (.indivisible tile length))
  let tiles := length / tile
  if config.depth = .single ∧ 1 < tiles then throw (.bufferHazard (.singleBuffer tiles))
  let tileBytes ← needed (Size.mul? tile Chip.elementBytes) (.tileTooLong tile)
  checkAligned "a" backing.a
  checkAligned "b" backing.b
  checkAligned "o" backing.o
  let slots := config.depth.slots tiles
  let bytes ← needed (Size.mul? slots tileBytes) (.slotsTooLarge slots tileBytes)
  let layout ← scratchpad.allocate [⟨"a", bytes⟩, ⟨"b", bytes⟩, ⟨"o", bytes⟩]
  let a ← placed layout "a"
  let b ← placed layout "b"
  let o ← placed layout "o"
  return { length, tileLength := tile, tiles, depth := config.depth, slots, layout, a, b, o, backing }

/-- Bytes of an operand of one tile. -/
def tileBytes (p : TilePlan) : Nat := p.tileLength * Chip.elementBytes

/-- A tile leaves the pipeline two iterations after it entered. The sum is not checked. -/
def iterations (p : TilePlan) : Nat := Size.wrap (p.tiles + Chip.pipelineStages - 1)

/-- The stages of an iteration. -/
def stages (p : TilePlan) (i : Nat) : Stages := Stages.at i p.tiles

/-- A tile of the plan. -/
def checkTile (p : TilePlan) (tile : Nat) : Except Error Unit :=
  if tile < p.tiles then .ok () else .error (.invalidPlan (.noSuchTile tile p.tiles))

/-- The slots of a tile in the scratchpad. -/
def scratchpadTile (p : TilePlan) (tile : Nat) : Except Error Tile := do
  p.checkTile tile
  let slot := tile % p.slots
  let a ← p.a.slotAddr slot p.tileBytes
  let b ← p.b.slotAddr slot p.tileBytes
  let o ← p.o.slotAddr slot p.tileBytes
  return ⟨tile, a, b, o, p.tileLength, Chip.elementBytes⟩

/-- The address `offset` bytes into a vector of backing storage. -/
def backingAddr (p : TilePlan) (base : Word) (offset : Nat) : Except Error Word :=
  match Word.ofSize? (base.toNat + offset) with
  | some addr => .ok addr
  | none => .error (.addressOutOfRange (base.toNat + offset) p.tileBytes)

/-- The place of a tile in backing storage. -/
def backingTile (p : TilePlan) (tile : Nat) : Except Error Tile := do
  p.checkTile tile
  let offset := tile * p.tileBytes
  if addressLimit ≤ offset then
    throw (.addressOutOfRange p.backing.a.toNat (p.length * Chip.elementBytes))
  let a ← p.backingAddr p.backing.a offset
  let b ← p.backingAddr p.backing.b offset
  let o ← p.backingAddr p.backing.o offset
  return ⟨tile, a, b, o, p.tileLength, Chip.elementBytes⟩

end TilePlan

end TileOffload
