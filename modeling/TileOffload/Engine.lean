import TileOffload.Device
import TileOffload.Kernel

/-! # Compute engines

A device with the kernel it works for. One tile is one launch: describe, start, wait. -/

namespace TileOffload

/-- A kernel, and how to wait for its device. -/
structure Engine where
  kernel : Kernel
  wait : WaitPolicy
  /-- The stopwatch of the wait for each tile. -/
  clock : Nat → Stopwatch

namespace Engine

/-- An engine for a device that the kernel drives. -/
def make (device : RegisterMap) (kernel : Kernel) (wait : WaitPolicy) (clock : Nat → Stopwatch) :
    Except Error Engine :=
  if device = kernel.map then .ok ⟨kernel, wait, clock⟩
  else .error (.invalidPlan (.kernelMismatch kernel.name kernel.map.name device.name))

/-- Computes one tile; the answer is the number of polls, if it takes no more than `patience`. -/
def runTile {σ : Type} (e : Engine) (bus : Bus σ) (patience : Nat) (tile : Tile) (d : Device σ) :
    Option (Outcome Nat × Device σ) :=
  match e.kernel.describe tile with
  | .panicked => some (.panicked, d)
  | .failed err => some (.failed err, d)
  | .done desc =>
    match d.start bus desc with
    | (.error err, d) => some (.failed err, d)
    | (.ok _, d) => (d.wait bus e.wait (e.clock tile.index) patience).map fun r => (.ofExcept r.1, r.2)

end Engine

end TileOffload
