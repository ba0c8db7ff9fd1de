import TileOffload.Chip
import TileOffload.Error

/-! # Topology

A cluster has two units or more; one of them moves data, another drives the accelerator, and the rest
only keep step. -/

namespace TileOffload

/-- What a unit does in a pipeline. -/
inductive Role
  | dataMover
  | compute
  | idle
deriving DecidableEq, Repr

/-- The name of a role. -/
def Role.name : Role → String
  | dataMover => "data-mover"
  | compute => "compute"
  | idle => "idle"

/-- How many units there are, and which two of them have work. -/
structure Topology where
  units : Nat
  mover : Nat
  compute : Nat
  mover_lt : mover < units
  compute_lt : compute < units
  mover_ne_compute : mover ≠ compute
deriving DecidableEq, Repr

namespace Topology

/-- A topology with two different units for the two roles. -/
def make (units mover compute : Nat) : Except Error Topology :=
  if units < 2 then .error (.invalidTopology (.tooFewUnits units))
  else if h : mover < units ∧ compute < units then
    if hne : mover ≠ compute then .ok ⟨units, mover, compute, h.1, h.2, hne⟩
    else .error (.invalidTopology (.sharedUnit mover))
  else .error (.invalidTopology (.roleOutOfRange mover compute units))

/-- The topology of the SNAX cluster. -/
def snax : Topology :=
  ⟨Chip.cores, Chip.moverCore, Chip.acceleratorCore, by decide, by decide, by decide⟩

/-- The role of a unit; one outside the cluster is idle. -/
def roleOf (t : Topology) (unit : Nat) : Role :=
  if unit = t.mover then .dataMover
  else if unit = t.compute then .compute
  else .idle

end Topology

end TileOffload
