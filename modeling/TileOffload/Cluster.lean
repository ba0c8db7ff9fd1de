import TileOffload.Verification
import TileOffload.World

/-! # Clusters

A simulated cluster of units, and its runs. A run places a dataset in backing storage, lets the units work
through the plan side by side, and reads and verifies the output. The token of a run is made below the
cluster's, so that a run that fails stops its own units and nobody else. -/

namespace TileOffload

/-- A cluster: its topology and scratchpad, and how its accelerator answers. -/
structure Cluster where
  topology : Topology
  scratchpad : Scratchpad
  /-- Busy polls after each start. -/
  latency : Nat
  /-- Whether a start never completes. -/
  stuck : Bool
  /-- The stopwatch of the wait for each tile. -/
  clock : Nat → Stopwatch

/-- A run that has been set up. -/
structure Run where
  topology : Topology
  engine : Engine
  dataset : Dataset
  pipeline : Pipeline World

/-- What a run reports when every unit has come through. -/
structure RunReport where
  kernel : String
  tiles : Nat
  iterations : Nat
  depth : BufferDepth
  output : List Word
  verification : Verification
  launches : Nat
  transfers : Word
  units : List UnitReport
deriving DecidableEq, Repr

namespace RunReport

/-- The first unit of a role. -/
def unitWith? (r : RunReport) (role : Role) : Option UnitReport := r.units.find? (·.role == role)

/-- The polls of all units. -/
def polls (r : RunReport) : Nat := r.units.foldr (fun u n => u.polls + n) 0

end RunReport

namespace Run

/-- The hardware of the run's units. -/
def hardware (r : Run) : Hardware World := World.hardware r.topology r.engine

/-- The first failure that is a cause, or else the first that only says that a unit was stopped. -/
def failure? (results : List (Except Error UnitReport)) : Option Error :=
  let errors := results.filterMap fun
    | .ok _ => none
    | .error e => some e
  (errors.find? (!·.isCancelled)).or errors.head?

/-- The reports of the units that came through. -/
def reports (results : List (Except Error UnitReport)) : List UnitReport :=
  results.filterMap fun
    | .ok report => some report
    | .error _ => none

/-- The result of a run whose units are all through: a failure of a unit, a failure of a transfer that
    nobody was told of, or else the output and what the units did. -/
def result (r : Run) : Except Error RunReport := do
  let s := r.pipeline
  if let some e := failure? s.results then throw e
  if let some e := s.world.queue.fault then throw e
  let output ← s.world.memory.readWords s.plan.backing.o r.dataset.length
  return {
    kernel := r.engine.kernel.name
    tiles := s.plan.tiles
    iterations := s.plan.iterations
    depth := s.plan.depth
    output
    verification := .check output r.dataset r.engine.kernel
    launches := s.world.device.launches
    transfers := s.world.queue.issued
    units := reports s.results }

end Run

namespace Cluster

/-- Busy polls of an accelerator when nothing else is said. -/
def defaultLatency : Nat := 4

/-- A cluster whose accelerator answers after the default latency. -/
def make (topology : Topology) (scratchpad : Scratchpad) : Cluster :=
  ⟨topology, scratchpad, defaultLatency, false, fun _ => .still⟩

/-- Where three vectors of a length are placed in backing storage, and the bytes they take. -/
def backingFor (length : Nat) : Except Error (Backing × Nat) :=
  match (Size.mul? length Chip.elementBytes).bind (Size.alignUp? · Chip.defaultAlignment) with
  | none => .error (.invalidPlan (.datasetTooLong length))
  | some bytes =>
    let total := min (3 * bytes) Size.largest
    if Chip.backingLimit < total then .error (.addressOutOfRange Chip.backingBase.toNat total)
    else
      let stride := UInt32.ofNat bytes
      .ok (⟨Chip.backingBase, Chip.backingBase + stride, Chip.backingBase + 2 * stride⟩, total)

/-- Sets up a run that a token below `token` stops. -/
def prepare (c : Cluster) (dataset : Dataset) (kernel : Kernel) (config : PipelineConfig) (token : CancelToken)
    (flags : CancelFlags) : Except Error Run := do
  let (backing, bytes) ← backingFor dataset.length
  let plan ← TilePlan.make dataset.length config c.scratchpad backing
  let some personality := Personality.ofMap? kernel.map | throw (.invalidPlan (.noModel kernel.map.name))
  let memory ← Memory.snax bytes
  let memory ← memory.writeWords backing.a dataset.a
  let memory ← memory.writeWords backing.b dataset.b
  let engine ← Engine.make kernel.map kernel config.wait c.clock
  let device := Device.attach kernel.map (Accelerator.fresh personality c.latency c.stuck)
  let (token, flags) := flags.child token
  let world : World := ⟨memory, .empty, none, device, .idle⟩
  let hardware := World.hardware c.topology engine
  return {
    topology := c.topology
    engine
    dataset
    pipeline := .create plan c.topology (List.range c.topology.units) hardware token flags world }

/-- Runs a dataset through the cluster, one unit after another in every iteration, and tells which tokens
    are raised then. There is no answer if that takes more than `patience` moves. -/
def run (c : Cluster) (patience : Nat) (dataset : Dataset) (kernel : Kernel) (config : PipelineConfig)
    (token : CancelToken) (flags : CancelFlags) : Option (Except Error RunReport × CancelFlags) :=
  match c.prepare dataset kernel config token flags with
  | .error e => some (.error e, flags)
  | .ok r => (r.pipeline.drive r.hardware patience 0).map fun s => ({ r with pipeline := s }.result, s.flags)

end Cluster

end TileOffload
