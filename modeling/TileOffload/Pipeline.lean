import TileOffload.Cancel
import TileOffload.Worker

/-! # Pipelines

Units at work side by side. A move lets one unit take one step, or lets someone outside raise a token;
any unit that can take a step may be the next to do so. A step is one look at the token, one raising of
it, one part of what the hardware does for the unit, or the passage of a barrier, which a unit may pass
once all units have come to it.

What the hardware does is open: it has a state that all units share, and it answers a unit's request at
once or after any number of parts, with success, an error or a panic. -/

namespace TileOffload

/-- What the units of a pipeline work with, over a shared state. A request is repeated until it is
    answered. -/
structure Hardware (σ : Type) where
  hasTransfers : Nat → Bool
  hasDevice : Nat → Bool
  /-- Starts a transfer for a unit. -/
  transfer : Nat → Transfer → σ → Option (Outcome Unit) × σ
  /-- Computes a tile for a unit; success tells the polls it took. -/
  compute : Nat → Tile → σ → Option (Outcome Nat) × σ
  /-- Does what a unit has to do before a barrier, and tells when that is done. -/
  settle : Nat → σ → Bool × σ

/-- One part of a job. -/
def Hardware.attempt {σ : Type} (hardware : Hardware σ) (unit : Nat) : Job → σ → Option (Outcome Nat) × σ
  | .refuse e, world => (some (.failed e), world)
  | .compute tile, world => hardware.compute unit tile world
  | .transfer t, world =>
    match hardware.transfer unit t world with
    | (none, world) => (none, world)
    | (some (.done _), world) => (some (.done 0), world)
    | (some (.failed e), world) => (some (.failed e), world)
    | (some .panicked, world) => (some .panicked, world)

/-- Units at work on a plan, the token that stops them, and the state of the hardware. -/
structure Pipeline (σ : Type) where
  plan : TilePlan
  token : CancelToken
  flags : CancelFlags
  workers : List Worker
  world : σ

/-- What may happen next: the unit at a position takes a step, or a token is raised from outside. -/
inductive Move
  | step (position : Nat)
  | raise (token : CancelToken)
deriving DecidableEq, Repr

namespace Pipeline

variable {σ : Type}

/-- The given units of a topology before their first iteration. Where there is none, a unit without what its role needs
    has raised the token by then. -/
def create (plan : TilePlan) (topology : Topology) (units : List Nat) (hardware : Hardware σ) (token : CancelToken)
    (flags : CancelFlags) (world : σ) : Pipeline σ :=
  let workers := units.map fun u =>
    (Worker.create u (topology.roleOf u) (hardware.hasTransfers u) (hardware.hasDevice u)).entered plan
  { plan, token, workers, world
    flags := if workers.any fun w => w.phase == .finished && w.failure.isSome then flags.raise token else flags }

/-- The pipeline with another state of one worker and of the hardware. -/
def put (s : Pipeline σ) (position : Nat) (w : Worker) (world : σ) : Pipeline σ :=
  { s with workers := s.workers.set position w, world }

/-- One step of a worker; a worker that waits for others, or is through, has none. -/
def stepWorker (s : Pipeline σ) (hardware : Hardware σ) (position : Nat) (w : Worker) : Option (Pipeline σ) :=
  match w.phase with
  | .checking => some (s.put position (w.checked s.plan (s.flags.isCancelled s.token)) s.world)
  | .working task rest =>
    match hardware.attempt w.report.unit task.job s.world with
    | (none, world) => some { s with world }
    | (some outcome, world) => some (s.put position (w.ended task rest outcome) world)
  | .raising =>
    some ({ s with flags := s.flags.raise s.token }.put position { w with phase := .settling } s.world)
  | .settling =>
    match hardware.settle w.report.unit s.world with
    | (false, world) => some { s with world }
    | (true, world) => some (s.put position { w with phase := .waiting } world)
  | .waiting =>
    if s.workers.all (·.hasArrived w.iteration) then some (s.put position (w.passed s.plan) s.world) else none
  | .finished => none

/-- One step of the unit at a position, if it can take one. -/
def step? (s : Pipeline σ) (hardware : Hardware σ) (position : Nat) : Option (Pipeline σ) :=
  s.workers[position]?.bind (s.stepWorker hardware position)

/-- The pipeline after a move, if the move is possible. -/
def move? (s : Pipeline σ) (hardware : Hardware σ) : Move → Option (Pipeline σ)
  | .step position => s.step? hardware position
  | .raise token => some { s with flags := s.flags.raise token }

/-- The pipeline after moves one after another, if each is possible. -/
def follow? (hardware : Hardware σ) : List Move → Pipeline σ → Option (Pipeline σ)
  | [], s => some s
  | m :: moves, s => (s.move? hardware m).bind (follow? hardware moves)

/-- Whether every unit is through. -/
def isFinished (s : Pipeline σ) : Bool := s.workers.all (·.isFinished)

/-- What the units report, in order. -/
def results (s : Pipeline σ) : List (Except Error UnitReport) := s.workers.map (·.result)

/-- Who goes on after a step of the unit at a position: the same unit, or the next one if it now waits at the barrier. -/
def turn (s : Pipeline σ) (position : Nat) : Nat :=
  if s.workers[position]?.any (·.phase == .waiting) then position + 1 else position

/-- Lets each unit go on until it has come to the barrier, one after another and over again, from the unit at a
    position on, until all are through. There is no answer if that takes more than `patience` moves. -/
def drive (hardware : Hardware σ) : (patience position : Nat) → Pipeline σ → Option (Pipeline σ)
  | 0, _, _ => none
  | patience + 1, position, s =>
    if position < s.workers.length then
      match s.step? hardware position with
      | some s => drive hardware patience (s.turn position) s
      | none => drive hardware patience (position + 1) s
    else if s.isFinished then some s
    else drive hardware patience 0 s

end Pipeline

end TileOffload
