import TileOffload.Plan
import TileOffload.Topology
import TileOffload.Transfer

/-! # Workers

What one unit does in a pipeline. In every iteration it looks at the run's token, has the hardware do the
tasks that its role has in this iteration, and meets the other units at a barrier. A unit that fails, or
sees the token raised, does no more work, but it comes to every barrier up to the last iteration's: nobody
may wait for it in vain. -/

namespace TileOffload

/-- What a unit has the hardware do. -/
inductive Job
  | transfer (t : Transfer)
  | compute (tile : Tile)
  /-- Nothing: the plan has no place for the tile. -/
  | refuse (error : Error)
deriving DecidableEq, Repr

/-- A job, and the stage of a tile that is through once the job has succeeded. -/
structure Task where
  job : Job
  completes : Option (Stage × Nat)
deriving DecidableEq, Repr

namespace TilePlan

/-- Both operands of a tile, from backing storage into the scratchpad. -/
def loadTasks (p : TilePlan) (tile : Nat) : List Task :=
  match p.scratchpadTile tile, p.backingTile tile with
  | .ok dst, .ok src =>
    [⟨.transfer ⟨dst.a, src.a, dst.bytes⟩, none⟩, ⟨.transfer ⟨dst.b, src.b, dst.bytes⟩, some (.load, tile)⟩]
  | .error e, _ => [⟨.refuse e, none⟩]
  | .ok _, .error e => [⟨.refuse e, none⟩]

/-- The results of a tile, from the scratchpad into backing storage. -/
def storeTasks (p : TilePlan) (tile : Nat) : List Task :=
  match p.scratchpadTile tile, p.backingTile tile with
  | .ok src, .ok dst => [⟨.transfer ⟨dst.o, src.o, src.bytes⟩, some (.store, tile)⟩]
  | .error e, _ => [⟨.refuse e, none⟩]
  | .ok _, .error e => [⟨.refuse e, none⟩]

/-- One launch of the device. -/
def computeTasks (p : TilePlan) (tile : Nat) : List Task :=
  match p.scratchpadTile tile with
  | .ok t => [⟨.compute t, some (.compute, tile)⟩]
  | .error e => [⟨.refuse e, none⟩]

/-- The tasks of a role in an iteration, in order. -/
def tasks (p : TilePlan) (role : Role) (i : Nat) : List Task :=
  let s := p.stages i
  match role with
  | .dataMover => s.load.elim [] p.loadTasks ++ s.store.elim [] p.storeTasks
  | .compute => s.compute.elim [] p.computeTasks
  | .idle => []

end TilePlan

/-- A stage of a tile, and the iteration in which a unit did it. -/
structure StageEvent where
  iteration : Nat
  stage : Stage
  tile : Nat
deriving DecidableEq, Repr

/-- What a unit has done. -/
structure UnitReport where
  unit : Nat
  role : Role
  events : Array StageEvent
  /-- The barriers it has passed. -/
  barriers : Nat
  /-- Polls of all its launches. -/
  polls : Nat
deriving DecidableEq, Repr

/-- Where a unit is in an iteration. -/
inductive Phase
  /-- About to look at the token. -/
  | checking
  /-- In the middle of a task. -/
  | working (task : Task) (rest : List Task)
  /-- Failed, and about to raise the token. -/
  | raising
  /-- Doing what has to be done before the barrier. -/
  | settling
  /-- Waiting at the barrier. -/
  | waiting
  /-- Through with all iterations. -/
  | finished
deriving DecidableEq, Repr

/-- A unit at work. -/
structure Worker where
  iteration : Nat
  phase : Phase
  failure : Option Error
  report : UnitReport
deriving DecidableEq, Repr

namespace Worker

/-- The failure of a unit that does not have what its role needs. -/
def missing? (unit : Nat) (role : Role) (hasTransfers hasDevice : Bool) : Option Error :=
  match role with
  | .dataMover => if hasTransfers then none else some (.invalidPlan (.noTransferEngine unit))
  | .compute => if hasDevice then none else some (.invalidPlan (.noDevice unit))
  | .idle => none

/-- A unit before its first iteration; without what its role needs it has failed already. -/
def create (unit : Nat) (role : Role) (hasTransfers hasDevice : Bool) : Worker :=
  let failure := missing? unit role hasTransfers hasDevice
  { iteration := 0
    phase := if failure.isSome then .raising else .checking
    failure
    report := ⟨unit, role, #[], 0, 0⟩ }

/-- The unit when it comes to the first iteration of a plan: a plan that has none lets it through at once. -/
def entered (w : Worker) (plan : TilePlan) : Worker :=
  if plan.iterations = 0 then { w with phase := .finished } else w

/-- Goes on with the given tasks. -/
def proceed (w : Worker) : List Task → Worker
  | [] => { w with phase := .settling }
  | task :: rest => { w with phase := .working task rest }

/-- The unit after it has looked at the token. -/
def checked (w : Worker) (plan : TilePlan) (raised : Bool) : Worker :=
  if raised then { w with failure := some (.cancelled w.iteration), phase := .settling }
  else w.proceed (plan.tasks w.report.role w.iteration)

/-- The unit with a failure that the others do not know of yet. -/
def fail (w : Worker) (e : Error) : Worker :=
  { w with failure := some e, phase := .raising }

/-- The report with a stage of a tile done, which may have taken polls. -/
def record (w : Worker) (completes : Option (Stage × Nat)) (polls : Nat) : Worker :=
  match completes with
  | none => { w with report.polls := w.report.polls + polls }
  | some (stage, tile) =>
    { w with report.polls := w.report.polls + polls,
             report.events := w.report.events.push ⟨w.iteration, stage, tile⟩ }

/-- The unit after its task has ended. -/
def ended (w : Worker) (task : Task) (rest : List Task) : Outcome Nat → Worker
  | .done polls => (w.record task.completes polls).proceed rest
  | .failed e => w.fail e
  | .panicked => w.fail (.deviceFault (.panicked w.report.unit w.iteration))

/-- The unit after the barrier of its iteration. -/
def passed (w : Worker) (plan : TilePlan) : Worker :=
  { w with
    iteration := w.iteration + 1
    report.barriers := w.report.barriers + 1
    phase :=
      if plan.iterations ≤ w.iteration + 1 then .finished
      else if w.failure.isSome then .settling
      else .checking }

/-- Whether the unit has come to the barrier of an iteration. -/
def hasArrived (w : Worker) (i : Nat) : Bool :=
  i < w.iteration || (w.iteration == i && w.phase == .waiting)

/-- Whether the unit is through. -/
def isFinished (w : Worker) : Bool := w.phase == .finished

/-- What the unit reports in the end. -/
def result (w : Worker) : Except Error UnitReport :=
  match w.failure with
  | some e => .error e
  | none => .ok w.report

end Worker

end TileOffload
