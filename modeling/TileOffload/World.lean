import TileOffload.Accelerator
import TileOffload.Engine
import TileOffload.Pipeline

/-! # What the units of a cluster share

One memory with scratchpad and backing storage, a transfer queue for the data mover, and an accelerator
for the compute unit. Everything is done in small parts. Before a barrier the data mover takes what is
pending and lands it, transfer by transfer. The compute unit makes one access to a register at a time; the
write to the start register is spread over the accelerator's own accesses to memory, so that transfers may
land between them. -/

namespace TileOffload

/-- Where the compute unit is in the work for a tile. -/
inductive EnginePhase
  | idle
  | configuring (rest : List RegisterWrite)
  | launching
  | fetchingA (pass : Pass)
  | fetchingB (pass : Pass) (xs : List Word)
  | storing (pass : Pass) (results : List Word)
  | polling (polls : Nat)
  | clearing (polls : Nat)

/-- What the units of a cluster share. -/
structure World where
  memory : Memory
  queue : TransferQueue
  /-- The transfers that the data mover is landing. -/
  landing : Option (List Transfer)
  device : Device Accelerator
  phase : EnginePhase

namespace World

/-- Starts a transfer. -/
def transfer (w : World) (t : Transfer) : Option (Outcome Unit) × World :=
  match w.queue.start w.memory t with
  | .ok (_, queue) => (some (.done ()), { w with queue })
  | .error e => (some (.failed e), w)

/-- One part of the landing of what is pending: taking it from the queue, landing one transfer, or seeing
    that all have landed. What the tiles of a plan take up ends far below 64 bits, so the plain copy is what
    a flush does. -/
def land (w : World) : Bool × World :=
  match w.landing with
  | none => (false, { w with landing := some w.queue.pending, queue.pending := [] })
  | some [] => (true, { w with landing := none })
  | some (t :: rest) =>
    match w.memory.copy t.dst t.src t.len with
    | .ok memory => (false, { w with memory, landing := some rest })
    | .error e => (true, { w with landing := none, queue := w.queue.recordFault e })

/-- The work for a tile ends with an error. -/
def abandon (w : World) (e : Error) : Option (Outcome Nat) × World :=
  (some (.failed e), { w with phase := .idle })

/-- The work for a tile goes on. -/
def goOn (w : World) (phase : EnginePhase) : Option (Outcome Nat) × World :=
  (none, { w with phase })

/-- The device is configured and may be launched. -/
def configured (w : World) : Option (Outcome Nat) × World :=
  { w with device.state := .configured }.goOn .launching

/-- The tile is computed and the device idle again. -/
def completed (w : World) (polls : Nat) : Option (Outcome Nat) × World :=
  (some (.done polls), { w with phase := .idle, device.state := .idle })

/-- One part of the work for a tile. -/
def compute (w : World) (engine : Engine) (tile : Tile) : Option (Outcome Nat) × World :=
  match w.phase with
  | .idle =>
    match engine.kernel.describe tile with
    | .panicked => (some .panicked, w)
    | .failed e => w.abandon e
    | .done desc =>
      match w.device.checkDescriptor desc with
      | .error e => w.abandon e
      | .ok _ => w.goOn (.configuring desc.config)
  | .configuring [] => w.configured
  | .configuring (r :: rest) =>
    match w.device.target.write w.memory r.register r.value with
    | .error e => w.abandon e
    | .ok (target, memory) => { w with memory, device.target := target }.goOn (.configuring rest)
  | .launching =>
    match w.device.target.begin with
    | .error e => w.abandon e
    | .ok pass => w.goOn (.fetchingA pass)
  | .fetchingA pass =>
    match w.memory.readWords pass.a pass.len with
    | .error e => w.abandon e
    | .ok xs => w.goOn (.fetchingB pass xs)
  | .fetchingB pass xs =>
    match w.memory.readWords pass.b pass.len with
    | .error e => w.abandon e
    | .ok ys => w.goOn (.storing pass (List.zipWith pass.apply xs ys))
  | .storing pass results =>
    match w.memory.writeWords pass.o results with
    | .error e => w.abandon e
    | .ok memory =>
      { w with memory, device.target := w.device.target.started pass.len, device.state := .running }.goOn (.polling 0)
  | .polling polls =>
    let (status, target) := w.device.target.read w.device.map.status
    match { w.device with target }.observe status with
    | (.error e, device) => { w with device }.abandon e
    | (.ok .done, device) => { w with device }.goOn (.clearing (polls + 1))
    | (.ok .busy, device) =>
      let elapsed := engine.clock tile.index (polls + 1)
      if engine.wait.givesUp (polls + 1) elapsed then { w with device }.abandon (.timeout (polls + 1) elapsed)
      else { w with device }.goOn (.polling (polls + 1))
  | .clearing polls =>
    match w.device.map.clear with
    | none => w.completed polls
    | some register =>
      match w.device.target.write w.memory register 0 with
      | .error e => w.abandon e
      | .ok (target, memory) => { w with memory, device.target := target }.completed polls

end World

/-- The hardware of the units of a cluster: the data mover has the transfer queue, the compute unit the
    engine. -/
def World.hardware (topology : Topology) (engine : Engine) : Hardware World where
  hasTransfers u := u == topology.mover
  hasDevice u := u == topology.compute
  transfer _ t w := w.transfer t
  compute _ tile w := w.compute engine tile
  settle u w := if u = topology.mover then w.land else (true, w)

end TileOffload
