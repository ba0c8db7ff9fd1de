import TileOffload.Descriptor
import TileOffload.WaitPolicy

/-! # Devices

A device behind a register bus goes through four states: idle, configured, running, done. Each call is
allowed in one state only; a call that fails leaves the state as it was. While the device runs nothing but
its status register is read, and a launch counts once its status has said that it is done. -/

namespace TileOffload

/-- A device with the state `σ` of what is behind its bus. -/
structure Device (σ : Type) where
  map : RegisterMap
  state : DeviceState
  launches : Nat
  target : σ
deriving DecidableEq

namespace Device

variable {σ : Type}

/-- A device that has not been used. -/
def attach (map : RegisterMap) (target : σ) : Device σ := ⟨map, .idle, 0, target⟩

/-- The call is allowed in the device's state. -/
def expect (d : Device σ) (state : DeviceState) (call : DeviceCall) : Except Error Unit :=
  if d.state = state then .ok ()
  else .error (.deviceFault (.outOfOrder d.map.name call d.state))

/-- The descriptor may be written to the device: it is idle, and started by the same register. -/
def checkDescriptor (d : Device σ) (desc : Descriptor) : Except Error Unit := do
  d.expect .idle .configure
  if desc.start.register ≠ d.map.start then
    throw (.invalidDescriptor (.startMismatch desc.start.register d.map.name d.map.start))

/-- The device may be polled, or (`done`) need not be. -/
def checkPoll (d : Device σ) : Except Error Completion :=
  match d.state with
  | .running => .ok .busy
  | .done => .ok .done
  | other => .error (.deviceFault (.pollWhile d.map.name other))

/-- The device after a status was read, and what the status says. -/
def observe (d : Device σ) (status : Word) : Except Error Completion × Device σ :=
  match d.map.verdict status with
  | .error e => (.error e, d)
  | .ok .busy => (.ok .busy, d)
  | .ok .done => (.ok .done, { d with state := .done, launches := d.launches + 1 })

/-- Writes registers in order until a write is refused. -/
def writeAll (bus : Bus σ) : List RegisterWrite → σ → Except Error Unit × σ
  | [], s => (.ok (), s)
  | w :: rest, s =>
    match bus.write w.register w.value s with
    | (.ok _, s) => writeAll bus rest s
    | (.error e, s) => (.error e, s)

/-- Writes the configuration of a descriptor. -/
def configure (bus : Bus σ) (desc : Descriptor) (d : Device σ) : Except Error Unit × Device σ :=
  match d.checkDescriptor desc with
  | .error e => (.error e, d)
  | .ok _ =>
    match writeAll bus desc.config d.target with
    | (.error e, s) => (.error e, { d with target := s })
    | (.ok _, s) => (.ok (), { d with target := s, state := .configured })

/-- Writes the start register. -/
def launch (bus : Bus σ) (d : Device σ) : Except Error Unit × Device σ :=
  match d.expect .configured .launch with
  | .error e => (.error e, d)
  | .ok _ =>
    match bus.write d.map.start d.map.startValue d.target with
    | (.error e, s) => (.error e, { d with target := s })
    | (.ok _, s) => (.ok (), { d with target := s, state := .running })

/-- Configures and launches. -/
def start (bus : Bus σ) (desc : Descriptor) (d : Device σ) : Except Error Unit × Device σ :=
  match d.configure bus desc with
  | (.error e, d) => (.error e, d)
  | (.ok _, d) => d.launch bus

/-- Reads the status of a running device. -/
def poll (bus : Bus σ) (d : Device σ) : Except Error Completion × Device σ :=
  match d.checkPoll with
  | .error e => (.error e, d)
  | .ok .done => (.ok .done, d)
  | .ok .busy =>
    match bus.read d.map.status d.target with
    | (.error e, s) => (.error e, { d with target := s })
    | (.ok status, s) => { d with target := s }.observe status

/-- Acknowledges completion, through the clear register if the device has one. -/
def clear (bus : Bus σ) (d : Device σ) : Except Error Unit × Device σ :=
  match d.expect .done .clear with
  | .error e => (.error e, d)
  | .ok _ =>
    match d.map.clear with
    | none => (.ok (), { d with state := .idle })
    | some register =>
      match bus.write register 0 d.target with
      | (.error e, s) => (.error e, { d with target := s })
      | (.ok _, s) => (.ok (), { d with target := s, state := .idle })

/-- Polls until the device is done, fails, or the policy gives up, and counts the polls, `polls` of which
    were made before. There is no answer if all this takes more than `patience` polls. -/
def pollUntil (bus : Bus σ) (policy : WaitPolicy) (clock : Stopwatch) :
    (patience polls : Nat) → Device σ → Option (Except Error Nat × Device σ)
  | 0, _, _ => none
  | patience + 1, polls, d =>
    match d.poll bus with
    | (.error e, d) => some (.error e, d)
    | (.ok .done, d) => some (.ok (polls + 1), d)
    | (.ok .busy, d) =>
      if policy.givesUp (polls + 1) (clock (polls + 1)) then
        some (.error (.timeout (polls + 1) (clock (polls + 1))), d)
      else pollUntil bus policy clock patience (polls + 1) d

/-- Waits for completion and acknowledges it; the answer is the number of polls. -/
def wait (bus : Bus σ) (policy : WaitPolicy) (clock : Stopwatch) (patience : Nat) (d : Device σ) :
    Option (Except Error Nat × Device σ) :=
  match pollUntil bus policy clock patience 0 d with
  | none => none
  | some (.error e, d) => some (.error e, d)
  | some (.ok polls, d) =>
    match d.clear bus with
    | (.error e, d) => some (.error e, d)
    | (.ok _, d) => some (.ok polls, d)

end Device

end TileOffload
