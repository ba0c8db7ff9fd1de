import TileOffload.Memory

/-! # Transfers

The data mover starts transfers and goes on; they are queued and take effect, in the order they were
started, when the queue is flushed. Both ends of a transfer are checked when it is started. -/

namespace TileOffload

/-- A copy of a range of bytes. -/
structure Transfer where
  dst : Word
  src : Word
  len : Nat
deriving DecidableEq, Repr

/-- The transfers that wait for the next flush, and how many were ever started. -/
structure TransferQueue where
  pending : List Transfer
  issued : Word
  /-- The first failure of a flush that nobody was told of. -/
  fault : Option Error
deriving DecidableEq, Repr

namespace TransferQueue

/-- Nothing started. -/
def empty : TransferQueue := ⟨[], 0, none⟩

/-- The refusal of a transfer one end of which is not mapped; the source is checked first. -/
def refusal? (m : Memory) (t : Transfer) : Option TransferFault :=
  if !m.contains t.src t.len then some (.unmapped .source t.src t.len)
  else if !m.contains t.dst t.len then some (.unmapped .destination t.dst t.len)
  else none

/-- Queues a transfer and gives its number. -/
def start (q : TransferQueue) (m : Memory) (t : Transfer) : Except Error (Word × TransferQueue) :=
  match refusal? m t with
  | some fault => .error (.transferFailed fault)
  | none => .ok (q.issued, { q with pending := q.pending ++ [t], issued := q.issued + 1 })

/-- Performs transfers in order until one fails. -/
def perform (m : Memory) : List Transfer → Outcome Unit × Memory
  | [] => (.done (), m)
  | t :: rest =>
    match m.copyUnchecked t.dst t.src t.len with
    | .done m => perform m rest
    | .failed e => (.failed e, m)
    | .panicked => (.panicked, m)

/-- Performs all that is pending and tells how many transfers that was. The queue is empty afterwards,
    also if a transfer fails and those after it are dropped. -/
def flush (q : TransferQueue) (m : Memory) : Outcome Nat × TransferQueue × Memory :=
  let (outcome, m) := perform m q.pending
  (outcome.map fun _ => q.pending.length, { q with pending := [] }, m)

/-- Keeps a failure unless there is one already. -/
def recordFault (q : TransferQueue) (e : Error) : TransferQueue :=
  { q with fault := q.fault.or (some e) }

/-- Flushes where nobody listens: a failure is kept. -/
def settle (q : TransferQueue) (m : Memory) : Outcome Unit × TransferQueue × Memory :=
  match q.flush m with
  | (.done _, q, m) => (.done (), q, m)
  | (.failed e, q, m) => (.done (), q.recordFault e, m)
  | (.panicked, q, m) => (.panicked, q, m)

/-- Hands over the failure that was kept. -/
def takeFault (q : TransferQueue) : Option Error × TransferQueue :=
  (q.fault, { q with fault := none })

end TransferQueue

end TileOffload
