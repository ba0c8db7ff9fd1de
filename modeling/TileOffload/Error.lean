import TileOffload.Numeral
import TileOffload.Size

/-! # Errors

Everything that can go wrong, as causes. An error has a kind, most kinds have a more precise cause, and
`Error.message` words them. A part outside this library (a kernel, a bus) words its own reason
(`other`). Errors of configuration are those that a different request would avoid. -/

namespace TileOffload

/-- Where a device is between two launches. -/
inductive DeviceState
  | idle
  | configured
  | running
  | done
deriving DecidableEq, Repr

namespace DeviceState

/-- The name of a state. -/
def name : DeviceState → String
  | idle => "Idle"
  | configured => "Configured"
  | running => "Running"
  | done => "Done"

end DeviceState

/-- What is wrong with a topology. -/
inductive TopologyFault
  | tooFewUnits (units : Nat)
  | roleOutOfRange (mover compute units : Nat)
  | sharedUnit (unit : Nat)
  | other (reason : String)
deriving DecidableEq, Repr

/-- What is wrong with a descriptor. -/
inductive DescriptorFault
  | empty (device : String)
  | controlRegister (device : String) (register : Word)
  | writtenTwice (device : String) (register : Word)
  | tooWide (what : String) (value : Nat)
  | startMismatch (found : Word) (device : String) (expected : Word)
  | other (reason : String)
deriving DecidableEq, Repr

/-- Which use of a buffer would race with another. -/
inductive HazardFault
  | singleBuffer (tiles : Nat)
  | other (reason : String)
deriving DecidableEq, Repr

/-- What is wrong with a plan or with what it is made from. -/
inductive PlanFault
  | zeroLength (length tile : Nat)
  | indivisible (tile length : Nat)
  | tileTooLong (tile : Nat)
  | slotsTooLarge (slots bytes : Nat)
  | notPlaced (operand : String)
  | noSuchTile (tile tiles : Nat)
  | badAlignment (alignment : Nat)
  | slotOutside (slot bytes region : Nat)
  | overlap (region other : String)
  | datasetTooLong (length : Nat)
  | unequalVectors (a b golden : Nat)
  | noModel (device : String)
  | kernelMismatch (kernel drives device : String)
  | noTransferEngine (unit : Nat)
  | noDevice (unit : Nat)
  | other (reason : String)
deriving DecidableEq, Repr

/-- A call of a device that its state does not allow. -/
inductive DeviceCall
  | configure
  | launch
  | clear
deriving DecidableEq, Repr

/-- Why a range of a file cannot be mapped: there are not so many free addresses, or the range ends beyond
    every position in a file. -/
inductive MapFault
  | noRoom
  | outOfRange
deriving DecidableEq, Repr

/-- How a device fails. -/
inductive DeviceFault
  | pollWhile (device : String) (state : DeviceState)
  | outOfOrder (device : String) (call : DeviceCall) (state : DeviceState)
  | errorStatus (device : String) (status : Word)
  | startWhileBusy (device : String)
  | readOnly (device : String) (register : Word)
  | unsupportedMode (mode : Word)
  | unsupportedIterations (count : Word)
  | unknownMode (mode : Word)
  | unsupportedStride (register value : Word)
  | unequalBounds (loop length : Word)
  | operandOutside (device : String) (addr : Word) (bytes : Nat)
  | panicked (unit iteration : Nat)
  | emptyWindow (path : String)
  | notMapped (path : String) (cause : MapFault)
  | other (reason : String)
deriving DecidableEq, Repr

/-- The two ends of a transfer. -/
inductive TransferEnd
  | source
  | destination
deriving DecidableEq, Repr

/-- How a transfer fails. -/
inductive TransferFault
  | unmapped (side : TransferEnd) (addr : Word) (bytes : Nat)
  | other (reason : String)
deriving DecidableEq, Repr

/-- Why a file cannot be opened. -/
inductive FileFault
  | notFound
  | notDirectory
  | isDirectory
  | nameTooLong
  | other (reason : String)
deriving DecidableEq, Repr

/-- What went wrong. -/
inductive Error
  | scratchpadOverflow (requested capacity : Nat)
  | misaligned (what : String) (value align : Nat)
  | invalidTopology (cause : TopologyFault)
  | invalidDescriptor (cause : DescriptorFault)
  | bufferHazard (cause : HazardFault)
  | invalidPlan (cause : PlanFault)
  | timeout (polls elapsed : Nat)
  | deviceFault (cause : DeviceFault)
  | addressOutOfRange (addr len : Nat)
  | transferFailed (cause : TransferFault)
  | cancelled (iteration : Nat)
  | io (cause : FileFault)
deriving DecidableEq, Repr

open Numeral

/-- The words for a fault of a topology. -/
def TopologyFault.reason : TopologyFault → String
  | tooFewUnits n => s!"need at least 2 units for a mover and a compute unit, got {n}"
  | roleOutOfRange m c n => s!"role index out of range: mover={m} compute={c} units={n}"
  | sharedUnit u => s!"unit {u} cannot be both data mover and compute unit"
  | other r => r

/-- The words for a fault of a descriptor. -/
def DescriptorFault.reason : DescriptorFault → String
  | empty d => s!"{d}: descriptor has no configuration writes"
  | controlRegister d r => s!"{d}: register {hex r.toNat} is a control register"
  | writtenTwice d r => s!"{d}: register {hex r.toNat} written twice"
  | tooWide what n => s!"{what} {n} exceeds 32 bits"
  | startMismatch f d e => s!"descriptor starts {hex f.toNat}, {d} starts at {hex e.toNat}"
  | other r => r

/-- The words for a hazard. -/
def HazardFault.reason : HazardFault → String
  | singleBuffer n =>
    s!"single buffering with {n} tiles: load of tile i overwrites the slot compute is reading for tile i-1"
  | other r => r

/-- The words for a fault of a plan. -/
def PlanFault.reason : PlanFault → String
  | zeroLength n t => s!"dataset length {n} and tile length {t} must be non-zero"
  | indivisible t n => s!"tile length {t} does not divide dataset length {n}"
  | tileTooLong t => s!"tile length {t} overflows"
  | slotsTooLarge n b => s!"{n} slots of {b} bytes overflow"
  | notPlaced o => s!"operand {o} not placed"
  | noSuchTile t n => s!"tile {t} out of range (plan has {n})"
  | badAlignment a => s!"alignment {a} is not a power of two"
  | slotOutside i b n => s!"slot {i} of {b} bytes outside {n}-byte region"
  | overlap r o => s!"memory region {r} overlaps {o}"
  | datasetTooLong n => s!"dataset of {n} elements overflows"
  | unequalVectors a b g => s!"dataset vectors differ in length: a={a} b={b} golden={g}"
  | noModel d => s!"no software model for {d}"
  | kernelMismatch k m d => s!"kernel {k} drives {m}, device is {d}"
  | noTransferEngine u => s!"unit {u} is the data mover but has no transfer engine"
  | noDevice u => s!"unit {u} is the compute unit but has no device"
  | other r => r

/-- The name of a call. -/
def DeviceCall.name : DeviceCall → String
  | configure => "configure"
  | launch => "launch"
  | clear => "clear"

/-- The words for a refused mapping, as the system has them. -/
def MapFault.reason : MapFault → String
  | noRoom => "Cannot allocate memory (os error 12)"
  | outOfRange => "Value too large for defined data type (os error 75)"

/-- The words for a fault of a device. -/
def DeviceFault.reason : DeviceFault → String
  | pollWhile d s => s!"{d}: poll while {s.name}"
  | outOfOrder d c s => s!"{d}: cannot {c.name} while {s.name}"
  | errorStatus d w => s!"{d}: error status {hex w.toNat}"
  | startWhileBusy d => s!"{d}: start while busy"
  | readOnly d r => s!"{d}: status register {hex r.toNat} is read-only"
  | unsupportedMode m => s!"snax-mac: unsupported mode {m}"
  | unsupportedIterations n => s!"snax-mac: unsupported iteration count {n}"
  | unknownMode m => s!"snax-alu: unknown mode {m}"
  | unsupportedStride r v => s!"snax-alu: stride register {hex r.toNat} = {v}, only unit strides are modelled"
  | unequalBounds b n => s!"snax-alu: loop bound {b} differs from length {n}"
  | operandOutside d a n => s!"{d}: operand {wideHex a.toNat} (+{n} bytes) outside the TCDM"
  | panicked u i => s!"unit {u} panicked in iteration {i}"
  | emptyWindow p => s!"{p}: register window is empty"
  | notMapped p c => s!"mmap {p} failed: {c.reason}"
  | other r => r

/-- The name of an end. -/
def TransferEnd.name : TransferEnd → String
  | source => "source"
  | destination => "destination"

/-- The words for a fault of a transfer. -/
def TransferFault.reason : TransferFault → String
  | unmapped side a n => s!"{side.name} {wideHex a.toNat} (+{n} bytes) not mapped"
  | other r => r

/-- The words for a file that cannot be opened, as the system has them. -/
def FileFault.reason : FileFault → String
  | notFound => "No such file or directory (os error 2)"
  | notDirectory => "Not a directory (os error 20)"
  | isDirectory => "Is a directory (os error 21)"
  | nameTooLong => "File name too long (os error 36)"
  | other r => r

namespace Error

/-- The text of an error. -/
def message : Error → String
  | scratchpadOverflow r c => s!"Scratchpad overflow: {r} bytes requested, {c} bytes available"
  | misaligned what v a => s!"Misaligned {what}: {hex v} is not a multiple of {a}"
  | invalidTopology c => s!"Invalid topology: {c.reason}"
  | invalidDescriptor c => s!"Invalid descriptor: {c.reason}"
  | bufferHazard c => s!"Buffer hazard: {c.reason}"
  | invalidPlan c => s!"Invalid plan: {c.reason}"
  | timeout p ms => s!"Device timeout after {p} polls ({ms}ms)"
  | deviceFault c => s!"Device fault: {c.reason}"
  | addressOutOfRange a n => s!"Address {wideHex a} (+{n} bytes) is outside any mapped region"
  | transferFailed c => s!"Transfer failed: {c.reason}"
  | cancelled i => s!"Pipeline cancelled at iteration {i}"
  | io c => s!"I/O error: {c.reason}"

/-- Whether a different request would have avoided the error. -/
def isConfiguration : Error → Bool
  | scratchpadOverflow .. | misaligned .. | invalidTopology _ | invalidDescriptor _ | bufferHazard _
  | invalidPlan _ => true
  | _ => false

/-- Whether the error only says that someone else asked to stop. -/
def isCancelled : Error → Bool
  | cancelled _ => true
  | _ => false

end Error

/-- How a piece of work ends that may also stop for no stated reason. -/
inductive Outcome (α : Type)
  | done (value : α)
  | failed (error : Error)
  | panicked
deriving DecidableEq, Repr

namespace Outcome

variable {α β : Type}

/-- The end of work that cannot panic. -/
def ofExcept : Except Error α → Outcome α
  | .ok a => done a
  | .error e => failed e

/-- The end of work whose result is made into another. -/
def map (f : α → β) : Outcome α → Outcome β
  | done a => done (f a)
  | failed e => failed e
  | panicked => panicked

end Outcome

end TileOffload
