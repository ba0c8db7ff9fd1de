import TileOffload.Engine
import TileOffload.Pipeline

/-! # Scripted hardware

A bus and other hardware that answers as a script says. What a unit asks of it is noted in one place, so
that a unit can be watched alone. -/

namespace TileOffload.Script

/-- The script of a bus: the answers to reads, of any register, one after another (`none` refuses), the
    answer when they are used up, and the registers that refuse writes. -/
structure BusScript where
  reads : List (Option Word)
  afterwards : Word
  refuses : List Word
deriving DecidableEq, Repr

/-- The answer of a refused access. -/
def refusal (access : String) (register : Word) : Error :=
  .deviceFault (.other s!"bus refused {access} {register}")

/-- The bus that follows a script. -/
def bus : Bus BusScript where
  read r s :=
    match s.reads with
    | [] => (.ok s.afterwards, s)
    | some value :: rest => (.ok value, { s with reads := rest })
    | none :: rest => (.error (refusal "read" r), { s with reads := rest })
  write r _ s :=
    if s.refuses.contains r then (.error (refusal "write" r), s) else (.ok (), s)

/-- The script of a transfer engine: the attempts that it refuses and at which it panics, counted from
    zero. -/
structure TransferScript where
  refuseAt : Option Nat
  panicAt : Option Nat
deriving DecidableEq, Repr

/-- What a unit has asked of the hardware. -/
inductive Entry
  | access (a : Access)
  | transfer (t : Transfer)
  | barrier

/-- The hardware of one unit under a script, and what was noted, the latest first. -/
structure Stand where
  transfers : Option TransferScript
  engine : Option Engine
  /-- Transfers attempted so far. -/
  attempts : Nat
  /-- Barriers so far. -/
  barriers : Nat
  device : Device (BusScript × List Access)
  noted : List Entry

namespace Stand

/-- Attempts a transfer; one that is refused, or panics, is not noted. -/
def transfer (s : Stand) (script : TransferScript) (t : Transfer) : Outcome Unit × Stand :=
  let n := s.attempts
  let s := { s with attempts := n + 1 }
  if script.panicAt = some n then (.panicked, s)
  else if script.refuseAt = some n then (.failed (.transferFailed (.other s!"script refused transfer {n}")), s)
  else (.done (), { s with noted := .transfer t :: s.noted })

/-- The stand with the accesses of its device noted. -/
def noteAccesses (s : Stand) : Stand :=
  { s with noted := s.device.target.2.map .access ++ s.noted, device.target := (s.device.target.1, []) }

/-- Computes a tile; a wait that takes more than `patience` polls is not answered. -/
def compute (s : Stand) (patience : Nat) (engine : Engine) (tile : Tile) : Option (Outcome Nat) × Stand :=
  match engine.runTile bus.noting patience tile s.device with
  | none => (none, s)
  | some (outcome, device) => (some outcome, { s with device }.noteAccesses)

/-- The hardware of a unit on the stand. -/
def hardware (stand : Stand) (patience : Nat) : Hardware Stand where
  hasTransfers _ := stand.transfers.isSome
  hasDevice _ := stand.engine.isSome
  transfer _ t s :=
    match stand.transfers with
    | none => (none, s)
    | some script =>
      let (outcome, s) := s.transfer script t
      (some outcome, s)
  compute _ tile s :=
    match stand.engine with
    | none => (none, s)
    | some engine => s.compute patience engine tile
  settle _ s := (true, { s with noted := .barrier :: s.noted, barriers := s.barriers + 1 })

end Stand

/-- Lets the units of a pipeline of one unit go on until it is through; after so many barriers a token is
    raised from outside. -/
def rehearse (hardware : Hardware Stand) (raiseAfter : Option Nat) (outside : CancelToken) :
    (patience : Nat) → Pipeline Stand → Option (Pipeline Stand)
  | 0, _ => none
  | patience + 1, s =>
    match s.step? hardware 0 with
    | none => some s
    | some s =>
      if raiseAfter.any (· < s.world.barriers) then
        rehearse hardware raiseAfter outside patience { s with flags := s.flags.raise outside }
      else rehearse hardware raiseAfter outside patience s

end TileOffload.Script
