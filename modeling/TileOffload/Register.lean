import TileOffload.Chip
import TileOffload.Error

/-! # Registers

A device is driven through registers on a bus. Its register map names the registers that start it, tell
its status and acknowledge completion, and says how to read a status. -/

namespace TileOffload

/-- What a status register says about a launch. -/
inductive Completion
  | busy
  | done
deriving DecidableEq, Repr

/-- The control registers of a device. -/
structure RegisterMap where
  name : String
  start : Word
  startValue : Word
  status : Word
  busyMask : Word
  errorMask : Word
  clear : Option Word
deriving DecidableEq, Repr

namespace RegisterMap

/-- The multiply-accumulate unit. -/
def mac : RegisterMap where
  name := "snax-mac"
  start := Chip.Mac.start
  startValue := 0
  status := Chip.Mac.busy
  busyMask := Chip.Mac.busyMask
  errorMask := 0
  clear := some Chip.Mac.clear

/-- The arithmetic unit behind the streamer. -/
def alu : RegisterMap where
  name := "snax-alu"
  start := Chip.Alu.start
  startValue := 1
  status := Chip.Alu.busy
  busyMask := Chip.Alu.busyMask
  errorMask := 0
  clear := none

/-- Whether a register is one of the control registers. -/
def isControl (m : RegisterMap) (register : Word) : Bool :=
  register == m.start || register == m.status || m.clear == some register

/-- The reading of a status: an error bit decides before a busy bit. -/
def verdict (m : RegisterMap) (status : Word) : Except Error Completion :=
  if status &&& m.errorMask ≠ 0 then .error (.deviceFault (.errorStatus m.name status))
  else if status &&& m.busyMask ≠ 0 then .ok .busy
  else .ok .done

end RegisterMap

/-- A value for a register. -/
structure RegisterWrite where
  register : Word
  value : Word
deriving DecidableEq, Repr

/-- A register bus to something with states `σ`: each access is answered or refused, and either way the
    state may change. -/
structure Bus (σ : Type) where
  read : Word → σ → Except Error Word × σ
  write : Word → Word → σ → Except Error Unit × σ

/-- An access to a register and its answer. -/
inductive Access
  | read (register : Word) (answer : Except Error Word)
  | write (register value : Word) (answer : Except Error Unit)

/-- The same bus with every access noted, the latest first. -/
def Bus.noting {σ : Type} (bus : Bus σ) : Bus (σ × List Access) where
  read r s :=
    let (answer, target) := bus.read r s.1
    (answer, (target, .read r answer :: s.2))
  write r value s :=
    let (answer, target) := bus.write r value s.1
    (answer, (target, .write r value answer :: s.2))

end TileOffload
