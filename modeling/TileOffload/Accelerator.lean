import TileOffload.Kernel
import TileOffload.Memory

/-! # Accelerators

A model of the two accelerators. A write to the start register computes at once, from the memory as it
then is: both operands are fetched before the result is stored. After that the status register reads busy
for a number of polls. The multiply-accumulate unit stays started until it is cleared; the arithmetic unit
is free again once a status read has said so, and counts the elements it has produced. -/

namespace TileOffload

/-- Which accelerator is modelled. -/
inductive Personality
  | mac
  | alu
deriving DecidableEq, Repr

namespace Personality

/-- The name of an accelerator. -/
def name : Personality → String
  | mac => "mac"
  | alu => "alu"

/-- The control registers of an accelerator. -/
def map : Personality → RegisterMap
  | mac => .mac
  | alu => .alu

/-- The accelerator with the given control registers. -/
def ofMap? (m : RegisterMap) : Option Personality :=
  [mac, alu].find? (·.map == m)

end Personality

/-- Values of registers, in the order of the register numbers; a register not listed holds zero. -/
structure RegisterFile where
  cells : List (Word × Word)
deriving DecidableEq, Repr

namespace RegisterFile

/-- Every register holds zero. -/
def empty : RegisterFile := ⟨[]⟩

/-- The value of a register. -/
def read (f : RegisterFile) (register : Word) : Word :=
  (f.cells.lookup register).getD 0

/-- Puts a value into a register. -/
def write (f : RegisterFile) (register value : Word) : RegisterFile :=
  ⟨insert f.cells⟩
where
  insert : List (Word × Word) → List (Word × Word)
    | [] => [(register, value)]
    | (r, v) :: rest =>
      if register < r then (register, value) :: (r, v) :: rest
      else if register = r then (register, value) :: rest
      else (r, v) :: insert rest

end RegisterFile

/-- A pass over memory: what is done with the elements at `a` and `b`, and where the results go. -/
structure Pass where
  a : Word
  b : Word
  o : Word
  len : Nat
  apply : Word → Word → Word

/-- An accelerator's registers and the state of its last start. -/
structure Accelerator where
  personality : Personality
  registers : RegisterFile
  /-- Busy polls after each start. -/
  latency : Nat
  /-- Busy polls still to come. -/
  busyLeft : Nat
  running : Bool
  /-- Whether a start never completes. -/
  stuck : Bool
  launches : Nat
  /-- Elements produced so far. -/
  elements : Nat
deriving DecidableEq, Repr

namespace Accelerator

/-- An accelerator that has never been started. -/
def fresh (personality : Personality) (latency : Nat) (stuck : Bool) : Accelerator where
  personality
  registers := .empty
  latency
  busyLeft := 0
  running := false
  stuck
  launches := 0
  elements := 0

/-- The accelerator's control registers. -/
def map (a : Accelerator) : RegisterMap := a.personality.map

/-- The value of a register. -/
def register (a : Accelerator) (r : Word) : Word := a.registers.read r

/-- The pass that the registers of the multiply-accumulate unit describe. -/
def macPass (a : Accelerator) : Except Error Pass :=
  let mode := a.register Chip.Mac.mode
  let iterations := a.register Chip.Mac.iterations
  if mode ≠ Chip.Mac.simpleMultiply then .error (.deviceFault (.unsupportedMode mode))
  else if iterations ≠ 1 then .error (.deviceFault (.unsupportedIterations iterations))
  else .ok {
    a := a.register Chip.Mac.pointerA
    b := a.register Chip.Mac.pointerB
    o := a.register Chip.Mac.pointerO
    len := (a.register Chip.Mac.vectorLength).toNat
    apply := (· * ·) }

/-- The pass that the registers of the arithmetic unit describe. -/
def aluPass (a : Accelerator) : Except Error Pass :=
  match AluMode.ofRegister? (a.register Chip.Alu.mode) with
  | none => .error (.deviceFault (.unknownMode (a.register Chip.Alu.mode)))
  | some mode =>
    match Chip.Alu.strides.find? fun r => a.register r != Chip.Alu.unitStride with
    | some r => .error (.deviceFault (.unsupportedStride r (a.register r)))
    | none =>
      let bound := a.register Chip.Alu.loopBound
      let len := a.register Chip.Alu.length
      if bound ≠ len then .error (.deviceFault (.unequalBounds bound len))
      else .ok {
        a := a.register Chip.Alu.pointerA
        b := a.register Chip.Alu.pointerB
        o := a.register Chip.Alu.pointerO
        len := len.toNat
        apply := mode.apply }

/-- The pass that the registers describe. -/
def configuredPass (a : Accelerator) : Except Error Pass :=
  match a.personality with
  | .mac => a.macPass
  | .alu => a.aluPass

/-- Operands of a pass lie inside the TCDM. -/
def checkOperands (a : Accelerator) (p : Pass) : Except Error Unit :=
  let bytes := p.len * Chip.elementBytes
  match [p.a, p.b, p.o].find? fun addr => !Chip.inTcdm addr bytes with
  | some addr => .error (.deviceFault (.operandOutside a.map.name addr bytes))
  | none => .ok ()

/-- The pass that a write to the start register begins. -/
def begin (a : Accelerator) : Except Error Pass := do
  if a.running then throw (.deviceFault (.startWhileBusy a.map.name))
  let p ← a.configuredPass
  a.checkOperands p
  return p

/-- The accelerator after a pass over so many elements. -/
def started (a : Accelerator) (len : Nat) : Accelerator :=
  { a with running := true, busyLeft := a.latency, launches := a.launches + 1, elements := a.elements + len }

/-- A write to a register other than the start register. -/
def configure (a : Accelerator) (r value : Word) : Except Error Accelerator :=
  if a.map.clear = some r then .ok { a with running := false }
  else if r = a.map.status then .error (.deviceFault (.readOnly a.map.name r))
  else .ok { a with registers := a.registers.write r value }

/-- A whole start: the pass is fetched, computed and stored. -/
def start (a : Accelerator) (m : Memory) : Except Error (Accelerator × Memory) := do
  let p ← a.begin
  let xs ← m.readWords p.a p.len
  let ys ← m.readWords p.b p.len
  let m ← m.writeWords p.o (List.zipWith p.apply xs ys)
  return (a.started p.len, m)

/-- A read of the status register. -/
def status (a : Accelerator) : Word × Accelerator :=
  if !a.running then (0, a)
  else if a.stuck then (a.map.busyMask, a)
  else if 0 < a.busyLeft then (a.map.busyMask, { a with busyLeft := a.busyLeft - 1 })
  else (0, { a with running := a.map.clear.isSome })

/-- A read of any register. -/
def read (a : Accelerator) (r : Word) : Word × Accelerator :=
  if r = a.map.status then a.status
  else if a.personality = .alu ∧ r = Chip.Alu.counter then (UInt32.ofNat a.elements, a)
  else (a.register r, a)

/-- A write to any register, with the memory it may change. -/
def write (a : Accelerator) (m : Memory) (r value : Word) : Except Error (Accelerator × Memory) :=
  if r = a.map.start then a.start m
  else (a.configure r value).map fun a => (a, m)

/-- An accelerator and its memory behind a register bus; a refused access changes nothing. -/
def bus : Bus (Accelerator × Memory) where
  read r s :=
    let (value, a) := s.1.read r
    (.ok value, (a, s.2))
  write r value s :=
    match s.1.write s.2 r value with
    | .ok s => (.ok (), s)
    | .error e => (.error e, s)

end Accelerator

end TileOffload
