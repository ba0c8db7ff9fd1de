import TileOffload.Descriptor
import TileOffload.Plan

/-! # Kernels

A kernel says what is computed for each pair of elements, which device computes it, and which descriptor
makes that device compute one tile. -/

namespace TileOffload

/-- An elementwise operation that a device is made to do. -/
structure Kernel where
  name : String
  map : RegisterMap
  /-- The transaction for one tile. -/
  describe : Tile → Outcome Descriptor
  /-- The result for one pair of elements. -/
  reference : Word → Word → Word

/-- The operations of the arithmetic unit. -/
inductive AluMode
  | add
  | sub
  | mul
  | xor
deriving DecidableEq, Repr

namespace AluMode

/-- The value of the mode register. -/
def register : AluMode → Word
  | add => Chip.Alu.modeAdd
  | sub => Chip.Alu.modeSub
  | mul => Chip.Alu.modeMul
  | xor => Chip.Alu.modeXor

/-- The mode that a value of the mode register selects. -/
def ofRegister? (value : Word) : Option AluMode :=
  [add, sub, mul, xor].find? (·.register == value)

/-- The result for one pair of elements, modulo `2 ^ 32`. -/
def apply : AluMode → Word → Word → Word
  | add, x, y => x + y
  | sub, x, y => x - y
  | mul, x, y => x * y
  | xor, x, y => x ^^^ y

/-- The name of a mode. -/
def name : AluMode → String
  | add => "add"
  | sub => "sub"
  | mul => "mul"
  | xor => "xor"

end AluMode

namespace Kernel

/-- A length as the value of a register. -/
def lengthRegister (what : String) (n : Nat) : Except Error Word :=
  match Word.ofSize? n with
  | some w => .ok w
  | none => .error (.invalidDescriptor (.tooWide what n))

/-- The transaction that multiplies a tile on the multiply-accumulate unit. -/
def describeMac (t : Tile) : Except Error Descriptor := do
  let n ← lengthRegister "vector length" t.elements
  Descriptor.build .mac
    [⟨Chip.Mac.pointerA, t.a⟩, ⟨Chip.Mac.pointerB, t.b⟩, ⟨Chip.Mac.pointerO, t.o⟩,
      ⟨Chip.Mac.iterations, 1⟩, ⟨Chip.Mac.vectorLength, n⟩, ⟨Chip.Mac.mode, Chip.Mac.simpleMultiply⟩]

/-- The transaction that puts a tile through the arithmetic unit. -/
def describeAlu (mode : AluMode) (t : Tile) : Except Error Descriptor := do
  let n ← lengthRegister "loop bound" t.elements
  Descriptor.build .alu <|
    [⟨Chip.Alu.loopBound, n⟩] ++ (Chip.Alu.strides.map fun r => ⟨r, Chip.Alu.unitStride⟩) ++
    [⟨Chip.Alu.pointerA, t.a⟩, ⟨Chip.Alu.pointerB, t.b⟩, ⟨Chip.Alu.pointerO, t.o⟩,
      ⟨Chip.Alu.streamerCommit, 1⟩, ⟨Chip.Alu.mode, mode.register⟩, ⟨Chip.Alu.length, n⟩]

/-- Elementwise product on the multiply-accumulate unit. -/
def mac : Kernel where
  name := "mac-mult"
  map := .mac
  describe t := .ofExcept (describeMac t)
  reference x y := x * y

/-- An operation of the arithmetic unit. -/
def alu (mode : AluMode) : Kernel where
  name := s!"alu-{mode.name}"
  map := .alu
  describe t := .ofExcept (describeAlu mode t)
  reference := mode.apply

/-- The kernels of this library, by what they compute on. -/
inductive BuiltIn
  | mac
  | alu (mode : AluMode)
deriving DecidableEq, Repr

/-- The kernel meant. -/
def BuiltIn.kernel : BuiltIn → Kernel
  | mac => Kernel.mac
  | alu mode => Kernel.alu mode

/-- The results for two vectors, as far as both reach. -/
def golden (k : Kernel) (a b : List Word) : List Word := List.zipWith k.reference a b

end Kernel

end TileOffload
