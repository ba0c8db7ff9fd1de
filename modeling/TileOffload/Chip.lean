import TileOffload.Size

/-! # The chip

The fixed numbers of the SNAX cluster: its cores, its tightly coupled data memory (TCDM), the backing
storage of a simulation, and the registers of its two accelerators. -/

namespace TileOffload.Chip

/-- How many cores the cluster has. -/
def cores : Nat := 9

/-- The core that moves data. -/
def moverCore : Nat := 8

/-- The core that drives the accelerator. -/
def acceleratorCore : Nat := 0

/-- The cores that do not move data. -/
def computeCores : Nat := cores - 1

/-- The stages a tile goes through: load, compute, store. -/
def pipelineStages : Nat := 3

/-- Bytes of one data element. -/
def elementBytes : Nat := 4

/-! ### Memory -/

/-- Where the TCDM begins. -/
def tcdmBase : Word := 0x10000000

/-- Bytes of the TCDM. -/
def tcdmSize : Nat := 128 * 1024

/-- Banks of the TCDM. -/
def tcdmBanks : Nat := 32

/-- Bytes of a word of a bank. -/
def bankWordBytes : Nat := 8

/-- Operands begin at multiples of this. -/
def defaultAlignment : Nat := bankWordBytes

/-- Where backing storage begins. -/
def backingBase : Word := 0x80000000

/-- The most bytes of backing storage that are simulated. -/
def backingLimit : Nat := 4 * 1024 * 1024

/-- Whether `len` bytes from `addr` on lie inside the TCDM. -/
def inTcdm (addr : Word) (len : Nat) : Bool :=
  tcdmBase.toNat ≤ addr.toNat && addr.toNat + len ≤ tcdmBase.toNat + tcdmSize

/-! ### Registers of the multiply-accumulate unit -/

namespace Mac

def start : Word := 0x3C0
def busy : Word := 0x3C3
def clear : Word := 0x3C5
def pointerA : Word := 0x3D0
def pointerB : Word := 0x3D1
def pointerO : Word := 0x3D3
def iterations : Word := 0x3D4
def vectorLength : Word := 0x3D5
def mode : Word := 0x3D6

/-- The mode that multiplies element by element. -/
def simpleMultiply : Word := 1

/-- Any bit of the status register means busy. -/
def busyMask : Word := 0xFFFFFFFF

end Mac

/-! ### Registers of the streamer and its arithmetic unit -/

namespace Alu

def loopBound : Word := 0x3D0
def temporalStrideA : Word := 0x3D1
def temporalStrideB : Word := 0x3D2
def temporalStrideO : Word := 0x3D3
def spatialStrideA : Word := 0x3D4
def spatialStrideB : Word := 0x3D5
def spatialStrideO : Word := 0x3D6
def pointerA : Word := 0x3D7
def pointerB : Word := 0x3D8
def pointerO : Word := 0x3D9
def streamerCommit : Word := 0x3DA
def streamerCounter : Word := 0x3DB
def mode : Word := 0x3DC
def length : Word := 0x3DD
def start : Word := 0x3DE
def busy : Word := 0x3DF
def counter : Word := 0x3E0

/-- The stride of operands stored without gaps. -/
def unitStride : Word := 1

def modeAdd : Word := 0
def modeSub : Word := 1
def modeMul : Word := 2
def modeXor : Word := 3

/-- The bit of the status register that means busy. -/
def busyMask : Word := 1

/-- The stride registers, in the order they are checked. -/
def strides : List Word :=
  [temporalStrideA, temporalStrideB, temporalStrideO, spatialStrideA, spatialStrideB, spatialStrideO]

end Alu

end TileOffload.Chip
