import TileOffload.Register

/-! # Descriptors

A descriptor is one complete transaction with a device: configuration writes, each to a register of its
own that is no control register, and after them the write that starts the device. -/

namespace TileOffload

/-- Configuration writes and the start write. -/
structure Descriptor where
  config : List RegisterWrite
  start : RegisterWrite
deriving DecidableEq, Repr

namespace Descriptor

/-- All writes, the start write last. -/
def writes (d : Descriptor) : List RegisterWrite := d.config ++ [d.start]

/-- The value that the descriptor gives a register. -/
def valueOf (d : Descriptor) (register : Word) : Option Word :=
  (d.writes.find? (·.register == register)).map (·.value)

/-- The first write, in order, to a control register or to a register that an earlier write has, given
    the earlier writes. -/
def firstFault (map : RegisterMap) (earlier : List RegisterWrite) : List RegisterWrite → Option DescriptorFault
  | [] => none
  | w :: rest =>
    if map.isControl w.register then some (.controlRegister map.name w.register)
    else if earlier.any (·.register == w.register) then some (.writtenTwice map.name w.register)
    else firstFault map (earlier ++ [w]) rest

/-- The descriptor with the given configuration writes for a device. -/
def build (map : RegisterMap) (config : List RegisterWrite) : Except Error Descriptor :=
  if config.isEmpty then .error (.invalidDescriptor (.empty map.name))
  else match firstFault map [] config with
    | some fault => .error (.invalidDescriptor fault)
    | none => .ok ⟨config, ⟨map.start, map.startValue⟩⟩

end Descriptor

/-- A descriptor in the making: the device it is for, and the configuration writes so far. -/
structure DescriptorBuilder where
  map : RegisterMap
  config : List RegisterWrite
deriving DecidableEq, Repr

/-- A call that adds one configuration write. -/
inductive BuilderCall
  /-- The base address of an operand. -/
  | baseAddr (register addr : Word)
  /-- A length, a loop bound or a count. -/
  | shape (register value : Word)
  | stride (register value : Word)
  /-- Anything else. -/
  | write (register value : Word)
deriving DecidableEq, Repr

namespace DescriptorBuilder

/-- Nothing is configured yet. -/
def begin (map : RegisterMap) : DescriptorBuilder := ⟨map, []⟩

/-- Adds a write after those there are. -/
def write (b : DescriptorBuilder) (register value : Word) : DescriptorBuilder :=
  { b with config := b.config ++ [⟨register, value⟩] }

/-- Adds the base address of an operand. -/
def baseAddr (b : DescriptorBuilder) (register addr : Word) : DescriptorBuilder := b.write register addr

/-- Adds a length, a loop bound or a count. -/
def shape (b : DescriptorBuilder) (register value : Word) : DescriptorBuilder := b.write register value

/-- Adds a stride. -/
def stride (b : DescriptorBuilder) (register value : Word) : DescriptorBuilder := b.write register value

/-- Makes a call. -/
def call (b : DescriptorBuilder) : BuilderCall → DescriptorBuilder
  | .baseAddr register addr => b.baseAddr register addr
  | .shape register value => b.shape register value
  | .stride register value => b.stride register value
  | .write register value => b.write register value

/-- Makes calls one after another. -/
def callAll (b : DescriptorBuilder) (calls : List BuilderCall) : DescriptorBuilder := calls.foldl call b

/-- The descriptor. -/
def build (b : DescriptorBuilder) : Except Error Descriptor := Descriptor.build b.map b.config

end DescriptorBuilder

/-- The descriptor whose writes are base addresses, then shapes, then strides. -/
def Descriptor.ofParts (map : RegisterMap) (bases shapes strides : List RegisterWrite) : Except Error Descriptor :=
  let b := bases.foldl (fun b w => b.baseAddr w.register w.value) (DescriptorBuilder.begin map)
  let b := shapes.foldl (fun b w => b.shape w.register w.value) b
  let b := strides.foldl (fun b w => b.stride w.register w.value) b
  b.build

end TileOffload
