import TileOffload.Bytes
import TileOffload.Error
import TileOffload.Register

/-! # Register windows

A window shows a range of a file, such as the registers of a device, as 32-bit words. Each access is one
whole word inside the window and takes effect in the file at once. -/

namespace TileOffload

/-- How a system maps ranges of files into memory. -/
structure Mapper where
  /-- Ranges begin at multiples of this. -/
  pageBytes : Nat
  /-- Why a range from `base` on is not mapped, if it is not. -/
  refusal? : (base size : Nat) → Option MapFault

/-- A range of a file, from `base` on, and the file's bytes. -/
structure Window where
  path : String
  base : Nat
  size : Nat
  file : ByteArray

namespace Window

/-- Bytes of a register. -/
def registerBytes : Nat := Bytes.perWord

/-- Opens a window on a file, if that can be opened; with size zero the window reaches to the end of the file. -/
def open? (mapper : Mapper) (path : String) (file : Except FileFault ByteArray) (base size : Nat) :
    Except Error Window := do
  let file ← file.mapError .io
  let size := if size = 0 then file.size - base else size
  if size = 0 then throw (.deviceFault (.emptyWindow path))
  if base % mapper.pageBytes ≠ 0 then throw (.misaligned "mapping offset" base mapper.pageBytes)
  if let some fault := mapper.refusal? base size then throw (.deviceFault (.notMapped path fault))
  return ⟨path, base, size, file⟩

/-- The byte offset is that of a whole word inside the window. -/
def check (w : Window) (offset : Nat) : Except Error Unit :=
  if offset % registerBytes ≠ 0 then .error (.misaligned "register offset" offset registerBytes)
  else if w.size < offset + registerBytes then .error (.addressOutOfRange offset registerBytes)
  else .ok ()

/-- The word at a byte offset. -/
def read (w : Window) (offset : Nat) : Except Error Word := do
  w.check offset
  return Bytes.wordAt w.file (w.base + offset)

/-- Writes the word at a byte offset; the file keeps its size. -/
def write (w : Window) (offset : Nat) (value : Word) : Except Error Window := do
  w.check offset
  let patched := Bytes.splice w.file (w.base + offset) (Bytes.ofWords [value])
  return { w with file := patched.extract 0 w.file.size }

/-- The window as a register bus: register `r` is the word at byte offset `4 * r`. -/
def bus : Bus Window where
  read r w := (w.read (r.toNat * registerBytes), w)
  write r value w :=
    match w.write (r.toNat * registerBytes) value with
    | .ok w => (.ok (), w)
    | .error e => (.error e, w)

end Window

/-- An access to a window, by byte offset or by register. -/
inductive WindowAccess
  | read (offset : Nat)
  | write (offset : Nat) (value : Word)
  | readRegister (register : Word)
  | writeRegister (register value : Word)
deriving DecidableEq, Repr

namespace Window

/-- What an access answers, with the word if it reads one, and the window after it. -/
def serve (w : Window) : WindowAccess → Except Error (Option Word) × Window
  | .read offset => ((w.read offset).map some, w)
  | .write offset value =>
    match w.write offset value with
    | .ok w => (.ok none, w)
    | .error e => (.error e, w)
  | .readRegister register =>
    let (answer, w) := bus.read register w
    (answer.map some, w)
  | .writeRegister register value =>
    let (answer, w) := bus.write register value w
    (answer.map fun _ => none, w)

/-- The answers to accesses one after another, and the window after them. -/
def serveAll : List WindowAccess → Window → List (Except Error (Option Word)) × Window
  | [], w => ([], w)
  | access :: rest, w =>
    let (answer, w) := w.serve access
    let (answers, w) := serveAll rest w
    (answer :: answers, w)

end Window

end TileOffload
