import TileOffload.Bytes
import TileOffload.Chip
import TileOffload.Error

/-! # Memory

A memory is a list of banks, each a range of addresses with its bytes. An access lies inside one bank or
is refused as a whole. Words are read and written at whole words; bytes are copied at any alignment, and
a copy takes all bytes before it writes one, so the two ranges may overlap.

The end of a range is a sum of 64 bits that nobody checks. Where it fits, an access is the plain one
(`readWords`, `writeWords`, `copy`); on lengths so large that it does not, a range may be taken for mapped that
is not, and the access panics (`readUnchecked`, `copyUnchecked`). -/

namespace TileOffload

/-- A range of addresses and the bytes stored there. -/
structure Bank where
  name : String
  base : Word
  bytes : ByteArray

namespace Bank

/-- The address just past the bank. -/
def stop (b : Bank) : Nat := b.base.toNat + b.bytes.size

/-- Whether `len` bytes from `addr` on lie inside the bank. -/
def maps (b : Bank) (addr : Word) (len : Nat) : Bool :=
  b.base.toNat ≤ addr.toNat && addr.toNat + len ≤ b.stop

/-- Whether the bank is taken to hold the range: its end, of which only 64 bits are left, is not past the bank. -/
def covers (b : Bank) (addr : Word) (len : Nat) : Bool :=
  b.base.toNat ≤ addr.toNat && Size.wrap (addr.toNat + len) ≤ b.stop

/-- The index of an address among the bank's bytes. -/
def indexOf (b : Bank) (addr : Word) : Nat := addr.toNat - b.base.toNat

end Bank

/-- Banks in the order they were added. -/
structure Memory where
  banks : List Bank

namespace Memory

/-- A memory without banks. -/
def empty : Memory := ⟨[]⟩

/-- Adds a bank of zero bytes; it begins and ends at whole words, below the end of the address space, and
    shares no byte with another bank. -/
def addBank (m : Memory) (name : String) (base : Word) (len : Nat) : Except Error Memory := do
  if base.toNat % Bytes.perWord ≠ 0 then throw (.misaligned s!"{name} base" base.toNat Bytes.perWord)
  if len % Bytes.perWord ≠ 0 then throw (.misaligned s!"{name} size" len Bytes.perWord)
  let stop := base.toNat + len
  if addressLimit < stop then throw (.addressOutOfRange base.toNat len)
  match m.banks.find? fun b => base.toNat < b.stop && b.base.toNat < stop with
  | some other => throw (.invalidPlan (.overlap name other.name))
  | none => return ⟨m.banks ++ [⟨name, base, Bytes.zeros len⟩]⟩

/-- The memory of a SNAX cluster with that many bytes of backing storage. -/
def snax (backing : Nat) : Except Error Memory := do
  if Chip.backingLimit < backing then throw (.addressOutOfRange Chip.backingBase.toNat backing)
  let m ← empty.addBank "l3" Chip.backingBase backing
  m.addBank "tcdm" Chip.tcdmBase Chip.tcdmSize

/-- Whether one bank is taken to hold the range. -/
def contains (m : Memory) (addr : Word) (len : Nat) : Bool :=
  m.banks.any (·.covers addr len)

/-- The first bank with the range inside. -/
def bank? (m : Memory) (addr : Word) (len : Nat) : Option Bank :=
  m.banks.find? (·.maps addr len)

/-- Whether the range lies inside one bank. -/
def maps (m : Memory) (addr : Word) (len : Nat) : Bool :=
  (m.bank? addr len).isSome

/-- The bank of a range, or the refusal of the access. -/
def locate (m : Memory) (addr : Word) (len : Nat) : Except Error Bank :=
  match m.bank? addr len with
  | some b => .ok b
  | none => .error (.addressOutOfRange addr.toNat len)

/-- The bank of a range of whole words. -/
def locateWords (m : Memory) (addr : Word) (count : Nat) : Except Error Bank :=
  if addr.toNat % Bytes.perWord = 0 then m.locate addr (count * Bytes.perWord)
  else .error (.misaligned "word access" addr.toNat Bytes.perWord)

/-- The bytes written into the first bank that has room for them there. -/
def store (m : Memory) (addr : Word) (data : ByteArray) : Memory :=
  ⟨go m.banks⟩
where
  go : List Bank → List Bank
    | [] => []
    | b :: rest =>
      if b.maps addr data.size then
        { b with bytes := Bytes.splice b.bytes (b.indexOf addr) data } :: rest
      else b :: go rest

/-- The words from an address on. -/
def readWords (m : Memory) (addr : Word) (count : Nat) : Except Error (List Word) := do
  let b ← m.locateWords addr count
  return Bytes.wordsAt b.bytes (b.indexOf addr) count

/-- Writes words one after another from an address on. -/
def writeWords (m : Memory) (addr : Word) (words : List Word) : Except Error Memory := do
  let _ ← m.locateWords addr words.length
  return m.store addr (Bytes.ofWords words)

/-- Copies `len` bytes. The destination is checked before the source. -/
def copy (m : Memory) (dst src : Word) (len : Nat) : Except Error Memory := do
  let _ ← m.locate dst len
  let b ← m.locate src len
  return m.store dst (b.bytes.extract (b.indexOf src) (b.indexOf src + len))

/-- The words from an address on, also where the end of the range does not fit. -/
def readUnchecked (m : Memory) (addr : Word) (count : Nat) : Outcome (List Word) :=
  if addr.toNat % Bytes.perWord ≠ 0 then .failed (.misaligned "word access" addr.toNat Bytes.perWord)
  else if !m.contains addr (Size.wrap (count * Bytes.perWord)) then
    .failed (.addressOutOfRange addr.toNat (Size.wrap (count * Bytes.perWord)))
  else
    match m.readWords addr count with
    | .ok words => .done words
    | .error _ => .panicked

/-- Copies `len` bytes, also where the end of a range does not fit. -/
def copyUnchecked (m : Memory) (dst src : Word) (len : Nat) : Outcome Memory :=
  if !m.contains dst len then .failed (.addressOutOfRange dst.toNat len)
  else if !m.contains src len then .failed (.addressOutOfRange src.toNat len)
  else
    match m.copy dst src len with
    | .ok m => .done m
    | .error _ => .panicked

/-- The byte at an address, if a bank has it. -/
def byteAt? (m : Memory) (addr : Nat) : Option UInt8 :=
  (m.banks.find? fun b => b.base.toNat ≤ addr && addr < b.stop).map fun b => Bytes.byteAt b.bytes (addr - b.base.toNat)

end Memory

end TileOffload
