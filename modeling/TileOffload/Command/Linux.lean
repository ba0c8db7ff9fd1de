import TileOffload.Window

/-! # Mapping files under Linux

How a 64-bit machine with pages of 4096 bytes maps files. Nothing that is proved depends on it. -/

namespace TileOffload.Command.Linux

/-- The bytes of a page. -/
def pageBytes : Nat := 4096

/-- The most bytes that a window can take in: the addresses below a program, which is placed at two thirds
    of an address space of 47 bits. -/
def mappableBytes : Nat := 0x800000000000 / 3 * 2

/-- The bound on positions in a file. -/
def fileLimit : Nat := 0x8000000000000000

/-- Whole pages are mapped, and a place for them is found before the file is looked at. -/
def mapper : Mapper where
  pageBytes := pageBytes
  refusal? base size :=
    let bytes := (size + (pageBytes - 1)) / pageBytes * pageBytes
    if mappableBytes < bytes then some .noRoom
    else if fileLimit ≤ base + bytes then some .outOfRange
    else none

end TileOffload.Command.Linux
