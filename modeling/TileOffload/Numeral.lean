/-! # Numerals

How numbers are written: hexadecimal with the mark `0x` and lower-case digits, a wide form of at least
eight hexadecimal digits for addresses, and columns filled with blanks from the left. -/

namespace TileOffload.Numeral

/-- The hexadecimal digits of `n` with their mark. -/
def hex (n : Nat) : String :=
  "0x" ++ String.ofList (Nat.toDigits 16 n)

/-- As `hex`, with zeros in front up to eight digits. -/
def wideHex (n : Nat) : String :=
  let digits := Nat.toDigits 16 n
  "0x" ++ String.ofList (List.replicate (8 - digits.length) '0' ++ digits)

/-- The text moved to the right end of a column of the given width. -/
def column (width : Nat) (text : String) : String :=
  String.ofList (List.replicate (width - text.length) ' ') ++ text

example : hex 0 = "0x0" ∧ hex 0xBEEF = "0xbeef" := by decide +kernel
example : wideHex 0x10 = "0x00000010" ∧ wideHex 0x123456789 = "0x123456789" := by decide +kernel
example : column 4 "t1" = "  t1" ∧ column 1 "t1" = "t1" := by decide +kernel

end TileOffload.Numeral
