import TileOffload.Size

/-! # Numbers on the command line

A number has an optional plus sign and one digit or more, and is below a bound. Register offsets and
values may also be hexadecimal, after the mark `0x` or `0X`, and may have underscores anywhere after the
mark. -/

namespace TileOffload.Command.Number

/-- The value of a digit of a base up to sixteen. -/
def digit? (base : Nat) (c : Char) : Option Nat :=
  let value? :=
    if '0' ≤ c ∧ c ≤ '9' then some (c.toNat - '0'.toNat)
    else if 'a' ≤ c ∧ c ≤ 'f' then some (c.toNat - 'a'.toNat + 10)
    else if 'A' ≤ c ∧ c ≤ 'F' then some (c.toNat - 'A'.toNat + 10)
    else none
  value?.filter (· < base)

/-- The value of digits that follow a number. -/
def digits? (base : Nat) : Nat → List Char → Option Nat
  | n, [] => some n
  | n, c :: rest => (digit? base c).bind fun d => digits? base (n * base + d) rest

/-- The digits after an optional plus sign. -/
def unsigned : List Char → List Char
  | '+' :: rest => rest
  | cs => cs

/-- A number of the given base below `bound`. -/
def ofDigits? (base bound : Nat) (cs : List Char) : Option Nat :=
  match unsigned cs with
  | [] => none
  | ds => (digits? base 0 ds).filter (· < bound)

/-- A decimal number that is a size. -/
def size? (s : String) : Option Nat := ofDigits? 10 Size.limit s.toList

/-- A decimal number that is a word; zero may have a minus sign. -/
def word? (s : String) : Option Nat :=
  match s.toList with
  | '-' :: zeros => if zeros ≠ [] ∧ zeros.all (· == '0') then some 0 else none
  | cs => ofDigits? 10 addressLimit cs

/-- A number without its underscores. -/
def withoutMarks (cs : List Char) : List Char := cs.filter (· != '_')

/-- A decimal or hexadecimal number below `2 ^ 64`. -/
def flexible? (s : String) : Option Nat :=
  match s.toList with
  | '0' :: 'x' :: rest | '0' :: 'X' :: rest => ofDigits? 16 Size.limit (withoutMarks rest)
  | cs => ofDigits? 10 Size.limit (withoutMarks cs)

end TileOffload.Command.Number
