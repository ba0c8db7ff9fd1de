import TileOffload.Dataset

/-! # Verification

The output of a device and the results of the host are compared with the expected results, word by word;
a word that one side lacks counts as a mismatch. -/

namespace TileOffload

/-- At how many places two vectors differ. -/
def mismatches (x y : List Word) : Nat :=
  (List.zip x y).countP (fun p => p.1 != p.2) + (max x.length y.length - min x.length y.length)

/-- How far the device and the host are from what is expected. -/
structure Verification where
  device : Nat
  host : Nat
  checked : Nat
deriving DecidableEq, Repr

namespace Verification

/-- Compares an output, and the kernel's own results, with the dataset. -/
def check (output : List Word) (d : Dataset) (k : Kernel) : Verification where
  device := mismatches output d.golden
  host := mismatches (k.golden d.a d.b) d.golden
  checked := d.golden.length

/-- All mismatches. -/
def total (v : Verification) : Nat := v.device + v.host

/-- Whether nothing differs. -/
def passed (v : Verification) : Bool := v.total == 0

end Verification

end TileOffload
