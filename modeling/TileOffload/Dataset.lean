import TileOffload.Kernel

/-! # Datasets

Two input vectors and the results expected of them. Random vectors come from a generator with a 128-bit
state that is filled from a 64-bit seed. -/

namespace TileOffload

/-- The state of the element generator: four words. -/
structure Random where
  s₀ : Word
  s₁ : Word
  s₂ : Word
  s₃ : Word
deriving DecidableEq, Repr

namespace Random

/-- What the seed counter advances by. -/
def seedStep : UInt64 := 0x9e3779b97f4a7c15

/-- Mixes all bits of a seed counter into each bit of the result. -/
def mix (z : UInt64) : UInt64 :=
  let z := (z ^^^ (z >>> 30)) * 0xbf58476d1ce4e5b9
  let z := (z ^^^ (z >>> 27)) * 0x94d049bb133111eb
  z ^^^ (z >>> 31)

/-- The state from two mixed counters; a state of zeros only, which would never leave zero, is avoided. -/
def ofSeed (seed : UInt64) : Random :=
  let lo := mix (seed + seedStep)
  let hi := mix (seed + seedStep + seedStep)
  let s : Random := ⟨lo.toUInt32, (lo >>> 32).toUInt32, hi.toUInt32, (hi >>> 32).toUInt32⟩
  if s = ⟨0, 0, 0, 0⟩ then ⟨1, 0, 0, 0⟩ else s

/-- The word with its bits moved left, those that leave coming back in from the right. -/
def rotateLeft (w : Word) (n : Word) : Word := (w <<< n) ||| (w >>> (32 - n))

/-- The word that a state gives. -/
def output (s : Random) : Word := rotateLeft (s.s₁ * 5) 7 * 9

/-- The state after a draw. -/
def next (s : Random) : Random :=
  let t₂ := s.s₂ ^^^ s.s₀
  let t₃ := s.s₃ ^^^ s.s₁
  ⟨s.s₀ ^^^ t₃, s.s₁ ^^^ t₂, t₂ ^^^ (s.s₁ <<< 9), rotateLeft t₃ 11⟩

/-- A number below `bound` that a state gives. -/
def below (s : Random) (bound : Word) : Word :=
  ((s.output.toUInt64 * bound.toUInt64) >>> 32).toUInt32

/-- That many numbers below `bound`, and the state after them. -/
def draw (bound : Word) : Nat → Random → List Word × Random
  | n, s => go n s []
where
  go : Nat → Random → List Word → List Word × Random
    | 0, s, drawn => (drawn.reverse, s)
    | n + 1, s, drawn => go n s.next (s.below bound :: drawn)

end Random

/-- Two vectors and the results expected of them. -/
structure Dataset where
  a : List Word
  b : List Word
  golden : List Word
deriving DecidableEq, Repr

namespace Dataset

/-- Random elements are below this number. -/
def elementBound : Word := 100

/-- A dataset of three vectors of one length. -/
def make (a b golden : List Word) : Except Error Dataset :=
  if a.length = b.length ∧ a.length = golden.length then .ok ⟨a, b, golden⟩
  else .error (.invalidPlan (.unequalVectors a.length b.length golden.length))

/-- The dataset with the results that a kernel gives. -/
def goldenFor (d : Dataset) (k : Kernel) : Dataset := { d with golden := k.golden d.a d.b }

/-- A dataset with the results that a kernel gives. -/
def ofInputs (a b : List Word) (k : Kernel) : Except Error Dataset := make a b (k.golden a b)

/-- Random elements and their products. -/
def random (length : Nat) (seed : UInt64) : Dataset :=
  let (a, s) := Random.draw elementBound length (.ofSeed seed)
  let (b, _) := Random.draw elementBound length s
  ⟨a, b, List.zipWith (· * ·) a b⟩

/-- Twenty elements and their products. -/
def reference : Dataset where
  a := [99, 67, 39, 26, 62, 14, 17, 18, 54, 16, 44, 9, 26, 85, 72, 66, 95, 65, 43, 84]
  b := [86, 10, 14, 11, 38, 41, 94, 82, 97, 25, 96, 71, 44, 59, 93, 38, 57, 21, 84, 29]
  golden := [8514, 670, 546, 286, 2356, 574, 1598, 1476, 5238, 400, 4224, 639, 1144, 5015, 6696, 2508, 5415, 1365,
    3612, 2436]

/-- The number of results. -/
def length (d : Dataset) : Nat := d.golden.length

end Dataset

end TileOffload
