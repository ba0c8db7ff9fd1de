/-! # Sizes

Lengths, counts and byte sizes are natural numbers below `2 ^ 64`; addresses, register numbers and data
words are 32-bit words. A sum or product of sizes that does not fit is refused where it is checked, and
loses what is above 64 bits where it is not. -/

namespace TileOffload

/-- A data word, a register value or a bus address. -/
abbrev Word := UInt32

namespace Size

/-- Sizes stay below this bound. -/
def limit : Nat := 0x10000000000000000

/-- The largest size. -/
def largest : Nat := limit - 1

/-- What is left of a sum that is not checked. -/
def wrap (n : Nat) : Nat := n % limit

/-- The sum of two sizes, if it is a size. -/
def add? (m n : Nat) : Option Nat :=
  if m + n < limit then some (m + n) else none

/-- The product of two sizes, if it is a size. -/
def mul? (m n : Nat) : Option Nat :=
  if m * n < limit then some (m * n) else none

/-- The least multiple of `align` that is at least `n`, if the search for it stays within sizes. -/
def alignUp? (n align : Nat) : Option Nat :=
  (add? n (align - 1)).map fun m => m / align * align

theorem wrap_of_lt {n : Nat} (h : n < limit) : wrap n = n := Nat.mod_eq_of_lt h

theorem wrap_le (n : Nat) : wrap n ≤ n := Nat.mod_le n limit

theorem add?_eq_some {m n k : Nat} : add? m n = some k ↔ m + n = k ∧ k < limit := by
  unfold add?
  split <;> simp <;> omega

theorem mul?_eq_some {m n k : Nat} : mul? m n = some k ↔ m * n = k ∧ k < limit := by
  unfold mul?
  split
  · simp only [Option.some.injEq]
    exact ⟨fun h => ⟨h, h ▸ ‹_›⟩, fun h => h.1⟩
  · simp only [reduceCtorEq, false_iff, not_and]
    rintro rfl
    assumption

end Size

/-- Addresses stay below this bound. -/
def addressLimit : Nat := 0x100000000

/-- The size as a word, if it fits. -/
def Word.ofSize? (n : Nat) : Option Word :=
  if n < addressLimit then some (UInt32.ofNat n) else none

theorem Word.ofSize?_eq_some {n : Nat} {w : Word} : Word.ofSize? n = some w ↔ n = w.toNat := by
  unfold Word.ofSize? addressLimit
  constructor
  · intro h
    split at h
    · simp only [Option.some.injEq] at h
      subst h
      simp only [UInt32.toNat_ofNat']
      omega
    · cases h
  · rintro rfl
    have := w.toNat_lt
    simp [this]

end TileOffload
