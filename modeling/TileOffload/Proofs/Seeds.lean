import Mathlib.Logic.Function.Iterate
import TileOffload.Dataset

/-! # Seeds that stay apart

The generator of random elements turns a seed into its first state by mixing two counters, and goes from state to state
with each draw. Main statement: no seed comes to the state of zeros only, however many numbers are drawn, and two seeds
never come to one state by the same number of draws; for each step on the way is injective. -/

namespace TileOffload

/-! ### Moving and rotating bits -/

/-- From the top, each bit is told by its sum with a higher bit that is known already. -/
theorem injective_xor_shiftRight {w k : Nat} (hk : 0 < k) : Function.Injective fun x : BitVec w => x ^^^ x >>> k := by
  intro x y h
  have hbit : ∀ i, (x.getLsbD i ^^ x.getLsbD (k + i)) = (y.getLsbD i ^^ y.getLsbD (k + i)) := fun i => by
    simpa using congrArg (·.getLsbD i) h
  -- by induction on how far the place is from the top, beyond which both have no bits
  have htop : ∀ m i, w ≤ i + m → x.getLsbD i = y.getLsbD i := by
    intro m
    induction m with
    | zero =>
      intro i hi
      rw [BitVec.getLsbD_of_ge x i hi, BitVec.getLsbD_of_ge y i hi]
    | succ m ih =>
      intro i hi
      have hsum := hbit i
      rwa [ih (k + i) (by omega), Bool.xor_left_inj] at hsum
  exact BitVec.eq_of_getLsbD_eq fun i _ => htop w i (by omega)

/-- From the bottom, each bit is told by its sum with a lower bit that is known already. -/
theorem injective_xor_shiftLeft {w k : Nat} (hk : 0 < k) : Function.Injective fun x : BitVec w => x ^^^ x <<< k := by
  intro x y h
  refine BitVec.eq_of_getLsbD_eq fun i hi => ?_
  induction i using Nat.strongRecOn with
  | ind i ih =>
    have hsum := congrArg (·.getLsbD i) h
    simp only [BitVec.getLsbD_xor, BitVec.getLsbD_shiftLeft] at hsum
    by_cases hik : i < k
    · simpa [hik] using hsum
    · rwa [ih (i - k) (by omega) (by omega), Bool.xor_left_inj] at hsum

/-- The bit that has come to place `j` stood `k` places below, or as far from the top as `j` is from place `k`. -/
theorem injective_rotateLeft {w k : Nat} (hk : k < w) : Function.Injective fun x : BitVec w => x.rotateLeft k := by
  intro x y h
  have hbit : ∀ j, (x.rotateLeft k).getLsbD j = (y.rotateLeft k).getLsbD j := fun j => congrArg (·.getLsbD j) h
  simp only [BitVec.getLsbD_rotateLeft_of_le hk] at hbit
  refine BitVec.eq_of_getLsbD_eq fun i hi => ?_
  by_cases hlow : i + k < w
  · have hplace : ¬i + k < k := by omega
    simpa [hplace, hlow] using hbit (i + k)
  · have hplace : i + k - w < k ∧ w - k + (i + k - w) = i := by omega
    simpa [hplace] using hbit (i + k - w)

namespace Random

/-! ### Mixing and drawing -/

theorem injective_mixing {k : UInt64} (hk : 0 < (k % 64).toNat) : Function.Injective fun z : UInt64 => z ^^^ z >>> k := by
  intro x y h
  have hbits := congrArg UInt64.toBitVec h
  simp only [UInt64.toBitVec_xor, UInt64.toBitVec_shiftRight] at hbits
  exact UInt64.toBitVec_inj.mp (injective_xor_shiftRight hk hbits)

theorem injective_mul {c d : UInt64} (h : c * d = 1) : Function.Injective fun z : UInt64 => z * c :=
  Function.LeftInverse.injective (g := (· * d)) fun z => by simp only [UInt64.mul_assoc, h, UInt64.mul_one]

theorem mix_injective : Function.Injective mix := by
  -- the factors are odd, so each has an inverse among the words
  have hfirst : (0xbf58476d1ce4e5b9 : UInt64) * 0x96de1b173f119089 = 1 := by decide
  have hsecond : (0x94d049bb133111eb : UInt64) * 0x319642b2d24d8ec3 = 1 := by decide
  exact (injective_mixing (k := 31) (by decide)).comp <| (injective_mul hsecond).comp <|
    (injective_mixing (k := 27) (by decide)).comp <| (injective_mul hfirst).comp <| injective_mixing (k := 30) (by decide)

theorem rotateLeft_injective : Function.Injective fun w : Word => rotateLeft w 11 := fun _ _ h =>
  UInt32.toBitVec_inj.mp (injective_rotateLeft (k := 11) (by decide) (congrArg UInt32.toBitVec h))

/-- The words of a state are told one after another from the state after it: the last word gives the sum that was
    rotated, this gives the first word, and the second and third words together cancel what was added to both. -/
theorem next_injective : Function.Injective next := by
  intro s s' h
  simp only [next, Random.mk.injEq] at h
  obtain ⟨h₀, h₁, h₂, h₃⟩ := h
  have hrotated : s.s₃ ^^^ s.s₁ = s'.s₃ ^^^ s'.s₁ := rotateLeft_injective h₃
  have hs₀ : s.s₀ = s'.s₀ := by rwa [hrotated, UInt32.xor_left_inj] at h₀
  have hshifted : s.s₁ ^^^ s.s₁ <<< 9 = s'.s₁ ^^^ s'.s₁ <<< 9 := by
    have hcancel : ∀ x t u : Word, (x ^^^ t) ^^^ (t ^^^ u) = x ^^^ u := fun x t u => by
      rw [UInt32.xor_assoc, ← UInt32.xor_assoc t, UInt32.xor_self, UInt32.zero_xor]
    rw [← hcancel s.s₁, h₁, h₂, hcancel]
  have hs₁ : s.s₁ = s'.s₁ :=
    UInt32.toBitVec_inj.mp (injective_xor_shiftLeft (k := 9) (by decide) (congrArg UInt32.toBitVec hshifted))
  have hs₂ : s.s₂ = s'.s₂ := by rwa [hs₁, UInt32.xor_right_inj, hs₀, UInt32.xor_left_inj] at h₁
  have hs₃ : s.s₃ = s'.s₃ := by rwa [hs₁, UInt32.xor_left_inj] at hrotated
  cases s
  cases s'
  simp only [Random.mk.injEq]
  exact ⟨hs₀, hs₁, hs₂, hs₃⟩

theorem snd_draw (bound : Word) (n : Nat) (s : Random) : (draw bound n s).2 = next^[n] s := by
  suffices ∀ drawn, (draw.go bound n s drawn).2 = next^[n] s from this []
  induction n generalizing s with
  | zero => exact fun _ => rfl
  | succ n ih => exact fun drawn => ih s.next (s.below bound :: drawn)

/-! ### First states -/

/-- Two numbers of 64 bits as four words, the lower word of each first. -/
def ofHalves (lo hi : UInt64) : Random := ⟨lo.toUInt32, (lo >>> 32).toUInt32, hi.toUInt32, (hi >>> 32).toUInt32⟩

theorem ofHalves_inj {lo hi lo' hi' : UInt64} : ofHalves lo hi = ofHalves lo' hi' ↔ lo = lo' ∧ hi = hi' := by
  have hwords : ∀ x y : UInt64, x.toUInt32 = y.toUInt32 → (x >>> 32).toUInt32 = (y >>> 32).toUInt32 → x = y := by
    intro x y hlow hhigh
    rw [← UInt32.toNat_inj] at hlow hhigh
    rw [← UInt64.toNat_inj]
    simp only [UInt64.toNat_toUInt32, UInt64.toNat_shiftRight, Nat.shiftRight_eq_div_pow] at hlow hhigh
    change x.toNat / 2 ^ 32 % 2 ^ 32 = y.toNat / 2 ^ 32 % 2 ^ 32 at hhigh
    have hx := x.toNat_lt
    have hy := y.toNat_lt
    omega
  constructor
  · intro h
    simp only [ofHalves, Random.mk.injEq] at h
    exact ⟨hwords _ _ h.1 h.2.1, hwords _ _ h.2.2.1 h.2.2.2⟩
  · rintro ⟨rfl, rfl⟩
    rfl

/-- The two counters of a seed differ, so they are not both the one number that is mixed to zero. -/
theorem mixed_counters_ne_zero (seed : UInt64) :
    ofHalves (mix (seed + seedStep)) (mix (seed + seedStep + seedStep)) ≠ ⟨0, 0, 0, 0⟩ := by
  intro h
  have hzero : ofHalves (mix 0) (mix 0) = ⟨0, 0, 0, 0⟩ := by decide
  obtain ⟨hlo, hhi⟩ := ofHalves_inj.mp (h.trans hzero.symm)
  rw [mix_injective hlo, UInt64.zero_add] at hhi
  exact absurd (mix_injective hhi) (by decide)

theorem ofSeed_eq (seed : UInt64) :
    ofSeed seed = ofHalves (mix (seed + seedStep)) (mix (seed + seedStep + seedStep)) :=
  if_neg (mixed_counters_ne_zero seed)

theorem ofSeed_ne_zero (seed : UInt64) : ofSeed seed ≠ ⟨0, 0, 0, 0⟩ := ofSeed_eq seed ▸ mixed_counters_ne_zero seed

theorem ofSeed_injective : Function.Injective ofSeed := by
  intro seed seed' h
  rw [ofSeed_eq, ofSeed_eq, ofHalves_inj] at h
  exact UInt64.add_left_inj seedStep |>.mp (mix_injective h.1)

/-! ### Later states -/

/-- A state of zeros is left only from a state of zeros. -/
theorem iterate_next_ne_zero {s : Random} (h : s ≠ ⟨0, 0, 0, 0⟩) (n : Nat) : next^[n] s ≠ ⟨0, 0, 0, 0⟩ := by
  have hzero : next^[n] ⟨0, 0, 0, 0⟩ = ⟨0, 0, 0, 0⟩ := Function.iterate_fixed (by decide) n
  exact fun hs => h (next_injective.iterate n (hs.trans hzero.symm))

/-- No step from a seed to its later states loses anything: the state of zeros is neither put right at first nor met
    later, and two seeds never come to one state by the same number of draws. -/
theorem seeds_stay_apart :
    Function.Injective mix ∧ Function.Injective next ∧
      (∀ seed, ofSeed seed = ofHalves (mix (seed + seedStep)) (mix (seed + seedStep + seedStep))) ∧
      (∀ bound n s, (draw bound n s).2 = next^[n] s) ∧
      (∀ seed n, next^[n] (ofSeed seed) ≠ ⟨0, 0, 0, 0⟩) ∧
      ∀ seed seed' n, seed ≠ seed' → next^[n] (ofSeed seed) ≠ next^[n] (ofSeed seed') := by
  refine ⟨mix_injective, next_injective, ofSeed_eq, snd_draw, fun seed n => ?_, fun seed seed' n hne hsame => ?_⟩
  · exact iterate_next_ne_zero (ofSeed_ne_zero seed) n
  · exact hne (ofSeed_injective (next_injective.iterate n hsame))

/-- The first seed makes the first counter zero, so half of its first state is zeros. -/
theorem zero_counter_stays_apart : (0x61c8864680b583eb : UInt64) ≠ 0 ∧
    next^[3] (ofSeed 0x61c8864680b583eb) ≠ next^[3] (ofSeed 0) :=
  have hne : (0x61c8864680b583eb : UInt64) ≠ 0 := by decide
  ⟨hne, seeds_stay_apart.2.2.2.2.2 _ _ 3 hne⟩

end Random

end TileOffload
