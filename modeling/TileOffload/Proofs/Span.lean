import TileOffload.Size

/-! # Spans

Ranges of byte addresses, half open, with exact arithmetic: what is stored, read and moved is compared
through the spans it takes. -/

namespace TileOffload

/-- The `len` byte addresses from `start` on. -/
structure Span where
  start : Nat
  len : Nat
deriving DecidableEq, Repr

namespace Span

/-- The address just past the span. -/
def stop (s : Span) : Nat := s.start + s.len

/-- One span ends before the other begins. -/
def Apart (s t : Span) : Prop := s.stop ≤ t.start ∨ t.stop ≤ s.start

/-- The span lies inside another. -/
def Within (s t : Span) : Prop := t.start ≤ s.start ∧ s.stop ≤ t.stop

/-- The address is in the span. -/
def Contains (s : Span) (x : Nat) : Prop := s.start ≤ x ∧ x < s.stop

/-- The pieces make up the span: each begins where the one before it ends, and every address is in one piece. -/
structure CutInto (s : Span) (count : Nat) (piece : Nat → Span) : Prop where
  first : (piece 0).start = s.start
  next : ∀ i, i + 1 < count → (piece (i + 1)).start = (piece i).stop
  last : (piece (count - 1)).stop = s.stop
  within : ∀ i < count, (piece i).Within s
  unique : ∀ x, s.Contains x → ∃ i < count, (piece i).Contains x ∧ ∀ j < count, (piece j).Contains x → j = i

instance (s t : Span) : Decidable (s.Apart t) := inferInstanceAs (Decidable (_ ∨ _))

instance (s t : Span) : Decidable (s.Within t) := inferInstanceAs (Decidable (_ ∧ _))

variable {s t u v : Span}

theorem CutInto.congr {count : Nat} {piece piece' : Nat → Span} (h : s.CutInto count piece) (hcount : 0 < count)
    (heq : ∀ i < count, piece i = piece' i) : s.CutInto count piece' where
  first := heq 0 hcount ▸ h.first
  next i hi := heq (i + 1) hi ▸ heq i (Nat.lt_of_succ_lt hi) ▸ h.next i hi
  last := heq (count - 1) (Nat.sub_one_lt_of_lt hcount) ▸ h.last
  within i hi := heq i hi ▸ h.within i hi
  unique x hx := by
    obtain ⟨i, hi, hxi, honly⟩ := h.unique x hx
    exact ⟨i, hi, heq i hi ▸ hxi, fun j hj hxj => honly j hj (heq j hj ▸ hxj)⟩

theorem Apart.symm (h : s.Apart t) : t.Apart s := Or.symm h

theorem Within.refl (s : Span) : s.Within s := ⟨Nat.le_refl _, Nat.le_refl _⟩

theorem Within.trans (h : s.Within t) (h' : t.Within u) : s.Within u :=
  ⟨Nat.le_trans h'.1 h.1, Nat.le_trans h.2 h'.2⟩

theorem Apart.mono (h : s.Apart t) (hu : u.Within s) (hv : v.Within t) : u.Apart v := by
  rcases h with h | h
  · exact Or.inl (Nat.le_trans hu.2 (Nat.le_trans h hv.1))
  · exact Or.inr (Nat.le_trans hv.2 (Nat.le_trans h hu.1))

/-- Pieces of one length at different places of a row are apart. -/
theorem apart_pieces (base n : Nat) {i j : Nat} (h : i ≠ j) :
    Span.Apart ⟨base + i * n, n⟩ ⟨base + j * n, n⟩ := by
  have step : ∀ {k l : Nat}, k < l → base + k * n + n ≤ base + l * n := by
    intro k l hkl
    have := Nat.mul_le_mul_right n (Nat.succ_le_of_lt hkl)
    rw [Nat.succ_mul] at this
    omega
  rcases Nat.lt_or_gt_of_ne h with h | h
  · exact Or.inl (step h)
  · exact Or.inr (step h)

theorem piece_within (base n : Nat) {i count : Nat} (h : i < count) :
    Span.Within ⟨base + i * n, n⟩ ⟨base, count * n⟩ := by
  have := Nat.mul_le_mul_right n (Nat.succ_le_of_lt h)
  rw [Nat.succ_mul] at this
  constructor <;> simp only [stop] <;> omega

/-- A row of pieces of one length is cut into them. -/
theorem cutInto_pieces (base : Nat) {n count : Nat} (hn : 0 < n) (hcount : 0 < count) :
    Span.CutInto ⟨base, count * n⟩ count fun i => ⟨base + i * n, n⟩ where
  first := by rw [Nat.zero_mul, Nat.add_zero]
  next i _ := by rw [stop, Nat.succ_mul, Nat.add_assoc]
  last := by
    have := Nat.sub_one_mul count n
    have := Nat.mul_le_mul_right n hcount
    simp only [stop]
    omega
  within i hi := piece_within base n hi
  unique x hx := by
    obtain ⟨hle, hlt⟩ := hx
    simp only [stop] at hle hlt
    -- The piece of an address is told by its distance from the beginning.
    have hpiece : ∀ i, Span.Contains ⟨base + i * n, n⟩ x ↔ i = (x - base) / n := by
      intro i
      rw [eq_comm, Nat.div_eq_iff hn]
      simp only [Contains, stop]
      omega
    have hlt : (x - base) / n < count := (Nat.div_lt_iff_lt_mul hn).mpr (by omega)
    exact ⟨(x - base) / n, hlt, (hpiece _).mpr rfl, fun j _ hj => (hpiece j).mp hj⟩

end Span

end TileOffload
