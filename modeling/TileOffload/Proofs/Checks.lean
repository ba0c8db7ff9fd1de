import TileOffload.Error

/-! # Chains of checks

A chain of checks succeeds when every check in it does; so a success is taken apart check by check. -/

namespace TileOffload

variable {α β : Type}

theorem bind_eq_ok {x : Except Error α} {f : α → Except Error β} {b : β} :
    (x >>= f) = .ok b ↔ ∃ a, x = .ok a ∧ f a = .ok b := by
  cases x with
  | error e => simp [bind, Except.bind]
  | ok a => simp [bind, Except.bind]

/-- A chain fails with the first check in it that does. -/
theorem bind_eq_error {x : Except Error α} {f : α → Except Error β} {e : Error} :
    (x >>= f) = .error e ↔ x = .error e ∨ ∃ a, x = .ok a ∧ f a = .error e := by
  cases x with
  | error e' => simp [bind, Except.bind]
  | ok a => simp [bind, Except.bind]

theorem unless_eq_ok {c : Prop} [Decidable c] {e : Error} {f : PUnit → Except Error β} {x : Except Error β} {b : β} :
    (if c then throw e >>= f else x) = .ok b ↔ ¬c ∧ x = .ok b := by
  split
  · rename_i h
    simp only [h, not_true_eq_false, false_and, iff_false]
    exact fun h => by cases h
  · rename_i h
    simp [h]

theorem unless_eq_error {c : Prop} [Decidable c] {e e' : Error} {f : PUnit → Except Error β} {x : Except Error β} :
    (if c then throw e >>= f else x) = .error e' ↔ c ∧ e = e' ∨ ¬c ∧ x = .error e' := by
  split
  · rename_i h
    simp only [h, true_and, not_true_eq_false, false_and, or_false]
    exact ⟨fun h => by cases h; rfl, fun h => h ▸ rfl⟩
  · rename_i h
    simp [h]

theorem pure_eq_ok {a b : α} : (pure a : Except Error α) = .ok b ↔ a = b :=
  ⟨fun h => by cases h; rfl, fun h => h ▸ rfl⟩

theorem bind_map {α β γ : Type} {f : β → γ} {x : Except Error α} {g : α → Except Error β} {g' : α → Except Error γ}
    (h : ∀ a, g' a = (g a).map f) : (x >>= g') = (x >>= g).map f := by
  cases x with
  | error e => rfl
  | ok a => exact h a

end TileOffload
