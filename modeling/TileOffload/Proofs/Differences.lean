import Mathlib.Data.Finset.Card
import Mathlib.Data.Finset.Range
import TileOffload.Verification

/-! # What verification finds

A mismatch is a place at which two vectors differ, the places beyond the end of one of them included. Main statement:
the number of mismatches is a distance between vectors of any lengths, so verification passes exactly when the output,
the expected results and the results of the host are one vector, and its total never hides a mismatch of the output. -/

namespace TileOffload

/-- The places at which two vectors differ: both have a word there and it is not the same, or only one has a word. -/
def differing (x y : List Word) : Finset Nat :=
  {i ∈ Finset.range (max x.length y.length) | x[i]? ≠ y[i]?}

/-- A count of differences that is a distance between vectors of any lengths, and at most the longer length. -/
structure IsDistance (count : List Word → List Word → Nat) : Prop where
  eq_zero_iff : ∀ x y, count x y = 0 ↔ x = y
  comm : ∀ x y, count x y = count y x
  le_max : ∀ x y, count x y ≤ max x.length y.length
  triangle : ∀ x y z, count x z ≤ count x y + count y z

/-! ### Places -/

section

variable {x y : List Word} {i : Nat}

theorem mem_differing : i ∈ differing x y ↔ x[i]? ≠ y[i]? := by
  rw [differing, Finset.mem_filter, Finset.mem_range, and_iff_right_iff_imp]
  intro hne
  by_contra hend
  rw [not_lt, max_le_iff] at hend
  exact hne ((List.getElem?_eq_none hend.1).trans (List.getElem?_eq_none hend.2).symm)

theorem differing_eq_empty_iff : differing x y = ∅ ↔ x = y := by
  simp only [Finset.eq_empty_iff_forall_notMem, mem_differing, not_not]
  exact ⟨List.ext_getElem?, fun h i => h ▸ rfl⟩

theorem differing_comm (x y : List Word) : differing x y = differing y x := by
  ext i
  simp only [mem_differing, ne_comm]

/-- Vectors that agree with a third at some place agree with each other there. -/
theorem differing_subset_union (x y z : List Word) : differing x z ⊆ differing x y ∪ differing y z := by
  intro i hi
  rw [Finset.mem_union, mem_differing, mem_differing]
  by_contra hagree
  rw [not_or, not_not, not_not] at hagree
  exact mem_differing.mp hi (hagree.1.trans hagree.2)

theorem differing_nil_left (y : List Word) : differing [] y = Finset.range y.length := by
  ext i
  simp [mem_differing]

theorem differing_nil_right (x : List Word) : differing x [] = Finset.range x.length := by
  rw [differing_comm, differing_nil_left]

theorem differing_cons (a b : Word) (x y : List Word) :
    differing (a :: x) (b :: y) =
      (if a = b then ∅ else {0}) ∪ (differing x y).map ⟨Nat.succ, Nat.succ_injective⟩ := by
  ext i
  cases i with
  | zero => by_cases hab : a = b <;> simp [mem_differing, hab]
  | succ i => by_cases hab : a = b <;> simp [mem_differing, hab]

end

/-! ### Their number -/

theorem mismatches_nil_left (y : List Word) : mismatches [] y = y.length := by simp [mismatches]

theorem mismatches_nil_right (x : List Word) : mismatches x [] = x.length := by simp [mismatches]

theorem mismatches_cons (a b : Word) (x y : List Word) :
    mismatches (a :: x) (b :: y) = (if a = b then 0 else 1) + mismatches x y := by
  by_cases hab : a = b
  · simp [mismatches, hab]
  · simp only [mismatches, List.zip_cons_cons, List.length_cons, bne_iff_ne, ne_eq, hab, not_false_eq_true,
      List.countP_cons_of_pos, if_false]
    omega

/-- Words that differ and words that one side lacks come to the places that differ. -/
theorem mismatches_eq_card (x y : List Word) : mismatches x y = (differing x y).card := by
  induction x generalizing y with
  | nil => rw [mismatches_nil_left, differing_nil_left, Finset.card_range]
  | cons a x ih =>
    cases y with
    | nil => rw [mismatches_nil_right, differing_nil_right, Finset.card_range]
    | cons b y =>
      rw [mismatches_cons, differing_cons, Finset.card_union_of_disjoint, Finset.card_map, ih]
      · split <;> rfl
      · split <;> simp [Finset.disjoint_left]

theorem isDistance_mismatches : IsDistance mismatches where
  eq_zero_iff x y := by rw [mismatches_eq_card, Finset.card_eq_zero, differing_eq_empty_iff]
  comm x y := by rw [mismatches_eq_card, mismatches_eq_card, differing_comm]
  le_max x y := by
    rw [mismatches_eq_card]
    exact (Finset.card_filter_le _ _).trans (Finset.card_range _).le
  triangle x y z := by
    simp only [mismatches_eq_card]
    exact (Finset.card_le_card (differing_subset_union x y z)).trans (Finset.card_union_le _ _)

/-! ### Verification -/

namespace Verification

theorem passed_iff {v : Verification} : v.passed = true ↔ v.device = 0 ∧ v.host = 0 := by
  rw [passed, beq_iff_eq, total, Nat.add_eq_zero_iff]

/-- Mismatches are the places at which two vectors differ, and a distance, whatever the lengths: verification passes
    exactly when the output is what is expected and that is what the host computes from the inputs, as far as both reach;
    and its total is no less than the mismatches between the output and the results of the host. -/
theorem passes_only_what_host_confirms :
    (∀ x y, mismatches x y = (differing x y).card) ∧ IsDistance mismatches ∧
      ∀ (output : List Word) (d : Dataset) (k : Kernel),
        ((check output d k).passed = true ↔ output = d.golden ∧ d.golden = List.zipWith k.reference d.a d.b) ∧
          mismatches output (List.zipWith k.reference d.a d.b) ≤ (check output d k).total := by
  refine ⟨mismatches_eq_card, isDistance_mismatches, fun output d k => ⟨?_, ?_⟩⟩
  · rw [passed_iff, check, isDistance_mismatches.eq_zero_iff, isDistance_mismatches.eq_zero_iff]
    exact and_congr_right fun _ => eq_comm
  · calc mismatches output (k.golden d.a d.b)
        ≤ mismatches output d.golden + mismatches d.golden (k.golden d.a d.b) := isDistance_mismatches.triangle ..
      _ = (check output d k).total := by rw [isDistance_mismatches.comm d.golden, total, check]

example : (check [7] ⟨[2, 3], [5], [10, 1]⟩ Kernel.mac).total = 3 := by decide

end Verification

end TileOffload
