import TileOffload.Worker
import TileOffload.Proofs.Placement

/-! # Hazards

In one iteration three tiles are in the scratchpad at once: one is loaded, the one before it computed, and
the one before that stored. Main statement: of an accepted plan the three never touch the same byte, and
what a tile has in its slots stays there until the next stage of the tile has taken it. -/

namespace TileOffload

/-- The addresses that a stage of a tile touches, given the slots of the tile: a load fills the slots of
    both inputs, a computation reads them and fills the slot of the output, a store reads that. -/
def Stage.spans : Stage → Tile → List Span
  | load, t => [t.span .a, t.span .b]
  | compute, t => [t.span .a, t.span .b, t.span .o]
  | store, t => [t.span .o]

/-- The addresses of the scratchpad that a task of a stage touches: a load its destination, a store its source, and
    a computation all slots of its tile. -/
def Task.touches (task : Task) (stage : Stage) : List Span :=
  match stage, task.job with
  | .load, .transfer x => [⟨x.dst.toNat, x.len⟩]
  | .compute, .compute tile => [tile.span .a, tile.span .b, tile.span .o]
  | .store, .transfer x => [⟨x.src.toNat, x.len⟩]
  | _, _ => []

namespace TilePlan

/-- The tasks of a stage of a tile. -/
def stageTasks (p : TilePlan) : Stage → Nat → List Task
  | .load => p.loadTasks
  | .compute => p.computeTasks
  | .store => p.storeTasks

/-- The addresses of the scratchpad that a stage touches when it has the given tile. -/
def stageSpans (p : TilePlan) (stage : Stage) : Option Nat → List Span
  | none => []
  | some t =>
    match p.scratchpadTile t with
    | .ok tile => stage.spans tile
    | .error _ => []

/-- The addresses of the scratchpad that the stages of an iteration touch. -/
def spansAt (p : TilePlan) (i : Nat) : List Span :=
  p.stageSpans .load (p.stages i).load ++ p.stageSpans .compute (p.stages i).compute ++
    p.stageSpans .store (p.stages i).store

variable {p : TilePlan}

theorem load_stages {i t : Nat} : (p.stages i).load = some t ↔ i = t ∧ t < p.tiles := by
  simp only [stages, Stages.at]
  split <;> simp <;> omega

theorem compute_stages {i t : Nat} : (p.stages i).compute = some t ↔ i = t + 1 ∧ t < p.tiles := by
  simp only [stages, Stages.at]
  split <;> simp <;> omega

theorem tile_of_store {i t : Nat} (h : (p.stages i).store = some t) : i = t + 2 ∧ t < p.tiles := by
  have hle := Size.wrap_le (p.tiles + 2)
  simp only [stages, Stages.at] at h
  split at h <;> simp at h
  omega

theorem mem_stageSpans {stage : Stage} {tile : Option Nat} {x : Span} (h : x ∈ p.stageSpans stage tile) :
    ∃ t, tile = some t ∧ x ∈ stage.spans (p.slotTile t) := by
  cases tile with
  | none => cases h
  | some t =>
    simp only [stageSpans] at h
    split at h
    · rename_i T hT
      exact ⟨t, rfl, (scratchpadTile_eq_ok hT).2 ▸ h⟩
    · cases h

theorem stageSpans_eq {stage : Stage} {t : Nat} {T : Tile} (h : p.scratchpadTile t = .ok T) :
    p.stageSpans stage (some t) = stage.spans T := by
  simp only [stageSpans, h]

theorem touches_subset (p : TilePlan) (stage : Stage) (t : Nat) :
    ∀ task ∈ p.stageTasks stage t, task.touches stage ⊆ p.stageSpans stage (some t) := by
  intro task htask x hx
  cases stage with
  | load =>
    simp only [stageTasks, loadTasks] at htask
    split at htask
    · rename_i T _ hT _
      rw [stageSpans_eq hT]
      simp only [List.mem_cons, List.not_mem_nil, or_false] at htask
      rcases htask with rfl | rfl
      · exact List.mem_cons.mpr (Or.inl (List.mem_singleton.mp hx))
      · exact List.mem_cons_of_mem _ hx
    · obtain rfl := List.mem_singleton.mp htask
      cases hx
    · obtain rfl := List.mem_singleton.mp htask
      cases hx
  | compute =>
    simp only [stageTasks, computeTasks] at htask
    split at htask
    · rename_i T hT
      obtain rfl := List.mem_singleton.mp htask
      rwa [stageSpans_eq hT]
    · obtain rfl := List.mem_singleton.mp htask
      cases hx
  | store =>
    simp only [stageTasks, storeTasks] at htask
    split at htask
    · rename_i T _ hT _
      obtain rfl := List.mem_singleton.mp htask
      rwa [stageSpans_eq hT]
    · obtain rfl := List.mem_singleton.mp htask
      cases hx
    · obtain rfl := List.mem_singleton.mp htask
      cases hx

/-! ### No two of them meet -/

namespace Accepted

variable {length : Nat} {config : PipelineConfig} {s : Scratchpad} {backing : Backing}

theorem stage_pairwise (h : p.Accepted length config s backing) (hp : p.stop ≤ addressLimit) (stage : Stage)
    (tile : Option Nat) :
    (p.stageSpans stage tile).Pairwise Span.Apart := by
  cases tile with
  | none => exact .nil
  | some t =>
    simp only [stageSpans]
    split
    · rename_i T hT
      obtain ⟨-, rfl⟩ := scratchpadTile_eq_ok hT
      have hl := fun {l k : Lane} (hne : l ≠ k) => h.lanes_apart hp t t hne
      cases stage <;> simp [Stage.spans, hl]
    · exact .nil

theorem next_stage_apart (h : p.Accepted length config s backing) (hp : p.stop ≤ addressLimit) {t : Nat}
    (ht : t + 1 < p.tiles) {st st' : Stage} {x y : Span} (hx : x ∈ st.spans (p.slotTile (t + 1))) (hy : y ∈ st'.spans (p.slotTile t)) : x.Apart y := by
  have lane : ∀ {st : Stage} {T : Tile} {z : Span}, z ∈ st.spans T → ∃ l, z = T.span l := by
    intro st T z hz
    cases st <;> simp only [Stage.spans, List.mem_cons, List.not_mem_nil, or_false] at hz
    · rcases hz with rfl | rfl
      · exact ⟨.a, rfl⟩
      · exact ⟨.b, rfl⟩
    · rcases hz with rfl | rfl | rfl
      · exact ⟨.a, rfl⟩
      · exact ⟨.b, rfl⟩
      · exact ⟨.o, rfl⟩
    · exact ⟨.o, hz⟩
  obtain ⟨l, rfl⟩ := lane hx
  obtain ⟨k, rfl⟩ := lane hy
  exact h.next_apart hp ht l k

theorem spansAt_pairwise (h : p.Accepted length config s backing) (hp : p.stop ≤ addressLimit) (i : Nat) :
    (p.spansAt i).Pairwise Span.Apart := by
  refine List.pairwise_append.mpr ⟨List.pairwise_append.mpr ⟨h.stage_pairwise hp _ _, h.stage_pairwise hp _ _, ?_⟩,
    h.stage_pairwise hp _ _, ?_⟩
  · intro x hx y hy
    obtain ⟨t, ht, hx'⟩ := mem_stageSpans hx
    obtain ⟨u, hu, hy'⟩ := mem_stageSpans hy
    obtain ⟨rfl, hlt⟩ := load_stages.mp ht
    obtain ⟨rfl, -⟩ := compute_stages.mp hu
    exact h.next_stage_apart hp hlt hx' hy'
  · intro x hx y hy
    obtain ⟨v, hv, hy'⟩ := mem_stageSpans hy
    obtain ⟨rfl, -⟩ := tile_of_store hv
    rcases List.mem_append.mp hx with hx | hx
    · -- A load and a store touch different operands, whatever the tiles.
      obtain ⟨t, -, hx'⟩ := mem_stageSpans hx
      simp only [Stage.spans, List.mem_cons, List.not_mem_nil, or_false] at hx' hy'
      subst hy'
      rcases hx' with rfl | rfl <;> exact h.lanes_apart hp _ _ (by decide)
    · obtain ⟨u, hu, hx'⟩ := mem_stageSpans hx
      obtain ⟨hi, hlt⟩ := compute_stages.mp hu
      obtain rfl : u = v + 1 := by omega
      exact h.next_stage_apart hp hlt hx' hy'

/-- The plan ends inside the address space exactly if all its slots have their exact addresses and end there. -/
theorem stop_le_iff (h : p.Accepted length config s backing) :
    p.stop ≤ addressLimit ↔ ∀ t < p.tiles, ∀ T, p.scratchpadTile t = .ok T → ∀ l,
      (T.addr l).toNat = s.base.toNat + (p.region l).offset + t % p.slots * p.tileBytes ∧
        (T.span l).stop ≤ addressLimit := by
  constructor
  · intro hp t _ T hT l
    obtain ⟨-, rfl⟩ := scratchpadTile_eq_ok hT
    have hslot := h.slot_end_le t l
    have hend := h.region_end_le_stop l
    rw [addr_slotTile, h.span_slotTile hp, Span.stop]
    exact ⟨h.toNat_slotWord hp t l, by dsimp only; omega⟩
  · -- The last slot of the output ends where the plan does.
    intro hall
    have hpos := h.slots_pos
    have hlast : p.slots - 1 < p.tiles := Nat.lt_of_lt_of_le (Nat.sub_one_lt (by omega)) h.slots_le_tiles
    obtain ⟨haddr, hstop⟩ := hall _ hlast _ (h.scratchpadTile_eq hlast) .o
    have hslot : (p.slots - 1) % p.slots * p.tileBytes + p.tileBytes = (p.region .o).len := by
      rw [Nat.mod_eq_of_lt (Nat.sub_one_lt (by omega)), ← Nat.succ_mul, Nat.succ_eq_add_one, Nat.sub_add_cancel hpos,
        h.len_eq]
    have hbase := h.base_eq .o
    simp only [Tile.span, Span.stop, haddr, bytes_slotTile] at hstop
    rw [region] at *
    rw [stop, hbase, Region.endOffset]
    omega

end Accepted

/-- What an accepted plan promises about the scratchpad. Every tile has slots. They have exact addresses exactly if the plan
    ends inside the address space, which it does if the sum of the scratchpad's base and size is a size. Then they lie
    inside the regions of their operands and the scratchpad; two slots are the same if they are for the same operand
    and the slot numbers agree, and apart otherwise. So the stages of an iteration, whose tasks touch the
    slots of their tiles only, touch different addresses, no load falls into the input slots of a tile between
    its own load and its computation, and no computation into its output slot between its own computation and
    its store. -/
theorem slots_hazard_free {length : Nat} {config : PipelineConfig} {s : Scratchpad} {backing : Backing}
    (h : make length config s backing = .ok p) :
    (s.base.toNat + s.capacity < Size.limit → p.stop ≤ addressLimit) ∧
    (∀ t < p.tiles, ∃ T, p.scratchpadTile t = .ok T) ∧
    (p.stop ≤ addressLimit ↔ ∀ t < p.tiles, ∀ T, p.scratchpadTile t = .ok T → ∀ l,
      (T.addr l).toNat = s.base.toNat + (p.region l).offset + t % p.slots * p.tileBytes ∧
        (T.span l).stop ≤ addressLimit) ∧
    (∀ stage t, ∀ task ∈ p.stageTasks stage t, task.touches stage ⊆ p.stageSpans stage (some t)) ∧
    (p.stop ≤ addressLimit →
      (∀ t T, p.scratchpadTile t = .ok T → ∀ l,
        (T.span l).len = p.tileBytes ∧ (T.span l).Within (p.region l).span ∧ (T.span l).Within s.span) ∧
      (∀ t u T U, p.scratchpadTile t = .ok T → p.scratchpadTile u = .ok U →
        (∀ l k, l ≠ k → (T.span l).Apart (U.span k)) ∧
        ∀ l, (t % p.slots = u % p.slots → T.span l = U.span l) ∧
          (t % p.slots ≠ u % p.slots → (T.span l).Apart (U.span l))) ∧
      (∀ i, (p.spansAt i).Pairwise Span.Apart) ∧
      (∀ i j k t u T U, (p.stages i).load = some t → (p.stages k).compute = some t → i < j → j ≤ k →
        (p.stages j).load = some u → p.scratchpadTile t = .ok T → p.scratchpadTile u = .ok U →
        ∀ l m, l ≠ .o → m ≠ .o → (T.span l).Apart (U.span m)) ∧
      ∀ i j k t u T U, (p.stages i).compute = some t → (p.stages k).store = some t → i < j → j ≤ k →
        (p.stages j).compute = some u → p.scratchpadTile t = .ok T → p.scratchpadTile u = .ok U →
        (T.span .o).Apart (U.span .o)) := by
  have acc := accepted_of_make h
  refine ⟨fun hs => Nat.le_of_lt (acc.stop_lt (s.end_lt_of_lt hs)), fun t ht => ⟨_, acc.scratchpadTile_eq ht⟩,
    acc.stop_le_iff, p.touches_subset, fun hp => ⟨?_, ?_, acc.spansAt_pairwise hp, ?_, ?_⟩⟩
  · intro t T hT l
    obtain ⟨-, rfl⟩ := scratchpadTile_eq_ok hT
    exact ⟨rfl, acc.slot_within hp t l, (acc.slot_within hp t l).trans (acc.region_within hp l)⟩
  · intro t u T U hT hU
    obtain ⟨-, rfl⟩ := scratchpadTile_eq_ok hT
    obtain ⟨-, rfl⟩ := scratchpadTile_eq_ok hU
    exact ⟨fun l k hne => acc.lanes_apart hp t u hne, fun l => ⟨(slots_shared · l), (acc.slots_apart hp · l)⟩⟩
  · intro i j k t u T U hi hk hij hjk hj hT hU l m _ _
    obtain ⟨-, rfl⟩ := scratchpadTile_eq_ok hT
    obtain ⟨hu, rfl⟩ := scratchpadTile_eq_ok hU
    obtain ⟨rfl, -⟩ := load_stages.mp hi
    obtain ⟨rfl, -⟩ := compute_stages.mp hk
    obtain ⟨rfl, -⟩ := load_stages.mp hj
    obtain rfl : j = i + 1 := by omega
    exact (acc.next_apart hp hu m l).symm
  · intro i j k t u T U hi hk hij hjk hj hT hU
    obtain ⟨-, rfl⟩ := scratchpadTile_eq_ok hT
    obtain ⟨hu, rfl⟩ := scratchpadTile_eq_ok hU
    obtain ⟨rfl, -⟩ := compute_stages.mp hi
    obtain ⟨rfl, -⟩ := tile_of_store hk
    obtain ⟨rfl, -⟩ := compute_stages.mp hj
    obtain rfl : u = t + 1 := by omega
    exact (acc.next_apart hp hu .o .o).symm

/-- Five tiles of four elements in the scratchpad of the chip, double buffered. -/
theorem twenty_by_four_hazard_free :
    ∃ p, make 20 (.tiled 4) .tcdm ⟨Chip.backingBase, Chip.backingBase + 80, Chip.backingBase + 160⟩ = .ok p ∧
      p.tiles = 5 ∧ p.slots = 2 ∧ p.stop ≤ addressLimit ∧ (∀ t < 5, ∃ T, p.scratchpadTile t = .ok T) ∧
      ∀ i, (p.spansAt i).Pairwise Span.Apart := by
  have hmake : ∃ p, make 20 (.tiled 4) .tcdm ⟨Chip.backingBase, Chip.backingBase + 80, Chip.backingBase + 160⟩ = .ok p ∧
      p.tiles = 5 ∧ p.slots = 2 := ⟨_, rfl, rfl, rfl⟩
  obtain ⟨p, hp, ht, hs⟩ := hmake
  obtain ⟨hend, hplaced, -, -, hfree⟩ := slots_hazard_free hp
  have hstop := hend (by decide)
  exact ⟨p, hp, ht, hs, hstop, fun t hlt => hplaced t (by omega), (hfree hstop).2.2.1⟩

/-- In a scratchpad whose end has left 64 bits a plan is accepted whose tiles take as many bytes as there are addresses:
    all operands of both tiles begin at address 8 and run past the end. -/
theorem overlong_slots_meet :
    Scratchpad.make 8 Size.largest 8 = .ok .overlong ∧
    ∃ p, make 0x80000000 (.tiled 0x40000000) .overlong ⟨Chip.backingBase, Chip.backingBase, Chip.backingBase⟩ = .ok p ∧
      p.tiles = 2 ∧ (∀ t < 2, ∃ T, p.scratchpadTile t = .ok T ∧ ∀ l, T.addr l = 8 ∧ addressLimit < (T.span l).stop) ∧
      ¬(p.spansAt 1).Pairwise Span.Apart := by
  refine ⟨Scratchpad.make_overlong, _, rfl, rfl, fun t ht => ?_, by decide +kernel⟩
  have hslot : t = 0 ∨ t = 1 := by omega
  rcases hslot with rfl | rfl
  · exact ⟨_, rfl, fun l => by cases l <;> exact ⟨rfl, by decide +kernel⟩⟩
  · exact ⟨_, rfl, fun l => by cases l <;> exact ⟨rfl, by decide +kernel⟩⟩

end TilePlan

end TileOffload
