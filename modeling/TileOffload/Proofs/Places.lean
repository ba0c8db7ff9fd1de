import TileOffload.Proofs.Completion
import TileOffload.Proofs.Foreseen

/-! # The places that a run uses

Main statement: in a run that goes well each unit does the jobs of its role with the places of the plan, and nothing else,
and the device is started with transactions that point at these places, whichever unit goes on at each moment. A dataset
that is one tile has the same places whatever the depth. -/

namespace TileOffload

namespace Kernel

end Kernel

theorem BufferDepth.slots_one (depth : BufferDepth) : depth.slots 1 = 1 := by
  cases depth <;> rfl

namespace TilePlan

theorem Accepted.inTcdm {p : TilePlan} {length : Nat} {config : PipelineConfig} {backing : Backing}
    (h : p.Accepted length config .tcdm backing) (l : Lane) :
    Chip.inTcdm (p.region l).addr (p.region l).len = true :=
  Chip.inTcdm_iff.mpr (h.region_within (Nat.le_of_lt (h.stop_lt (by decide))) l)

/-- The depth decides no place of a dataset that is one tile. -/
theorem make_whole (length : Nat) (config config' : PipelineConfig) (s : Scratchpad) (backing : Backing)
    (h : config.tileLength = length) (h' : config'.tileLength = length) :
    make length config' s backing = (make length config s backing).map ({ · with depth := config'.depth }) := by
  unfold make
  rw [h, h']
  rcases Nat.eq_zero_or_pos length with rfl | hpos
  · rfl
  · have hzero : ¬(length = 0 ∨ length = 0) := by omega
    have hmod : ¬length % length ≠ 0 := by simp
    have hsingle : ∀ depth : BufferDepth, ¬(depth = .single ∧ 1 < 1) := fun _ hx => Nat.lt_irrefl 1 hx.2
    simp only [if_neg hzero, if_neg hmod, Nat.div_self hpos, if_neg (hsingle _), BufferDepth.slots_one]
    -- The depth is kept in the plan, and no check that is left looks at it.
    iterate 9 refine bind_map fun _ => ?_
    rfl

end TilePlan

namespace Cluster

variable {c : Cluster} {d : Dataset} {b : Kernel.BuiltIn} {config : PipelineConfig} {token : CancelToken}
  {flags : CancelFlags} {backing : Backing} {bytes : Nat} {plan : TilePlan} {personality : Personality} {m : Memory}
  {moves : List Move} {s : Pipeline World}

theorem Placed.course (h : c.Placed d b.kernel config backing bytes plan personality m)
    (hmoves : Pipeline.follow? (World.hardware c.topology ⟨b.kernel, config.wait, c.clock⟩) moves
      (c.setUp d b.kernel config token flags plan personality m).pipeline = some s)
    {unit : Nat} (hunit : unit < c.topology.units) :
    ∃ w, s.workers[unit]? = some w ∧ w.Course plan plan.backTile unit (c.topology.roleOf unit) none
      (Pipeline.history (World.hardware c.topology ⟨b.kernel, config.wait, c.clock⟩)
        (Pipeline.deed? (World.hardware c.topology ⟨b.kernel, config.wait, c.clock⟩) unit) moves
        (c.setUp d b.kernel config token flags plan personality m).pipeline) := by
  let hardware := World.hardware c.topology ⟨b.kernel, config.wait, c.clock⟩
  -- Along the run the plan stays and the units keep step, which is what a course needs to go on.
  let Kept (s : Pipeline World) (deeds : List Deed) : Prop :=
    s.plan = plan ∧ (∃ visits, Pipeline.Lockstep s visits) ∧
      ∃ w, s.workers[unit]? = some w ∧ w.Course s.plan plan.backTile unit (c.topology.roleOf unit) none deeds
  have hkept := (Pipeline.reached_of_follow? (Pipeline.deed? hardware unit) hmoves).invariant (P := Kept) ?_ ?_
  · obtain ⟨hplan, -, hcourse⟩ := hkept
    rwa [hplan] at hcourse
  · have hcourse := Worker.course_create h.iterations_pos plan.backTile unit (c.topology.roleOf unit) (unit == c.topology.mover)
      (unit == c.topology.compute)
    rw [missing_unit] at hcourse
    exact ⟨rfl, ⟨[], Pipeline.Lockstep.create ..⟩, _, workers_setUp h.iterations_pos hunit, hcourse⟩
  · rintro s t deeds move ⟨rfl, ⟨visits, hl⟩, hcourse⟩ hm
    exact ⟨(Pipeline.move?_frame hm).1, ⟨_, hl.move move hm⟩, Pipeline.course_move hl (h.resolved _) hcourse hm⟩

/-- When the device of a run is about to be started, it holds the transaction of the tile that the compute unit has. -/
theorem Placed.launching (h : c.Placed d b.kernel config backing bytes plan personality m)
    (hmoves : Pipeline.follow? (World.hardware c.topology ⟨b.kernel, config.wait, c.clock⟩) moves
      (c.setUp d b.kernel config token flags plan personality m).pipeline = some s)
    {C : Worker} (hC : s.workers[c.topology.compute]? = some C) (hhealthy : C.failure = none)
    (hlaunching : s.world.phase = .launching) :
    ∃ t < plan.tiles, C.iteration = t + 1 ∧
      (∃ task rest, C.phase = .working task rest ∧ task.job = .compute (plan.slotTile t)) ∧
      ∃ desc, b.kernel.describe (plan.slotTile t) = .done desc ∧
        ∀ r ∈ desc.config, s.world.device.target.register r.register = r.value := by
  have hforeseen := h.foreseen hmoves
  have hattends := hforeseen.attended C hC hhealthy
  -- A device that is about to be started is not at rest, so a worker attends to it.
  have hrested : ¬s.world.Rested b ⟨b.kernel, config.wait, c.clock⟩ c.latency c.stuck := by
    rintro ⟨hidle, -⟩
    rw [hlaunching] at hidle
    cases hidle
  cases hphase : C.phase with
  | checking | raising | settling | waiting | finished =>
    rw [hphase] at hattends
    exact absurd hattends hrested
  | working task rest =>
    rw [hphase] at hattends
    rcases hforeseen.job h.resolved hC hphase with ⟨x, -, hne⟩ | ⟨t, ht, hi, hjob, -⟩
    · exact absurd rfl hne
    · have hin := (hattends _ hjob).inPhase
      simp only [hlaunching] at hin
      exact ⟨t, ht, hi, ⟨task, rest, rfl, hjob⟩, hin.2⟩

end Cluster

end TileOffload
