import TileOffload.Proofs.Service
import TileOffload.Proofs.StagingRun

/-! # Progress

What a step of each unit is, and what it leaves to do. Main statement: whichever unit takes the next step of a run,
and whatever has failed before, there is less to do afterwards, as long as every part of the work for a tile leaves
less of it. -/

namespace TileOffload

/-! ### What is left to do -/

/-- The parts that are left of the landing of what has been started. -/
def World.toLand (w : World) : Nat :=
  match w.landing with
  | none => w.queue.pending.length + 1
  | some rest => rest.length

/-- The steps a unit has in one iteration, at most, when the device stays busy for `L` polls. -/
def TilePlan.stride (L : Nat) : Nat := L + Kernel.longest + 13

/-- The steps that are left to a unit, at most. -/
def Worker.stepsLeft (p : TilePlan) (L : Nat) (world : World) (w : Worker) : Nat :=
  (p.iterations - w.iteration) * TilePlan.stride L +
    match w.phase, w.report.role with
    | .checking, _ => TilePlan.stride L
    | .working _ rest, .dataMover => 2 * rest.length + world.toLand + 4
    | .working _ _, .compute => world.phase.left L + 4
    | .raising, _ => 3
    | .settling, .dataMover => world.toLand + 2
    | .settling, _ => 2
    | .waiting, _ => 1
    | _, _ => 0

/-- The steps that are left to all units, at most. -/
def Pipeline.stepsLeft (p : TilePlan) (L : Nat) (s : Pipeline World) : Nat :=
  (s.workers.map (Worker.stepsLeft p L s.world)).sum

variable {p : TilePlan} {L : Nat} {world world' : World}

namespace Worker

variable {w : Worker}

/-- What is left to a unit depends on what its role has in hand. -/
theorem stepsLeft_congr (hmover : w.report.role = .dataMover → world'.toLand = world.toLand)
    (hcompute : w.report.role = .compute → world'.phase = world.phase) :
    w.stepsLeft p L world' = w.stepsLeft p L world := by
  unfold stepsLeft
  cases hrole : w.report.role with
  | dataMover =>
    rw [hmover hrole]
    cases w.phase <;> rfl
  | compute =>
    rw [hcompute hrole]
    cases w.phase <;> rfl
  | idle => cases w.phase <;> rfl

theorem stepsLeft_proceed_mover (hrole : w.report.role = .dataMover) (tasks : List Task) :
    (w.proceed tasks).stepsLeft p L world =
      (p.iterations - w.iteration) * TilePlan.stride L + (2 * tasks.length + world.toLand + 2) := by
  cases tasks with
  | nil =>
    simp only [stepsLeft, proceed, hrole, List.length_nil]
    omega
  | cons task rest =>
    simp only [stepsLeft, proceed, hrole, List.length_cons]
    omega

/-- A unit that stops at its look at the token, or finds nothing to do. -/
theorem stepsLeft_settled {failure : Option Error} (hp : w.phase = .checking)
    (hland : w.report.role = .dataMover → world.toLand + 2 < TilePlan.stride L) :
    Worker.stepsLeft p L world { w with failure, phase := .settling } < w.stepsLeft p L world := by
  have hstride : 2 < TilePlan.stride L := by
    rw [TilePlan.stride]
    omega
  simp only [stepsLeft, hp]
  cases hrole : w.report.role with
  | dataMover => exact Nat.add_lt_add_left (hland hrole) _
  | compute => exact Nat.add_lt_add_left hstride _
  | idle => exact Nat.add_lt_add_left hstride _

theorem stepsLeft_raised (hp : w.phase = .raising) (hrole : w.report.role ≠ .dataMover) :
    Worker.stepsLeft p L world { w with phase := .settling } < w.stepsLeft p L world := by
  simp only [stepsLeft, hp]
  cases hr : w.report.role with
  | dataMover => exact absurd hr hrole
  | compute => exact Nat.lt_succ_self _
  | idle => exact Nat.lt_succ_self _

theorem stepsLeft_arrived (hp : w.phase = .settling) :
    Worker.stepsLeft p L world' { w with phase := .waiting } < w.stepsLeft p L world := by
  simp only [stepsLeft, hp]
  cases w.report.role <;> simp only <;> omega

theorem stepsLeft_passed (hp : w.phase = .waiting)
    (hland : w.failure ≠ none → w.report.role = .dataMover → world'.toLand + 2 ≤ TilePlan.stride L)
    (hi : w.iteration < p.iterations) : (w.passed p).stepsLeft p L world' < w.stepsLeft p L world := by
  have hsplit : p.iterations - w.iteration = (p.iterations - (w.iteration + 1)) + 1 := by omega
  have hmul : (p.iterations - w.iteration) * TilePlan.stride L =
      (p.iterations - (w.iteration + 1)) * TilePlan.stride L + TilePlan.stride L := by rw [hsplit, Nat.succ_mul]
  unfold stepsLeft
  rw [hmul, hp, passed]
  dsimp only
  by_cases hlast : p.iterations ≤ w.iteration + 1
  · simp only [hlast, if_true]
    omega
  · simp only [hlast, if_false]
    cases hfail : w.failure with
    | none =>
      simp only [Option.isSome_none, Bool.false_eq_true, if_false]
      omega
    | some e =>
      have hwide := hland (by simp [hfail])
      have hstride : 2 ≤ TilePlan.stride L := by
        rw [TilePlan.stride]
        omega
      simp only [Option.isSome_some, if_true]
      cases hrole : w.report.role with
      | dataMover =>
        have := hwide hrole
        simp only
        omega
      | compute => simp only; omega
      | idle => simp only; omega

end Worker

theorem Worker.proceed_ne_raising (w : Worker) (tasks : List Task) : (w.proceed tasks).phase ≠ .raising := by
  cases tasks <;> nofun

theorem Worker.passed_ne_raising (w : Worker) (p : TilePlan) : (w.passed p).phase ≠ .raising := by
  unfold passed
  dsimp only
  split
  · nofun
  · split <;> nofun

/-! ### What is done -/

namespace Worker

variable {bytes t : Nat} {w : Worker}

/-- The tiles that the compute unit is through with. -/
def through (p : TilePlan) (w : Worker) : Nat :=
  min p.tiles (match w.phase with
    | .settling | .waiting => w.iteration
    | _ => w.iteration - 1)

theorem through_checked (hs : p.Sited bytes) (hrole : w.report.role = .compute) (hp : w.phase = .checking) :
    (w.checked p false).through p = w.through p := by
  rw [Worker.checked, if_neg (by decide), hrole, hs.tasks_compute]
  split
  · simp only [through, proceed, hp]
  · simp only [through, proceed, hp]
    omega

theorem through_working {task : Task} (hp : w.phase = .working task []) (ht : t < p.tiles) (hi : w.iteration = t + 1) :
    w.through p = t := by
  simp only [through, hp]
  omega

/-- The unit is through with one tile more once the work for the tile has ended well. -/
theorem through_done (ht : t < p.tiles) (hi : w.iteration = t + 1) (task : Task) (polls : Nat) :
    (w.ended task [] (.done polls)).through p = t + 1 := by
  simp only [through, ended, proceed, (record_kept w task.completes polls).2.2.1]
  omega

theorem through_arrived (hp : w.phase = .settling) : through p { w with phase := .waiting } = w.through p := by
  simp only [through, hp]

theorem through_passed (hp : w.phase = .waiting) (hfail : w.failure = none) : (w.passed p).through p = w.through p := by
  unfold through passed
  simp only [hp, hfail, Option.isSome_none, Bool.false_eq_true, if_false]
  by_cases hlast : p.iterations ≤ w.iteration + 1
  · simp only [hlast, if_true, Nat.add_sub_cancel]
  · simp only [hlast, if_false, Nat.add_sub_cancel]

end Worker

namespace TilePlan

variable {d : Dataset} {k : Kernel} {b : Kernel.BuiltIn} {bytes : Nat} {m₀ : Memory} {M C M' C' : Worker}
  {raised raised' : Bool} {w w' : World} {log : List StagingEvent}

theorem length_legs_le (p : TilePlan) (i : Nat) : (p.legs i).length ≤ 3 := by
  simp only [legs, List.length_append]
  split <;> split <;> simp

theorem Moving.toLand (h : Moving p d k M w log) (hp : M.phase = .checking ∨ M.phase = .waiting ∨ M.phase = .finished) :
    w.toLand = 1 := by
  obtain ⟨hl, hq⟩ := h.quiet hp
  rw [World.toLand, hl, hq]
  rfl

theorem MoverStep.fewer (hs : p.Sited bytes) (hrole : M.report.role = .dataMover) (hmoving : Moving p d k M w log)
    (hi : M.phase = .waiting → M.iteration < p.iterations) {e : Option StagingEvent}
    (h : p.MoverStep M raised w M' w' e) : M'.stepsLeft p L w' < M.stepsLeft p L w := by
  cases h with
  | checked phase =>
    have hland := hmoving.toLand (Or.inl phase)
    unfold Worker.checked
    split
    · refine Worker.stepsLeft_settled phase fun _ => ?_
      rw [hland, stride]
      omega
    · have hle := p.length_legs_le M.iteration
      rw [hrole, hs.tasks_mover, Worker.stepsLeft_proceed_mover hrole, hland, List.length_map]
      simp only [Worker.stepsLeft, phase, stride]
      omega
  | @started task rest x phase job =>
    obtain ⟨hl, -⟩ := hmoving.starting task rest phase
    obtain ⟨-, hrole', hiter, -, -⟩ := Worker.record_kept M task.completes 0
    rw [Worker.stepsLeft_proceed_mover (hrole'.trans hrole), hiter, Worker.stepsLeft, phase, hrole]
    simp only [World.toLand, hl, List.length_append, List.length_singleton]
    omega
  | took phase landing =>
    simp only [Worker.stepsLeft, phase, hrole, World.toLand, landing]
    omega
  | landed phase landing copied =>
    simp only [Worker.stepsLeft, phase, hrole, World.toLand, landing, List.length_cons]
    omega
  | arrived phase landing => exact Worker.stepsLeft_arrived phase
  | passed phase =>
    refine Worker.stepsLeft_passed phase (fun _ _ => ?_) (hi phase)
    rw [hmoving.toLand (Or.inr (Or.inl phase)), stride]
    omega

theorem MoverStep.kept {e : Option StagingEvent} (h : p.MoverStep M raised w M' w' e) :
    w'.phase = w.phase ∧ w'.device = w.device := by
  cases h <;> exact ⟨rfl, rfl⟩

/-- The steps of the compute unit: what becomes of it, of what the units share and of the token. -/
inductive ComputeStep (p : TilePlan) (engine : Engine) (C : Worker) (raised : Bool) (w : World) :
    Worker → World → Bool → Prop
  | checked (phase : C.phase = .checking) : ComputeStep p engine C raised w (C.checked p raised) w raised
  | worked {t : Nat} {task : Task} {w' : World} (phase : C.phase = .working task []) (tile : t < p.tiles)
      (iteration : C.iteration = t + 1) (answer : w.compute engine (p.slotTile t) = (none, w')) :
    ComputeStep p engine C raised w C w' raised
  | ended {t : Nat} {task : Task} {outcome : Outcome Nat} {w' : World} (phase : C.phase = .working task [])
      (tile : t < p.tiles) (iteration : C.iteration = t + 1)
      (answer : w.compute engine (p.slotTile t) = (some outcome, w')) :
    ComputeStep p engine C raised w (C.ended task [] outcome) w' raised
  | raised (phase : C.phase = .raising) : ComputeStep p engine C raised w { C with phase := .settling } w true
  | arrived (phase : C.phase = .settling) : ComputeStep p engine C raised w { C with phase := .waiting } w raised
  | passed (phase : C.phase = .waiting) : ComputeStep p engine C raised w (C.passed p) w raised

/-- Of what it shares with the mover the compute unit changes nothing but the output slots. -/
theorem Staged.compute_kept (hs : p.Sited bytes) (hf : d.Fits p) (hk : k.Follows b) (team : Team p M C raised)
    (h : Staged p d k b bytes m₀ M C raised w log) {engine : Engine} (hkernel : engine.kernel = k)
    (hstep : p.ComputeStep engine C raised w C' w' raised') :
    w'.queue = w.queue ∧ w'.landing = w.landing ∧ ∃ t, w.memory.Wrote w'.memory ((p.slotTile t).span .o) := by
  cases hstep with
  | worked phase tile iteration answer | ended phase tile iteration answer =>
    obtain ⟨hworked, -, -⟩ := h.compute_worked hs hf hk team phase iteration tile hkernel answer
    exact ⟨hworked.queue, hworked.landing, _, hworked.memory⟩
  | checked phase | raised phase | arrived phase | passed phase => exact ⟨rfl, rfl, 0, .refl _ _⟩

/-- A part of the work for a tile leaves less of it. -/
def Works (p : TilePlan) (engine : Engine) (L : Nat) (C : Worker) (w : World) : Prop :=
  ∀ (t : Nat) (task : Task) (w' : World), C.phase = .working task [] → t < p.tiles → C.iteration = t + 1 →
    w.compute engine (p.slotTile t) = (none, w') → w'.phase.left L < w.phase.left L

theorem ComputeStep.fewer (hs : p.Sited bytes) (hrole : C.report.role = .compute) (hidle : C.phase = .checking → w.phase = .idle)
    (hi : C.phase = .waiting → C.iteration < p.iterations) {engine : Engine} (hworks : p.Works engine L C w)
    (h : p.ComputeStep engine C raised w C' w' raised') : C'.stepsLeft p L w' < C.stepsLeft p L w := by
  have hnot : C.report.role ≠ .dataMover := by
    rw [hrole]
    nofun
  cases h with
  | checked phase =>
    unfold Worker.checked
    split
    · exact Worker.stepsLeft_settled phase fun hx => absurd hx hnot
    · rw [hrole, hs.tasks_compute]
      split
      · simp only [Worker.stepsLeft, Worker.proceed, phase, hrole, hidle phase, EnginePhase.left, stride]
        omega
      · exact Worker.stepsLeft_settled phase fun hx => absurd hx hnot
  | worked phase tile iteration answer =>
    have hless := hworks _ _ _ phase tile iteration answer
    simp only [Worker.stepsLeft, phase, hrole]
    omega
  | @ended t task outcome _ phase tile iteration answer =>
    cases outcome with
    | done polls =>
      obtain ⟨-, hrole', hiter, -, -⟩ := Worker.record_kept C task.completes polls
      simp only [Worker.stepsLeft, Worker.ended, Worker.proceed, hiter, phase, hrole', hrole]
      omega
    | failed e =>
      simp only [Worker.stepsLeft, Worker.ended, Worker.fail, phase, hrole]
      omega
    | panicked =>
      simp only [Worker.stepsLeft, Worker.ended, Worker.fail, phase, hrole]
      omega
  | raised phase => exact Worker.stepsLeft_raised phase hnot
  | arrived phase => exact Worker.stepsLeft_arrived phase
  | passed phase => exact Worker.stepsLeft_passed phase (fun _ hx => absurd hx hnot) (hi phase)

/-- The steps of a unit without work, which change nothing that the units share but the token. -/
inductive IdleStep (p : TilePlan) (w : Worker) (raised : Bool) : Worker → Bool → Prop
  | checked (phase : w.phase = .checking) : IdleStep p w raised (w.checked p raised) raised
  | raised (phase : w.phase = .raising) : IdleStep p w raised { w with phase := .settling } true
  | arrived (phase : w.phase = .settling) : IdleStep p w raised { w with phase := .waiting } raised
  | passed (phase : w.phase = .waiting) : IdleStep p w raised (w.passed p) raised

theorem IdleStep.fewer {w w' : Worker} (hrole : w.report.role = .idle)
    (hi : w.phase = .waiting → w.iteration < p.iterations) (h : p.IdleStep w raised w' raised') :
    w'.stepsLeft p L world < w.stepsLeft p L world := by
  have hnot : w.report.role ≠ .dataMover := by
    rw [hrole]
    nofun
  cases h with
  | checked phase =>
    unfold Worker.checked
    split
    · exact Worker.stepsLeft_settled phase fun hx => absurd hx hnot
    · rw [hrole, tasks_idle]
      exact Worker.stepsLeft_settled phase fun hx => absurd hx hnot
  | raised phase => exact Worker.stepsLeft_raised phase hnot
  | arrived phase => exact Worker.stepsLeft_arrived phase
  | passed phase => exact Worker.stepsLeft_passed phase (fun _ hx => absurd hx hnot) (hi phase)

end TilePlan

/-! ### Steps of a pipeline -/

namespace Pipeline

variable {topology : Topology} {engine : Engine} {d : Dataset} {k : Kernel} {b : Kernel.BuiltIn} {bytes : Nat}
  {m₀ : Memory} {s t : Pipeline World} {log : List StagingEvent} {position : Nat} {M C w : Worker}

theorem Held.compute_step (hs : p.Sited bytes) (h : Held topology p d k b bytes m₀ s log)
    (hM : s.workers[topology.mover]? = some M) (hC : s.workers[topology.compute]? = some C)
    (hstep : Stepped (World.hardware topology engine) s topology.compute C t) :
    ∃ C', t.workers = s.workers.set topology.compute C' ∧
      p.ComputeStep engine C s.isRaised s.world C' t.world t.isRaised := by
  have team := h.team hM hC
  have hown := h.roster.own
  have hself : s.workers = s.workers.set topology.compute C := (set_self hC).symm
  have hunit : ¬C.report.unit = topology.mover := by
    rw [(h.roster.placed _ C hC).1]
    exact topology.mover_ne_compute.symm
  have hplan := h.plan_eq
  subst hplan
  cases hstep with
  | checked phase => exact ⟨_, rfl, .checked phase⟩
  | worked phase answer =>
    obtain ⟨tile, ht, hi, rfl, rfl⟩ := team.working hs phase
    exact ⟨C, hself, .worked phase ht hi answer⟩
  | ended phase answer =>
    obtain ⟨tile, ht, hi, rfl, rfl⟩ := team.working hs phase
    exact ⟨_, rfl, .ended phase ht hi answer⟩
  | raised phase =>
    refine ⟨_, rfl, ?_⟩
    have hraised : isRaised ({ s with flags := s.flags.raise s.token }.put topology.compute { C with phase := .settling }
      s.world) = true := CancelFlags.isCancelled_raise hown
    rw [hraised]
    exact .raised phase
  | settled phase answer => simp [World.hardware, hunit] at answer
  | arrived phase answer =>
    simp only [World.hardware, hunit, if_false, Prod.mk.injEq, true_and] at answer
    subst answer
    exact ⟨_, rfl, .arrived phase⟩
  | passed phase met => exact ⟨_, rfl, .passed phase⟩

theorem Held.idle_step (h : Held topology p d k b bytes m₀ s log) (hw : s.workers[position]? = some w)
    (hmover : position ≠ topology.mover) (hcompute : position ≠ topology.compute)
    (hstep : Stepped (World.hardware topology engine) s position w t) :
    ∃ w', t.workers = s.workers.set position w' ∧ t.world = s.world ∧ p.IdleStep w s.isRaised w' t.isRaised := by
  have hown := h.roster.own
  have hnotmover : ¬w.report.unit = topology.mover := (h.roster.placed position w hw).1 ▸ hmover
  have hnotask := h.no_task hw hmover hcompute
  have hplan := h.plan_eq
  subst hplan
  cases hstep with
  | checked phase => exact ⟨_, rfl, rfl, .checked phase⟩
  | worked phase answer => exact absurd phase (hnotask _ _)
  | ended phase answer => exact absurd phase (hnotask _ _)
  | raised phase =>
    refine ⟨_, rfl, rfl, ?_⟩
    have hraised : isRaised ({ s with flags := s.flags.raise s.token }.put position { w with phase := .settling }
      s.world) = true := CancelFlags.isCancelled_raise hown
    rw [hraised]
    exact .raised phase
  | settled phase answer => simp [World.hardware, hnotmover] at answer
  | arrived phase answer =>
    simp only [World.hardware, hnotmover, if_false, Prod.mk.injEq, true_and] at answer
    subst answer
    exact ⟨_, rfl, rfl, .arrived phase⟩
  | passed phase met => exact ⟨_, rfl, rfl, .passed phase⟩

/-- A step that leaves less to do to the unit that takes it, and to each other what it has in hand. -/
theorem stepsLeft_lt (hw : s.workers[position]? = some w) {w' : Worker} (hworkers : t.workers = s.workers.set position w')
    (hless : w'.stepsLeft p L t.world < w.stepsLeft p L s.world)
    (hothers : ∀ (j : Nat) (v : Worker), j ≠ position → s.workers[j]? = some v →
      v.stepsLeft p L t.world = v.stepsLeft p L s.world) : t.stepsLeft p L < s.stepsLeft p L := by
  rw [stepsLeft, hworkers]
  exact sum_map_set_lt hw hless fun j v hne hv => Nat.le_of_eq (hothers j v hne hv)

theorem Held.fewer (hs : p.Sited bytes) (hf : d.Fits p) (hk : k.Follows b) (hkernel : engine.kernel = k)
    (h : Held topology p d k b bytes m₀ s log)
    (hworks : ∀ C, s.workers[topology.compute]? = some C → p.Works engine L C s.world)
    (hstep : s.step? (World.hardware topology engine) position = some t) : t.stepsLeft p L < s.stepsLeft p L := by
  obtain ⟨w, hw, hstep⟩ := stepped_of_step? hstep
  obtain ⟨M, C, hM, hC, hstaged⟩ := h.staged
  obtain ⟨visits, hlockstep⟩ := h.lockstep
  have team := h.team hM hC
  have hrole : ∀ {j : Nat} {v : Worker}, s.workers[j]? = some v → v.report.role = topology.roleOf j := fun hv =>
    (h.roster.placed _ _ hv).2
  have hwait : ∀ {j : Nat} {v : Worker}, s.workers[j]? = some v → v.phase = .waiting → v.iteration < p.iterations :=
    fun hv hp => h.plan_eq ▸ hlockstep.lt_iterations hv hp
  by_cases hmover : position = topology.mover
  · subst hmover
    obtain rfl := Option.some.inj (hw.symm.trans hM)
    obtain ⟨M', world, rfl, hmoved⟩ := h.mover_step hs hf hM hC hstaged hstep
    refine stepsLeft_lt hw rfl (hmoved.fewer hs team.mover hstaged.moving (hwait hw)) fun j v hne hv => ?_
    refine Worker.stepsLeft_congr (fun hx => ?_) fun _ => hmoved.kept.1
    exact absurd (Topology.mover_of_roleOf ((hrole hv).symm.trans hx)) hne
  by_cases hcompute : position = topology.compute
  · subst hcompute
    obtain rfl := Option.some.inj (hw.symm.trans hC)
    obtain ⟨C', hworkers, hcomputed⟩ := h.compute_step hs hM hC hstep
    refine stepsLeft_lt hw hworkers (hcomputed.fewer hs team.computer (fun hp => ?_) (hwait hw) (hworks w hw))
      fun j v hne hv => ?_
    · exact hstaged.driving.idle (by simp [hp])
    · refine Worker.stepsLeft_congr (fun _ => ?_) fun hx => ?_
      · obtain ⟨hqueue, hlanding, -⟩ := hstaged.compute_kept hs hf hk team hkernel hcomputed
        rw [World.toLand, World.toLand, hqueue, hlanding]
      · exact absurd (Topology.compute_of_roleOf ((hrole hv).symm.trans hx)) hne
  obtain ⟨w', hworkers, hworld, hidle⟩ := h.idle_step hw hmover hcompute hstep
  have hnone := hrole hw
  rw [Topology.roleOf, if_neg hmover, if_neg hcompute] at hnone
  refine stepsLeft_lt hw hworkers ?_ fun _ _ _ _ => by rw [hworld]
  rw [hworld]
  exact hidle.fewer hnone (hwait hw)

end Pipeline

end TileOffload
