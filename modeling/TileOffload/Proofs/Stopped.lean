import TileOffload.Proofs.Containment
import TileOffload.Proofs.Progress

/-! # Stopped runs

Main statement: a run that is set up below a token that is raised already does no work. Whichever unit goes on at
each moment, there are only so many steps, and in the end every unit has been stopped in the first iteration. -/

namespace TileOffload

/-- A unit that has been stopped before its first task, or will be. -/
structure Worker.Halted (w : Worker) : Prop where
  fresh : w.phase = .checking → w.iteration = 0
  stopped : w.phase ≠ .checking → w.failure = some (.cancelled 0)
  phase : w.phase = .checking ∨ w.phase = .settling ∨ w.phase = .waiting ∨ w.phase = .finished

/-- Nothing has been started, and at most it has been seen that nothing has to land. -/
structure World.Still (w : World) : Prop where
  pending : w.queue.pending = []
  landing : w.landing = none ∨ w.landing = some []

namespace World

variable {w : World}

theorem Still.toLand_le (h : w.Still) : w.toLand ≤ 1 := by
  rcases h.landing with hl | hl <;> simp [toLand, hl, h.pending]

/-- Landing nothing is through at once, or else has less to do. -/
theorem Still.land (h : w.Still) : w.land.2.Still ∧ w.land.2.phase = w.phase ∧
    (w.land.1 = false → w.land.2.toLand < w.toLand) := by
  rcases h.landing with hl | hl
  · simp only [World.land, hl, toLand, h.pending]
    exact ⟨⟨rfl, Or.inr rfl⟩, trivial, fun _ => Nat.zero_lt_one⟩
  · simp only [World.land, hl]
    exact ⟨⟨h.pending, Or.inl rfl⟩, trivial, fun hx => by cases hx⟩

end World

namespace Pipeline

variable {topology : Topology} {engine : Engine} {p : TilePlan} {s t : Pipeline World} {position : Nat} {w : Worker}

/-- A run whose token is raised before any of its units has looked at it. -/
structure Stopped (topology : Topology) (p : TilePlan) (s : Pipeline World) : Prop where
  plan_eq : s.plan = p
  raised : s.isRaised = true
  halted : ∀ w ∈ s.workers, w.Halted
  still : s.world.Still
  full : s.workers.length = topology.units
  roster : Roster topology s
  lockstep : ∃ visits, Lockstep s visits

/-- What a unit has to do before a barrier is little, and only the mover has anything to do. -/
theorem Stopped.settled (h : Stopped topology p s) (hw : s.workers[position]? = some w) {done : Bool} {world : World}
    (hanswer : (World.hardware topology engine).settle w.report.unit s.world = (done, world)) :
    world.Still ∧ (done = false → w.report.role = .dataMover ∧ world.toLand < s.world.toLand) ∧
      ((w.report.role = .dataMover ∧ world.phase = s.world.phase) ∨ world = s.world) := by
  obtain ⟨hunit, hrole⟩ := h.roster.placed position w hw
  unfold World.hardware at hanswer
  dsimp only at hanswer
  split at hanswer
  · rename_i hmover
    have hdata : w.report.role = .dataMover := by rw [hrole, ← hunit, hmover, Topology.roleOf, if_pos rfl]
    obtain ⟨hstill, hphase, hless⟩ := h.still.land
    rw [hanswer] at hstill hphase hless
    exact ⟨hstill, fun hdone => ⟨hdata, hless hdone⟩, Or.inl ⟨hdata, hphase⟩⟩
  · cases hanswer
    exact ⟨h.still, (fun hx => by cases hx), Or.inr rfl⟩

/-- A step of a stopped run leaves less to do to the unit that takes it, and changes the world only for the mover. -/
theorem Stopped.stepped (h : Stopped topology p s) (hw : s.workers[position]? = some w)
    (hstep : Stepped (World.hardware topology engine) s position w t) :
    ∃ w' world, t = s.put position w' world ∧ w'.Halted ∧ world.Still ∧
      w'.stepsLeft p 0 world < w.stepsLeft p 0 s.world ∧
      ((w.report.role = .dataMover ∧ world.phase = s.world.phase) ∨ world = s.world) := by
  have halted := h.halted w (List.mem_of_getElem? hw)
  have hland := h.still.toLand_le
  obtain ⟨visits, hlockstep⟩ := h.lockstep
  have hplan := h.plan_eq
  subst hplan
  cases hstep with
  | checked phase =>
    have hchecked : w.checked s.plan (s.flags.isCancelled s.token) =
        { w with failure := some (.cancelled 0), phase := .settling } := by
      rw [show s.flags.isCancelled s.token = true from h.raised, Worker.checked, if_pos rfl, halted.fresh phase]
    rw [hchecked]
    refine ⟨_, s.world, rfl, ⟨(fun hx => by cases hx), fun _ => rfl, Or.inr (Or.inl rfl)⟩, h.still, ?_, Or.inr rfl⟩
    refine Worker.stepsLeft_settled phase fun _ => ?_
    rw [TilePlan.stride]
    omega
  | worked phase | ended phase | raised phase =>
    rcases halted.phase with hp | hp | hp | hp <;> cases hp.symm.trans phase
  | @settled world phase answer =>
    obtain ⟨hstill, hless, hworld⟩ := h.settled hw answer
    obtain ⟨hdata, hless⟩ := hless rfl
    refine ⟨w, world, (put_same hw _).symm, halted, hstill, ?_, hworld⟩
    simp only [Worker.stepsLeft, phase, hdata]
    omega
  | @arrived world phase answer =>
    obtain ⟨hstill, -, hworld⟩ := h.settled hw answer
    have hfailed := halted.stopped (by simp [phase])
    exact ⟨_, world, rfl, ⟨(fun hx => by cases hx), fun _ => hfailed, Or.inr (Or.inr (Or.inl rfl))⟩, hstill,
      Worker.stepsLeft_arrived phase, hworld⟩
  | passed phase met =>
    have hfailed := halted.stopped (by simp [phase])
    refine ⟨_, s.world, rfl, ?_, h.still, ?_, Or.inr rfl⟩
    · have hgoesOn : (w.passed s.plan).phase = .settling ∨ (w.passed s.plan).phase = .finished := by
        simp only [Worker.passed, hfailed, Option.isSome_some, if_true]
        split
        · exact Or.inr rfl
        · exact Or.inl rfl
      refine ⟨fun hx => ?_, fun _ => hfailed, Or.inr (hgoesOn.imp_right Or.inr)⟩
      rcases hgoesOn with hp | hp <;> cases hp.symm.trans hx
    · refine Worker.stepsLeft_passed phase (fun _ _ => ?_) (hlockstep.lt_iterations hw phase)
      simp only [TilePlan.stride]
      omega

theorem Stopped.step (h : Stopped topology p s) (hstep : s.step? (World.hardware topology engine) position = some t) :
    Stopped topology p t ∧ t.stepsLeft p 0 < s.stepsLeft p 0 := by
  have hm : s.move? (World.hardware topology engine) (.step position) = some t := hstep
  obtain ⟨visits, hlockstep⟩ := h.lockstep
  have hroster := h.roster.move hm
  obtain ⟨w, hw, hstepped⟩ := stepped_of_step? hstep
  obtain ⟨w', world, rfl, hhalted, hstill, hless, hworld⟩ := h.stepped hw hstepped
  refine ⟨⟨h.plan_eq, h.raised, fun v hv => ?_, hstill, (move?_frame hm).2.2.trans h.full, hroster, _,
    hlockstep.move _ hm⟩, ?_⟩
  · rcases List.mem_or_eq_of_mem_set hv with hv | rfl
    · exact h.halted v hv
    · exact hhalted
  · refine sum_map_set_lt hw hless fun j v hne hv => Nat.le_of_eq ?_
    rcases hworld with ⟨hdata, hphase⟩ | rfl
    · refine Worker.stepsLeft_congr (fun hrole => ?_) fun _ => hphase
      have hmover := Topology.mover_of_roleOf ((h.roster.placed position w hw).2.symm.trans hdata)
      have hother := Topology.mover_of_roleOf ((h.roster.placed j v hv).2.symm.trans hrole)
      exact absurd (hother.trans hmover.symm) hne
    · rfl

theorem Stopped.raise (h : Stopped topology p s) (engine : Engine) (u : CancelToken) :
    Stopped topology p { s with flags := s.flags.raise u } := by
  obtain ⟨visits, hlockstep⟩ := h.lockstep
  have hm : s.move? (World.hardware topology engine) (.raise u) = some { s with flags := s.flags.raise u } := rfl
  exact ⟨h.plan_eq, CancelFlags.isCancelled_mono h.raised, h.halted, h.still, h.full, h.roster.move hm, _,
    hlockstep.move _ hm⟩

theorem Stopped.not_stuck (h : Stopped topology p s) (hfinished : s.isFinished = false) :
    ∃ position t, s.step? (World.hardware topology engine) position = some t := by
  obtain ⟨visits, hlockstep⟩ := h.lockstep
  exact hlockstep.not_stuck hfinished

theorem Stopped.failure? (h : Stopped topology p s) (hfinished : s.isFinished = true) :
    Run.failure? s.results = some (.cancelled 0) := by
  have hstopped : ∀ w ∈ s.workers, w.failure = some (.cancelled 0) := fun w hw =>
    (h.halted w hw).stopped (by simp [phase_of_isFinished hfinished hw])
  cases hfailure : Run.failure? s.results with
  | some e =>
    obtain ⟨i, hi⟩ := List.mem_iff_getElem?.mp (Run.mem_of_failure? hfailure)
    obtain ⟨w, hw, he⟩ := results_eq_error.mp hi
    exact he.symm.trans (hstopped w (List.mem_of_getElem? hw))
  | none =>
    have hmover := List.getElem?_eq_getElem (Nat.lt_of_lt_of_eq topology.mover_lt h.full.symm)
    have herror := results_eq_error.mpr ⟨_, hmover, hstopped _ (List.mem_of_getElem? hmover)⟩
    exact absurd (List.mem_of_getElem? herror) (Run.failure?_eq_none hfailure _)

end Pipeline

namespace Cluster

variable {c : Cluster} {d : Dataset} {k : Kernel} {config : PipelineConfig} {token : CancelToken} {flags : CancelFlags}
  {plan : TilePlan} {personality : Personality} {m : Memory} {r : Run}

theorem stopped_setUp (hpos : 0 < plan.iterations) (hraised : flags.isCancelled token = true) :
    Pipeline.Stopped c.topology plan (c.setUp d k config token flags plan personality m).pipeline := by
  refine ⟨rfl, ?_, fun w hw => ?_, ⟨rfl, Or.inl rfl⟩, length_workers_setUp,
    roster_setUp, [], Pipeline.Lockstep.create _ _ _ _ _ _ _⟩
  · rw [Pipeline.isRaised, flags_setUp hpos]
    exact CancelFlags.isCancelled_child.trans hraised
  obtain ⟨unit, rfl⟩ := mem_workers_setUp hpos hw
  exact ⟨fun _ => rfl, fun hx => absurd rfl hx, Or.inl rfl⟩

/-- A run below a token that is raised already: whoever goes on and whoever raises more tokens, there are only so many
    steps, some unit can go on until all are through, and then the run says that it was stopped in the first
    iteration. In particular driving the units one after another comes to such an end. -/
theorem run_of_raised (hr : c.prepare d k config token flags = .ok r) (hraised : flags.isCancelled token = true) :
    (∃ bound, ∀ (moves : List Move) (s : Pipeline World), Pipeline.follow? r.hardware moves r.pipeline = some s →
      moves.countP Move.isStep ≤ bound ∧ (s.isFinished = false → ∃ unit t, s.step? r.hardware unit = some t) ∧
      (s.isFinished = true → ({ r with pipeline := s } : Run).result = .error (.cancelled 0))) ∧
    ∃ patience flags', c.run patience d k config token flags = some (.error (.cancelled 0), flags') := by
  have hprepare := hr
  obtain ⟨backing, bytes, plan, personality, m, hplaced, rfl⟩ := prepare_eq_ok.mp hr
  have hstart : Pipeline.Stopped c.topology plan (c.setUp d k config token flags plan personality m).pipeline :=
    stopped_setUp hplaced.iterations_pos hraised
  refine ⟨⟨(c.setUp d k config token flags plan personality m).pipeline.stepsLeft plan 0, fun moves s hmoves => ?_⟩, ?_⟩
  · obtain ⟨hstopped, hle⟩ := Pipeline.follow_of_measure (Pipeline.stepsLeft plan 0) (fun h hstep => h.step hstep)
      (fun _ h => ⟨h.raise ⟨k, config.wait, c.clock⟩ _, Nat.le_refl _⟩) hstart hmoves
    exact ⟨Nat.le_trans (Nat.le_add_right _ _) hle, hstopped.not_stuck, fun hfinished =>
      Run.result_of_failure? (hstopped.failure? hfinished)⟩
  · obtain ⟨patience, s, hdrive, hfinished, hstopped⟩ :=
      Pipeline.ends_of_measure (Pipeline.stepsLeft plan 0) (fun h hstep => h.step hstep) (fun h => h.not_stuck) hstart 0
    have hresult : ({ c.setUp d k config token flags plan personality m with pipeline := s } : Run).result =
        .error (.cancelled 0) := Run.result_of_failure? (hstopped.failure? hfinished)
    refine ⟨patience, s.flags, ?_⟩
    rw [run_of_drive hprepare hdrive, hresult]

end Cluster

end TileOffload
