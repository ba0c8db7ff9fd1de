import TileOffload.Proofs.Progress

/-! # Smooth runs

A built-in kernel on a healthy device, and nobody outside raises a token. Then no unit fails, and every transfer,
launch and poll is counted. -/

namespace TileOffload

variable {p : TilePlan} {d : Dataset} {b : Kernel.BuiltIn} {bytes L : Nat} {m₀ : Memory} {world world' : World}

namespace Worker

variable {w : Worker}

/-- A unit that has not failed; only the compute unit polls. -/
structure Fine (w : Worker) : Prop where
  failure : w.failure = none
  phase : w.phase ≠ .raising
  polls : w.report.role ≠ .compute → w.report.polls = 0

theorem Fine.proceed (h : w.Fine) (tasks : List Task) : (w.proceed tasks).Fine := by
  cases tasks <;> exact ⟨h.failure, nofun, h.polls⟩

theorem Fine.arrived (h : w.Fine) : Fine { w with phase := .waiting } := ⟨h.failure, nofun, h.polls⟩

theorem Fine.record (h : w.Fine) {completes : Option (Stage × Nat)} {polls : Nat}
    (hpolls : w.report.role = .compute ∨ polls = 0) : (w.record completes polls).Fine := by
  obtain ⟨-, hrole, -, hfailure, hphase⟩ := record_kept w completes polls
  have hsum : (w.record completes polls).report.polls = w.report.polls + polls := by
    unfold Worker.record
    split <;> rfl
  refine ⟨hfailure.trans h.failure, by rw [hphase]; exact h.phase, fun hx => ?_⟩
  rw [hrole] at hx
  rw [hsum, h.polls hx, hpolls.resolve_left hx]

theorem Fine.passed (h : w.Fine) : (w.passed p).Fine := ⟨h.failure, w.passed_ne_raising p, h.polls⟩

/-- The legs of its iteration that the data mover has not started yet. -/
def toStart (p : TilePlan) (w : Worker) : Nat :=
  match w.phase with
  | .checking => (p.legs w.iteration).length
  | .working _ rest => rest.length + 1
  | _ => 0

theorem toStart_proceed (w : Worker) (tasks : List Task) : (w.proceed tasks).toStart p = tasks.length := by
  cases tasks <;> rfl

end Worker

namespace TilePlan

variable {M C : Worker}

/-- The legs of all iterations before one. -/
def legsBefore (p : TilePlan) (i : Nat) : Nat := 2 * min i p.tiles + min (i - 2) p.tiles

theorem legsBefore_succ (p : TilePlan) (i : Nat) : p.legsBefore (i + 1) = p.legsBefore i + (p.legs i).length := by
  simp only [legsBefore, legs, List.length_append]
  split <;> split <;> simp only [List.length_cons, List.length_nil] <;> omega

/-- Nothing that the data mover has started has failed, and all of it is counted. -/
structure Tallied (p : TilePlan) (M : Worker) (w : World) : Prop where
  faultless : w.queue.fault = none
  issued : ∃ n, w.queue.issued = UInt32.ofNat n ∧ n + M.toStart p = p.legsBefore (M.iteration + 1)

/-- The device is healthy, and its launches and polls are counted. -/
structure Counted (p : TilePlan) (L : Nat) (C : Worker) (w : World) : Prop where
  healthy : w.Healthy L (C.through p)
  polls : C.report.polls = C.through p * (L + 1)

theorem Tallied.passed (hsize : p.tiles + 2 < Size.limit) (h : p.Tallied M world) (hp : M.phase = .waiting) (hfail : M.failure = none) :
    p.Tallied (M.passed p) world := by
  obtain ⟨hfault, n, hn, hcount⟩ := h
  refine ⟨hfault, n, hn, ?_⟩
  simp only [Worker.toStart, hp] at hcount
  have hsucc := p.legsBefore_succ (M.iteration + 1)
  unfold Worker.toStart Worker.passed
  simp only [hfail, Option.isSome_none, Bool.false_eq_true, if_false]
  by_cases hlast : p.iterations ≤ M.iteration + 1
  · -- There is no leg after the last iteration.
    have hnone : p.legs (M.iteration + 1) = [] := by
      have := iterations_eq hsize
      rw [legs, if_neg (by omega), if_neg (by omega), List.append_nil]
    rw [hnone] at hsucc
    simp only [hlast, if_true]
    simp only [List.length_nil] at hsucc
    omega
  · simp only [hlast, if_false]
    omega

theorem Counted.of_through {C' : Worker} (h : p.Counted L C world) (hthrough : C'.through p = C.through p)
    (hpolls : C'.report.polls = C.report.polls) : p.Counted L C' world := by
  refine ⟨?_, ?_⟩
  · rw [hthrough]
    exact h.healthy
  · rw [hthrough, hpolls]
    exact h.polls

theorem Counted.of_world (h : p.Counted L C world) (hphase : world'.phase = world.phase)
    (hdevice : world'.device = world.device) : p.Counted L C world' := ⟨h.healthy.congr hphase hdevice, h.polls⟩

/-! ### Steps of a unit -/

/-- Nothing of the mover's fails in its step, and what it starts is counted. -/
theorem Tallied.step (hs : p.Sited bytes) (hrole : M.report.role = .dataMover) (hfine : M.Fine) {M' : Worker}
    {e : Option StagingEvent} (h : p.Tallied M world) (hstep : p.MoverStep M false world M' world' e) :
    M'.Fine ∧ p.Tallied M' world' := by
  obtain ⟨hfault, n, hn, hcount⟩ := id h
  cases hstep with
  | checked phase =>
    have hchecked : M.checked p false = M.proceed ((p.legs M.iteration).map p.legTask) := by
      rw [Worker.checked, if_neg (by decide), hrole, hs.tasks_mover]
    rw [hchecked]
    refine ⟨hfine.proceed _, hfault, n, hn, ?_⟩
    rw [Worker.toStart_proceed, (Worker.proceed_kept _ _).2.1, List.length_map]
    simpa only [Worker.toStart, phase] using hcount
  | @started task rest x phase job =>
    obtain ⟨-, -, hiter, -, -⟩ := Worker.record_kept M task.completes 0
    refine ⟨(hfine.record (Or.inr rfl)).proceed _, hfault, n + 1, ?_, ?_⟩
    · rw [UInt32.ofNat_add, ← hn]
      rfl
    · rw [Worker.toStart_proceed, (Worker.proceed_kept _ _).2.1, hiter]
      simp only [Worker.toStart, phase] at hcount
      omega
  | took phase landing | landed phase landing copied => exact ⟨hfine, hfault, n, hn, hcount⟩
  | arrived phase landing =>
    refine ⟨hfine.arrived, hfault, n, hn, ?_⟩
    simpa only [Worker.toStart, phase] using hcount
  | passed phase => exact ⟨hfine.passed, h.passed hs.tiles_lt phase hfine.failure⟩

/-- The compute unit does not fail in its step, and what it is through with is counted. -/
theorem Counted.step (hs : p.Sited bytes) {engine : Engine} {raised : Bool} (hrole : C.report.role = .compute)
    (hfine : C.Fine) (h : p.Counted L C world)
    (hserved : ∀ (t : Nat) (task : Task), C.phase = .working task [] → t < p.tiles → C.iteration = t + 1 →
      world.Served engine (p.slotTile t) L t)
    {C' : Worker} (hstep : p.ComputeStep engine C false world C' world' raised) :
    C'.Fine ∧ p.Counted L C' world' ∧ raised = false := by
  cases hstep with
  | checked phase =>
    have hthrough := Worker.through_checked hs hrole phase
    rw [Worker.checked, if_neg (by decide)] at hthrough ⊢
    exact ⟨hfine.proceed _, h.of_through hthrough (by rw [(Worker.proceed_kept _ _).1]), rfl⟩
  | worked phase tile iteration answer =>
    rcases hserved _ _ phase tile iteration with ⟨w', hgoes, hhealthy, -⟩ | ⟨w', hdone, -⟩
    · obtain ⟨-, rfl⟩ := Prod.mk.inj (hgoes.symm.trans answer)
      refine ⟨hfine, ⟨?_, h.polls⟩, rfl⟩
      rw [Worker.through_working phase tile iteration]
      exact hhealthy
    · cases (Prod.mk.inj (hdone.symm.trans answer)).1
  | @ended t task outcome _ phase tile iteration answer =>
    rcases hserved _ _ phase tile iteration with ⟨w', hgoes, -, -⟩ | ⟨w', hdone, -, hhealthy⟩
    · cases (Prod.mk.inj (hgoes.symm.trans answer)).1
    obtain ⟨houtcome, rfl⟩ := Prod.mk.inj (hdone.symm.trans answer)
    obtain rfl := Option.some.inj houtcome
    -- The unit is through with one tile more.
    have hpolls : (C.record task.completes (L + 1)).report.polls = C.report.polls + (L + 1) := by
      unfold Worker.record
      split <;> rfl
    have hafter := Worker.through_done tile iteration task (L + 1)
    refine ⟨(hfine.record (Or.inl hrole)).proceed [], ⟨?_, ?_⟩, rfl⟩
    · rw [hafter]
      exact hhealthy
    · rw [hafter, Nat.succ_mul, ← Worker.through_working phase tile iteration, ← h.polls]
      exact hpolls
  | raised phase => exact absurd phase hfine.phase
  | arrived phase => exact ⟨hfine.arrived, h.of_through (Worker.through_arrived phase) rfl, rfl⟩
  | passed phase => exact ⟨hfine.passed, h.of_through (Worker.through_passed phase hfine.failure) rfl, rfl⟩

theorem fine_idle {w w' : Worker} {raised : Bool} (hfine : w.Fine) (h : p.IdleStep w false w' raised) :
    w'.Fine ∧ raised = false := by
  cases h with
  | checked phase =>
    rw [Worker.checked, if_neg (by decide)]
    exact ⟨hfine.proceed _, rfl⟩
  | raised phase => exact absurd phase hfine.phase
  | arrived phase => exact ⟨hfine.arrived, rfl⟩
  | passed phase => exact ⟨hfine.passed, rfl⟩

end TilePlan

/-! ### Steps of a pipeline -/

/-- What it takes to compute every tile in time: the built-in kernel, registers wide enough for a tile, aligned
    slots, and a wait that does not give up while the device is busy. -/
structure Timely (p : TilePlan) (b : Kernel.BuiltIn) (L : Nat) (engine : Engine) : Prop where
  kernel : engine.kernel = b.kernel
  narrow : p.tileLength < addressLimit
  aligned : ∀ t < p.tiles, ∀ l, 4 ∣ (p.slotWord t l).toNat
  patient : ∀ t < p.tiles, ∀ polls, 0 < polls → polls ≤ L → engine.wait.givesUp polls (engine.clock t polls) = false

namespace Pipeline

variable {topology : Topology} {engine : Engine} {s t : Pipeline World} {log : List StagingEvent} {M C : Worker}

/-- A pipeline in which nothing has failed, and whose transfers, launches and polls are counted. -/
structure Smooth (topology : Topology) (p : TilePlan) (L : Nat) (s : Pipeline World) : Prop where
  low : s.isRaised = false
  fine : ∀ w ∈ s.workers, w.Fine
  tallied : ∀ M, s.workers[topology.mover]? = some M → p.Tallied M s.world
  counted : ∀ C, s.workers[topology.compute]? = some C → p.Counted L C s.world

theorem Smooth.fine_set (h : Smooth topology p L s) {position : Nat} {w' : Worker} (hfine : w'.Fine)
    (hworkers : t.workers = s.workers.set position w') : ∀ w ∈ t.workers, w.Fine := by
  intro w hw
  rcases List.mem_or_eq_of_mem_set (hworkers ▸ hw) with hw | rfl
  · exact h.fine w hw
  · exact hfine

theorem Smooth.served (hs : p.Sited bytes) (hf : d.Fits p) (htimely : Timely p b L engine) (h : Smooth topology p L s)
    (hC : s.workers[topology.compute]? = some C)
    (hstaged : p.Staged d b.kernel b bytes m₀ M C s.isRaised s.world log) {tile : Nat} {task : Task}
    (hp : C.phase = .working task []) (ht : tile < p.tiles) (hi : C.iteration = tile + 1) :
    s.world.Served engine (p.slotTile tile) L tile := by
  have hengaged := hstaged.driving.engaged task [] hp
  have hthrough := Worker.through_working hp ht hi
  rw [show C.iteration - 1 = tile by omega] at hengaged
  exact World.served b.follows hs hf ht htimely.kernel rfl htimely.narrow (htimely.aligned tile ht)
    (htimely.patient tile ht) hstaged.stock.snax hstaged.driving.driven hengaged (hthrough ▸ (h.counted C hC).healthy)

theorem Smooth.step (hs : p.Sited bytes) (hf : d.Fits p) (htimely : Timely p b L engine)
    (held : Held topology p d b.kernel b bytes m₀ s log) (h : Smooth topology p L s) {position : Nat}
    (hstep : s.step? (World.hardware topology engine) position = some t) :
    Smooth topology p L t ∧ t.stepsLeft p L < s.stepsLeft p L := by
  obtain ⟨M, C, hM, hC, hstaged⟩ := held.staged
  have team := held.team hM hC
  refine ⟨?_, held.fewer hs hf b.follows htimely.kernel (fun C' hC' tile task w' hp ht hi answer => ?_) hstep⟩
  · obtain ⟨w, hw, hstep⟩ := stepped_of_step? hstep
    have hfine := h.fine w (List.mem_of_getElem? hw)
    have hlow := h.low
    by_cases hmover : position = topology.mover
    · subst hmover
      obtain rfl := Option.some.inj (hw.symm.trans hM)
      obtain ⟨M', world, rfl, hmoved⟩ := held.mover_step hs hf hM hC hstaged hstep
      rw [hlow] at hmoved
      obtain ⟨hfine', htally⟩ := (h.tallied w hM).step hs team.mover hfine hmoved
      refine ⟨h.low, h.fine_set hfine' rfl, fun M hx => ?_, fun C' hx => ?_⟩
      · rw [put_self hM] at hx
        cases hx
        exact htally
      · rw [put_other topology.mover_ne_compute] at hx
        exact (h.counted C' hx).of_world hmoved.kept.1 hmoved.kept.2
    by_cases hcompute : position = topology.compute
    · subst hcompute
      obtain rfl := Option.some.inj (hw.symm.trans hC)
      obtain ⟨C', hworkers, hcomputed⟩ := held.compute_step hs hM hC hstep
      obtain ⟨hqueue, -, -⟩ := hstaged.compute_kept hs hf b.follows team htimely.kernel hcomputed
      rw [hlow] at hcomputed
      obtain ⟨hfine', hcounted, hlow'⟩ := (h.counted w hC).step hs team.computer hfine
        (fun _ _ hp ht hi => h.served hs hf htimely hC hstaged hp ht hi) hcomputed
      refine ⟨hlow', h.fine_set hfine' hworkers, fun M' hx => ?_, fun C hx => ?_⟩
      · rw [hworkers, List.getElem?_set_ne hmover] at hx
        obtain ⟨hfault, hissued⟩ := h.tallied M' hx
        exact ⟨hqueue ▸ hfault, hqueue ▸ hissued⟩
      · rw [hworkers, getElem?_set_self hC] at hx
        cases hx
        exact hcounted
    obtain ⟨w', hworkers, hworld, hidle⟩ := held.idle_step hw hmover hcompute hstep
    rw [hlow] at hidle
    obtain ⟨hfine', hlow'⟩ := TilePlan.fine_idle hfine hidle
    refine ⟨hlow', h.fine_set hfine' hworkers, fun M' hx => ?_, fun C' hx => ?_⟩
    · rw [hworkers, List.getElem?_set_ne hmover] at hx
      exact hworld ▸ h.tallied M' hx
    · rw [hworkers, List.getElem?_set_ne hcompute] at hx
      exact hworld ▸ h.counted C' hx
  · obtain rfl := Option.some.inj (hC'.symm.trans hC)
    rcases h.served hs hf htimely hC hstaged hp ht hi with ⟨v, hgoes, -, hless⟩ | ⟨v, hdone, -⟩
    · obtain ⟨-, rfl⟩ := Prod.mk.inj (hgoes.symm.trans answer)
      exact hless
    · cases (Prod.mk.inj (hdone.symm.trans answer)).1

end Pipeline

end TileOffload
