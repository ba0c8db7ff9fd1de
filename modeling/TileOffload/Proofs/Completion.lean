import TileOffload.Proofs.Smooth

/-! # Completed runs

Main statement: a run of a built-in kernel on a healthy device ends with the right results, whichever unit goes on
at each moment. Runs have a bound, a run that has not come to its end can go on, and in the end the whole output
is in backing storage and every count is exact. -/

namespace TileOffload

theorem sum_map_single {α : Type} {f : α → Nat} {x : α} {l : List α} {i : Nat} (hx : l[i]? = some x)
    (hzero : ∀ (j : Nat) (z : α), j ≠ i → l[j]? = some z → f z = 0) : (l.map f).sum = f x := by
  induction l generalizing i with
  | nil => cases hx
  | cons z l ih =>
    simp only [List.map_cons, List.sum_cons]
    cases i with
    | zero =>
      cases hx
      have hrest : (l.map f).sum = 0 := by
        refine List.sum_eq_zero_iff_forall_eq_nat.mpr fun n hn => ?_
        obtain ⟨v, hv, rfl⟩ := List.mem_map.mp hn
        obtain ⟨j, hj⟩ := List.mem_iff_getElem?.mp hv
        exact hzero (j + 1) v (Nat.succ_ne_zero j) hj
      rw [hrest, Nat.add_zero]
    | succ i =>
      have htail := ih hx fun j v hne hv => hzero (j + 1) v (fun h => hne (Nat.succ.inj h)) hv
      rw [hzero 0 z (Nat.succ_ne_zero i).symm rfl, htail, Nat.zero_add]

namespace Pipeline

/-! ### From the first step to the last -/

variable {c : Cluster} {d : Dataset} {b : Kernel.BuiltIn} {config : PipelineConfig} {token : CancelToken}
  {flags : CancelFlags} {backing : Backing} {bytes L : Nat} {p : TilePlan} {personality : Personality} {m : Memory}
  {topology : Topology} {engine : Engine} {s t : Pipeline World}

theorem smooth_setUp (hpos : 0 < p.iterations) (hstuck : c.stuck = false) (hlow : flags.isCancelled token = false) :
    Smooth c.topology p c.latency (c.setUp d b.kernel config token flags p personality m).pipeline := by
  refine ⟨?_, fun w hw => ?_, fun M hM => ?_, fun C hC => ?_⟩
  · rw [isRaised, Cluster.flags_setUp hpos]
    exact CancelFlags.isCancelled_child.trans hlow
  · obtain ⟨unit, rfl⟩ := Cluster.mem_workers_setUp hpos hw
    exact ⟨rfl, by simp, fun _ => rfl⟩
  · obtain rfl := Option.some.inj (hM.symm.trans ((Cluster.workers_setUp hpos c.topology.mover_lt).trans
      (congrArg some (Cluster.create_mover _))))
    refine ⟨rfl, 0, rfl, ?_⟩
    rw [p.legsBefore_succ 0]
    simp [Worker.toStart, TilePlan.legsBefore]
  · obtain rfl := Option.some.inj (hC.symm.trans ((Cluster.workers_setUp hpos c.topology.compute_lt).trans
      (congrArg some (Cluster.create_compute _))))
    have hthrough : Worker.through p ⟨0, .checking, none, ⟨c.topology.compute, .compute, #[], 0, 0⟩⟩ = 0 := by
      simp [Worker.through]
    refine ⟨?_, ?_⟩ <;> rw [hthrough]
    · exact ⟨rfl, hstuck, rfl, rfl, rfl⟩
    · rw [Nat.zero_mul]

/-- A run that goes well, at any moment. -/
structure Running (topology : Topology) (p : TilePlan) (d : Dataset) (b : Kernel.BuiltIn) (bytes : Nat) (m₀ : Memory)
    (L : Nat) (s : Pipeline World) : Prop where
  held : ∃ log, Held topology p d b.kernel b bytes m₀ s log
  smooth : Smooth topology p L s
  full : s.workers.length = topology.units

theorem Running.step (hs : p.Sited bytes) (hf : d.Fits p) (htimely : Timely p b L engine)
    (h : Running topology p d b bytes m L s) {position : Nat}
    (hstep : s.step? (World.hardware topology engine) position = some t) :
    Running topology p d b bytes m L t ∧ t.stepsLeft p L < s.stepsLeft p L := by
  obtain ⟨log, held⟩ := h.held
  obtain ⟨hsmooth, hless⟩ := h.smooth.step hs hf htimely held hstep
  exact ⟨⟨⟨_, held.move hs hf b.follows htimely.kernel (.step position) hstep⟩, hsmooth,
    (move?_frame (m := .step position) hstep).2.2.trans h.full⟩, hless⟩

theorem Running.not_stuck (h : Running topology p d b bytes m L s) (hfinished : s.isFinished = false) :
    ∃ position t, s.step? (World.hardware topology engine) position = some t := by
  obtain ⟨log, held⟩ := h.held
  exact held.not_stuck hfinished

theorem Running.follow (hs : p.Sited bytes) (hf : d.Fits p) (htimely : Timely p b L engine) {positions : List Nat}
    (h : Running topology p d b bytes m L s)
    (ht : follow? (World.hardware topology engine) (positions.map .step) s = some t) :
    Running topology p d b bytes m L t ∧ positions.length + t.stepsLeft p L ≤ s.stepsLeft p L :=
  follow_steps_of_measure (stepsLeft p L) (fun h hstep => h.step hs hf htimely hstep) h ht

/-! ### At the end -/

theorem Running.output (hs : p.Sited bytes) (hf : d.Fits p) (h : Running topology p d b bytes m L s)
    (hfinished : s.isFinished = true) :
    s.world.memory.Snax bytes ∧ s.world.memory.Holds (p.backing.addr .o).toNat (b.kernel.golden d.a d.b) := by
  obtain ⟨log, held⟩ := h.held
  obtain ⟨M, C, hM, -, hstaged⟩ := held.staged
  have hlast := held.last hs hfinished hM
  refine ⟨hstaged.stock.snax, ?_⟩
  refine Memory.holds_of_pieces (hf.length_vector (k := b.kernel) .o) fun t ht => ?_
  have harrived : M.hasArrived (t + 2) = true := hasArrived_iff.mpr (Or.inl (by omega))
  have hstored := (hstaged.stock.stored t ht harrived h.smooth.low).1
  have haddr : (p.backing.addr .o).toNat + Bytes.perWord * (t * p.tileLength) = (p.backWord t .o).toNat := by
    rw [hs.toNat_backWord ht, TilePlan.tileBytes, Chip.elementBytes, Bytes.perWord, Nat.mul_comm 4, Nat.mul_assoc]
  rw [haddr]
  exact hstored

theorem Running.reports (hs : p.Sited bytes) (h : Running topology p d b bytes m L s) (hfinished : s.isFinished = true) :
    Run.failure? s.results = none ∧ Run.reports s.results = s.workers.map (·.report) ∧
      (∀ w ∈ s.workers, w.report.barriers = p.tiles + 2) ∧ s.world.queue.fault = none ∧
      s.world.queue.issued = UInt32.ofNat (3 * p.tiles) ∧ s.world.device.launches = p.tiles ∧
      ((s.workers.map (·.report)).map (·.polls)).sum = p.tiles * (L + 1) := by
  obtain ⟨log, held⟩ := h.held
  obtain ⟨visits, hlockstep⟩ := held.lockstep
  obtain ⟨M, C, hM, hC, hstaged⟩ := held.staged
  have hphase : ∀ w ∈ s.workers, w.phase = .finished := fun w hw => phase_of_isFinished hfinished hw
  have hlast : ∀ w ∈ s.workers, w.iteration = p.tiles + 2 := by
    intro w hw
    obtain ⟨i, hi⟩ := List.mem_iff_getElem?.mp hw
    exact held.last hs hfinished hi
  have hresults : s.results = s.workers.map fun w => .ok w.report :=
    List.map_congr_left fun w hw => by rw [Worker.result, (h.smooth.fine w hw).failure]
  obtain ⟨hfault, n, hn, hcount⟩ := h.smooth.tallied M hM
  obtain ⟨hhealthy, hpolls⟩ := h.smooth.counted C hC
  have hmemM := List.mem_of_getElem? hM
  have hmemC := List.mem_of_getElem? hC
  have hthrough : C.through p = p.tiles := by
    have := hlast C hmemC
    simp only [Worker.through, hphase C hmemC]
    omega
  have hidle : s.world.phase = .idle := hstaged.driving.idle (by simp [hphase C hmemC])
  refine ⟨?_, ?_, fun w hw => ?_, hfault, ?_, ?_, ?_⟩
  · simp [hresults, Run.failure?, List.filterMap_map]
  · rw [hresults, Run.reports, List.filterMap_map]
    exact congrFun (List.filterMap_eq_map (f := fun w : Worker => w.report)) s.workers
  · rw [hlockstep.barriers w hw, hlast w hw]
  · have hi := hlast M hmemM
    simp only [Worker.toStart, hphase M hmemM, TilePlan.legsBefore, hi] at hcount
    rw [hn]
    congr 1
    omega
  · have hin := hhealthy.inPhase
    rw [hidle, hthrough] at hin
    exact hin.2
  · rw [List.map_map, sum_map_single hC fun j v hne hv => ?_]
    · exact hpolls.trans (by rw [hthrough])
    · refine (h.smooth.fine v (List.mem_of_getElem? hv)).polls fun hrole => hne (Topology.compute_of_roleOf ?_)
      exact (held.roster.placed j v hv).2.symm.trans hrole

end Pipeline

theorem RunReport.polls_eq (r : RunReport) : r.polls = (r.units.map (·.polls)).sum :=
  List.foldr_map.symm

/-- The report of a run in which nothing has gone wrong, on a device that stays busy for that many polls: all results
    are right and every count is exact. -/
structure RunReport.Exact (r : RunReport) (topology : Topology) (p : TilePlan) (d : Dataset) (k : Kernel)
    (latency : Nat) : Prop where
  length : r.output.length = d.length
  output : ∀ (i : Nat) (x y : Word), d.a[i]? = some x → d.b[i]? = some y → r.output[i]? = some (k.reference x y)
  tiles : r.tiles = p.tiles
  launches : r.launches = p.tiles
  transfers : r.transfers.toNat = 3 * p.tiles
  units : r.units.map (·.unit) = List.range topology.units
  barriers : ∀ u ∈ r.units, u.barriers = p.tiles + 2
  polls : r.polls = p.tiles * (latency + 1)
  verified : r.verification.device = r.verification.host

namespace Cluster

variable {c : Cluster} {d : Dataset} {b : Kernel.BuiltIn} {config : PipelineConfig} {token : CancelToken}
  {flags : CancelFlags} {backing : Backing} {bytes : Nat} {plan : TilePlan} {personality : Personality} {m : Memory}
  {s : Pipeline World}

theorem exists_personality (b : Kernel.BuiltIn) : ∃ personality, Personality.ofMap? b.kernel.map = some personality := by
  cases b <;> exact ⟨_, rfl⟩

/-- There are fewer transfers in a run than their counter can count. -/
theorem transfers_lt (hs : plan.Sited bytes) : 3 * plan.tiles < UInt32.size := by
  obtain ⟨hstart, hstop⟩ := hs.vector_within .a
  have hl := hs.limited
  have hpos := Nat.mul_le_mul_left plan.tiles (show 4 ≤ plan.tileBytes from Nat.mul_le_mul_right 4 hs.tileLength_pos)
  have hlimit : Chip.backingLimit = 4194304 := rfl
  have hsize : UInt32.size = 4294967296 := rfl
  simp only [TilePlan.vector, Span.stop, Chip.storage] at hstart hstop
  omega

theorem result_of_running (h : c.Placed d b.kernel config backing bytes plan personality m) (ha : d.a.length = d.length)
    (hb : d.b.length = d.length) (hs : plan.Sited bytes) (hrun : Pipeline.Running c.topology plan d b bytes m c.latency s)
    (hfinished : s.isFinished = true) :
    ({ c.setUp d b.kernel config token flags plan personality m with pipeline := s } : Run).result =
      .ok {
        kernel := b.kernel.name
        tiles := plan.tiles
        iterations := plan.iterations
        depth := plan.depth
        output := b.kernel.golden d.a d.b
        verification := .check (b.kernel.golden d.a d.b) d b.kernel
        launches := plan.tiles
        transfers := UInt32.ofNat (3 * plan.tiles)
        units := s.workers.map (·.report) } := by
  obtain ⟨hsnax, hout⟩ := hrun.output hs (h.fits ha hb) hfinished
  obtain ⟨hfailure, hreports, -, hfault, hissued, hlaunches, -⟩ := hrun.reports hs hfinished
  have hlength : (b.kernel.golden d.a d.b).length = d.length := by
    rw [Kernel.golden, List.length_zipWith, ha, hb, Nat.min_self]
  have hread := h.readWords_vector hsnax hlength hout
  obtain ⟨log, held⟩ := hrun.held
  have hplan := held.plan_eq
  subst hplan
  unfold Run.result
  simp only [hfailure, hfault]
  rw [← hreports, ← hissued, ← hlaunches]
  exact bind_eq_ok.mpr ⟨_, hread, rfl⟩

theorem exact_of_running (h : c.Placed d b.kernel config backing bytes plan personality m) (ha : d.a.length = d.length)
    (hb : d.b.length = d.length) (hs : plan.Sited bytes) (hrun : Pipeline.Running c.topology plan d b bytes m c.latency s)
    (hfinished : s.isFinished = true) :
    ∃ report,
      ({ c.setUp d b.kernel config token flags plan personality m with pipeline := s } : Run).result = .ok report ∧
      report.Exact c.topology plan d b.kernel c.latency := by
  obtain ⟨-, -, hbarriers, -, -, -, hpolls⟩ := hrun.reports hs hfinished
  obtain ⟨log, held⟩ := hrun.held
  have hunits : (s.workers.map (·.report)).map (·.unit) = List.range c.topology.units := by
    refine List.ext_getElem? fun i => ?_
    rw [List.map_map, List.getElem?_map]
    by_cases hi : i < s.workers.length
    · rw [List.getElem?_eq_getElem hi, List.getElem?_range (hrun.full ▸ hi)]
      exact congrArg some (held.roster.placed i _ (List.getElem?_eq_getElem hi)).1
    · rw [List.getElem?_eq_none (by omega), List.getElem?_eq_none (by rw [List.length_range, ← hrun.full]; omega)]
      rfl
  refine ⟨_, result_of_running h ha hb hs hrun hfinished, ?_⟩
  exact {
    length := by rw [Kernel.golden, List.length_zipWith, ha, hb, Nat.min_self]
    output := fun i x y hx hy => List.getElem?_zipWith_eq_some.mpr ⟨x, y, hx, hy, rfl⟩
    tiles := rfl
    launches := rfl
    transfers := Nat.mod_eq_of_lt (transfers_lt hs)
    units := hunits
    barriers := fun u hu => by
      obtain ⟨w, hw, rfl⟩ := List.mem_map.mp hu
      exact hbarriers w hw
    polls := (RunReport.polls_eq _).trans hpolls
    verified := rfl }

theorem Placed.timely (h : c.Placed d b.kernel config backing bytes plan personality m) (hs : plan.Sited bytes)
    (hbase : 4 ∣ c.scratchpad.base.toNat)
    (hpolls : ∀ limit, config.wait.maxPolls = some limit → c.latency + 1 ≤ max limit 1)
    (hdeadline : ∀ limit, config.wait.deadline = some limit →
      ∀ t < plan.tiles, ∀ polls, 0 < polls → polls ≤ c.latency → c.clock t polls < limit) :
    Timely plan b c.latency ⟨b.kernel, config.wait, c.clock⟩ := by
  refine ⟨rfl, hs.narrow, fun t _ l => h.slotWord_aligned hbase t l, fun t ht polls hpos hle => ?_⟩
  exact WaitPolicy.givesUp_eq_false hpolls (fun limit hlimit => hdeadline limit hlimit t ht polls hpos hle) hpos hle

theorem running_setUp (h : c.Placed d b.kernel config backing bytes plan personality m) (ha : d.a.length = d.length)
    (hb : d.b.length = d.length) (hstuck : c.stuck = false) (hlow : flags.isCancelled token = false) :
    Pipeline.Running c.topology plan d b bytes m c.latency
      (c.setUp d b.kernel config token flags plan personality m).pipeline :=
  ⟨⟨_, Pipeline.held_setUp h ha hb⟩, Pipeline.smooth_setUp h.iterations_pos hstuck hlow, length_workers_setUp⟩

/-- A run of a built-in kernel on a device that answers in time, with nobody raising a token: whichever unit goes on
    at each moment, there are only so many steps, some unit can go on until all are through, and then the run's
    result is a report in which everything is right. In particular driving the units one after another comes to
    such an end. -/
theorem run_completes_under_every_schedule (ha : d.a.length = d.length) (hb : d.b.length = d.length)
    (hbacking : backingFor d.length = .ok (backing, bytes))
    (hplan : TilePlan.make d.length config c.scratchpad backing = .ok plan) (hbase : 4 ∣ c.scratchpad.base.toNat)
    (hin : ∀ l, Chip.inTcdm (plan.region l).addr (plan.region l).len = true) (hstuck : c.stuck = false)
    (hpolls : ∀ limit, config.wait.maxPolls = some limit → c.latency + 1 ≤ max limit 1)
    (hdeadline : ∀ limit, config.wait.deadline = some limit →
      ∀ t < plan.tiles, ∀ polls, 0 < polls → polls ≤ c.latency → c.clock t polls < limit)
    (hlow : flags.isCancelled token = false) :
    ∃ r, c.prepare d b.kernel config token flags = .ok r ∧
      (∃ bound, ∀ (schedule : List Nat) (s : Pipeline World),
        Pipeline.follow? r.hardware (schedule.map .step) r.pipeline = some s →
          schedule.length ≤ bound ∧ (s.isFinished = false → ∃ unit t, s.step? r.hardware unit = some t) ∧
          (s.isFinished = true → ∃ report, ({ r with pipeline := s } : Run).result = .ok report ∧
            report.Exact c.topology plan d b.kernel c.latency)) ∧
      ∃ patience report flags', c.run patience d b.kernel config token flags = some (.ok report, flags') ∧
        report.Exact c.topology plan d b.kernel c.latency := by
  obtain ⟨personality, hpersonality⟩ := exists_personality b
  obtain ⟨m, hplaced⟩ := exists_placed hbacking hplan hpersonality ha hb
  have hprepare : c.prepare d b.kernel config token flags =
      .ok (c.setUp d b.kernel config token flags plan personality m) :=
    prepare_eq_ok.mpr ⟨_, _, _, _, m, hplaced, rfl⟩
  have hs := hplaced.sited hin
  have hf := hplaced.fits ha hb
  have htimely := hplaced.timely hs hbase hpolls hdeadline
  have hstart := running_setUp hplaced ha hb hstuck hlow
  refine ⟨_, hprepare, ⟨(c.setUp d b.kernel config token flags plan personality m).pipeline.stepsLeft plan c.latency,
    fun schedule s hschedule => ?_⟩, ?_⟩
  · obtain ⟨hrun, hle⟩ := hstart.follow hs hf htimely hschedule
    exact ⟨Nat.le_trans (Nat.le_add_right _ _) hle, fun hx => hrun.not_stuck hx,
      fun hx => exact_of_running hplaced ha hb hs hrun hx⟩
  · obtain ⟨patience, s, hdrive, hfinished, hrun⟩ :=
      Pipeline.ends_of_measure (Pipeline.stepsLeft plan c.latency) (fun h hstep => h.step hs hf htimely hstep)
        (fun h hx => h.not_stuck hx) hstart 0
    obtain ⟨report, hresult, hexact⟩ := exact_of_running hplaced ha hb hs hrun hfinished
    refine ⟨patience, report, s.flags, ?_, hexact⟩
    rw [run, hprepare]
    exact (congrArg (Option.map _) hdrive).trans (congrArg (fun result => some (result, s.flags)) hresult)

/-- The products of the reference dataset on the chip, in five tiles: fifteen transfers and five polls for each tile. -/
theorem reference_completes_under_every_schedule :
    ∃ (r : Run) (plan : TilePlan),
      (make .snax .tcdm).prepare .reference Kernel.mac (.tiled 4) ⟨0, []⟩ ⟨#[false]⟩ = .ok r ∧ plan.tiles = 5 ∧
      (∃ bound, ∀ (schedule : List Nat) (s : Pipeline World),
        Pipeline.follow? r.hardware (schedule.map .step) r.pipeline = some s →
          schedule.length ≤ bound ∧ (s.isFinished = true → ∃ report,
            ({ r with pipeline := s } : Run).result = .ok report ∧ report.transfers.toNat = 15 ∧ report.polls = 25)) ∧
      ∃ patience report flags',
        (make .snax .tcdm).run patience .reference Kernel.mac (.tiled 4) ⟨0, []⟩ ⟨#[false]⟩ = some (.ok report, flags') ∧
        report.Exact .snax plan .reference Kernel.mac 4 := by
  have hplan : ∃ plan, TilePlan.make 20 (.tiled 4) .tcdm ⟨0x80000000, 0x80000050, 0x800000A0⟩ = .ok plan ∧
      plan.tiles = 5 ∧ ∀ l, Chip.inTcdm (plan.region l).addr (plan.region l).len = true :=
    ⟨_, rfl, rfl, fun l => by cases l <;> rfl⟩
  obtain ⟨plan, hplan, htiles, hin⟩ := hplan
  have hpolls : ∀ limit, WaitPolicy.standard.maxPolls = some limit → defaultLatency + 1 ≤ max limit 1 := by
    rintro limit ⟨⟩
    decide
  have hdeadline : ∀ limit, WaitPolicy.standard.deadline = some limit →
      ∀ t < plan.tiles, ∀ polls, 0 < polls → polls ≤ defaultLatency → Stopwatch.still polls < limit := by
    rintro limit ⟨⟩ t - polls - -
    exact Nat.zero_lt_succ _
  obtain ⟨r, hr, ⟨bound, hbound⟩, hrun⟩ :=
    @run_completes_under_every_schedule (make .snax .tcdm) .reference .mac (.tiled 4) ⟨0, []⟩ ⟨#[false]⟩ _ _ plan rfl rfl
      rfl hplan (by decide) hin rfl hpolls hdeadline rfl
  refine ⟨r, plan, hr, htiles, ⟨bound, fun schedule s hs => ?_⟩, hrun⟩
  obtain ⟨hle, -, hend⟩ := hbound schedule s hs
  refine ⟨hle, fun hfinished => ?_⟩
  obtain ⟨report, hreport, hexact⟩ := hend hfinished
  refine ⟨report, hreport, ?_, ?_⟩
  · rw [hexact.transfers, htiles]
  · rw [hexact.polls, htiles]
    rfl

end Cluster

end TileOffload
