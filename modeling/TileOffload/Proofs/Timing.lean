import TileOffload.Proofs.Race

/-! # What timing decides

Two runs of the same dataset, with the units going on in different orders and the stopwatches telling different times.
Main statement: both return the same, but for the times that a timeout tells, unless the scratchpad lies so that the
first tile can be loaded and the second cannot. Then the mover and the compute unit race, and a run returns the error of
either. -/

namespace TileOffload

/-! ### Other stopwatches -/

/-- Two errors are the same, or both say that the wait for a tile was given up after so many polls, each with the time
    that its own stopwatch tells. -/
inductive Error.Retimed (clock clock' : Nat → Stopwatch) : Error → Error → Prop
  | same (e : Error) : Retimed clock clock' e e
  | timeout (tile polls : Nat) :
    Retimed clock clock' (.timeout polls (clock tile polls)) (.timeout polls (clock' tile polls))

/-- Two runs return the same report, or the same error but for the time that it tells. -/
inductive Alike (clock clock' : Nat → Stopwatch) : Except Error RunReport → Except Error RunReport → Prop
  | report (report : RunReport) : Alike clock clock' (.ok report) (.ok report)
  | error {e e' : Error} (retimed : e.Retimed clock clock' e') : Alike clock clock' (.error e) (.error e')

theorem Alike.eq {clock : Nat → Stopwatch} {x y : Except Error RunReport} (h : Alike clock clock x y) : x = y := by
  cases h with
  | report => rfl
  | error retimed => cases retimed <;> rfl

/-- Without a deadline no stopwatch decides when to give up. -/
theorem WaitPolicy.givesUp_eq {wait : WaitPolicy} (h : wait.deadline = none) (polls elapsed elapsed' : Nat) :
    wait.givesUp polls elapsed = wait.givesUp polls elapsed' := by
  simp only [givesUp, h, Option.any_none]

variable {kernel : Kernel} {wait : WaitPolicy} {clock clock' : Nat → Stopwatch} {L : Nat} {stuck : Bool} {tile : Tile}

theorem Verdict.done_retimed (h : wait.deadline = none) {n : Nat} (hv : Verdict ⟨kernel, wait, clock⟩ L stuck tile (.done n)) :
    Verdict ⟨kernel, wait, clock'⟩ L stuck tile (.done n) := by
  cases hv with
  | served inside aligned free patient =>
    exact .served inside aligned free fun m hm hle => (WaitPolicy.givesUp_eq h _ _ _).trans (patient m hm hle)

theorem Verdict.failed_retimed (h : wait.deadline = none) {e : Error}
    (hv : Verdict ⟨kernel, wait, clock⟩ L stuck tile (.failed e)) :
    ∃ e', Verdict ⟨kernel, wait, clock'⟩ L stuck tile (.failed e') ∧ e.Retimed clock clock' e' := by
  cases hv with
  | outside outside => exact ⟨_, .outside outside, .same _⟩
  | unaligned inside unaligned => exact ⟨_, .unaligned inside unaligned, .same _⟩
  | @late n inside aligned patient polled gaveUp busy =>
    refine ⟨_, .late inside aligned (fun m hm hlt => ?_) polled ?_ busy, .timeout tile.index n⟩
    · exact (WaitPolicy.givesUp_eq h _ _ _).trans (patient m hm hlt)
    · exact (WaitPolicy.givesUp_eq h _ _ _).trans gaveUp

theorem TilePlan.Faulty.retimed {p : TilePlan} {m : Memory} {unit i : Nat} {role : Role} {e : Error}
    (hdeadline : wait.deadline = none)
    (h : p.Faulty (Expected ⟨kernel, wait, clock⟩ L stuck m) p.backTile unit role i e) :
    ∃ e', p.Faulty (Expected ⟨kernel, wait, clock'⟩ L stuck m) p.backTile unit role i e' ∧ e.Retimed clock clock' e' := by
  cases role with
  | dataMover =>
    obtain ⟨fault, hrefusal, rfl⟩ := h.mover
    exact ⟨_, faulty_mover hrefusal unit, .same _⟩
  | compute =>
    obtain ⟨t, ht, rfl, hverdict⟩ := h.compute
    obtain ⟨e', hverdict', hretimed⟩ := hverdict.failed_retimed hdeadline
    exact ⟨e', faulty_compute ht hverdict' unit, hretimed⟩
  | idle => exact absurd rfl h.jobs_ne_nil

/-- The answer of some stopwatch to a job. -/
def Anytime (kernel : Kernel) (wait : WaitPolicy) (L : Nat) (stuck : Bool) (m : Memory) (job : Job)
    (outcome : Outcome Nat) : Prop :=
  ∃ clock, Expected ⟨kernel, wait, clock⟩ L stuck m job outcome

/-- Without a deadline stopwatches do not decide what succeeds. -/
theorem certain_anytime {m : Memory} (hdeadline : wait.deadline = none) : Certain (Anytime kernel wait L stuck m) := by
  rintro job n outcome ⟨clock, hdone⟩ ⟨clock', h⟩
  refine h.unique ?_
  cases hdone with
  | moved accepted => exact .moved accepted
  | computed verdict => exact .computed (verdict.done_retimed hdeadline)

/-- The first tile can be loaded and the second cannot. -/
def TilePlan.Torn (p : TilePlan) (m : Memory) (fault : TransferFault) : Prop :=
  p.refusalIn? m 0 = none ∧ p.refusalIn? m 1 = some fault

namespace Cluster

variable {c : Cluster} {d : Dataset} {k : Kernel} {b : Kernel.BuiltIn} {config : PipelineConfig} {token : CancelToken}
  {flags : CancelFlags} {backing : Backing} {bytes limit n unit unit' : Nat} {plan : TilePlan} {personality : Personality}
  {m : Memory} {s s' : Pipeline World} {e e' : Error}

/-- The cluster with other stopwatches. -/
def retimed (c : Cluster) (clock : Nat → Stopwatch) : Cluster := { c with clock }

theorem Placed.retimed (h : c.Placed d k config backing bytes plan personality m) (clock : Nat → Stopwatch) :
    (c.retimed clock).Placed d k config backing bytes plan personality m :=
  ⟨h.backing_eq, h.plan_eq, h.personality_eq, h.memory_eq⟩

/-- Stopwatches are first read when a unit waits for the device. -/
theorem prepare_retimed (c : Cluster) (clock : Nat → Stopwatch) (d : Dataset) (k : Kernel) (config : PipelineConfig)
    (token : CancelToken) (flags : CancelFlags) :
    (c.retimed clock).prepare d k config token flags =
      (c.prepare d k config token flags).map fun r => { r with engine := { r.engine with clock } } := by
  unfold prepare
  refine bind_map fun placed => bind_map fun plan => ?_
  cases Personality.ofMap? k.map with
  | none => rfl
  | some personality =>
    refine bind_map fun m => bind_map fun m => bind_map fun m => ?_
    rw [Engine.make, if_pos rfl, Engine.make, if_pos rfl]
    rfl

theorem Foretells.retimed (clock : Nat → Stopwatch) (hdeadline : config.wait.deadline = none)
    (h : c.Foretells b config plan m n unit e) :
    ∃ e', (c.retimed clock).Foretells b config plan m n unit e' ∧ e.Retimed c.clock clock e' :=
  TilePlan.Faulty.retimed hdeadline h

theorem exists_first_foretold (h : ∃ i unit e, c.Foretells b config plan m i unit e) :
    ∃ n, (∃ unit e, c.Foretells b config plan m n unit e) ∧ ∀ i < n, ∀ unit e, ¬c.Foretells b config plan m i unit e := by
  classical
  exact ⟨Nat.find h, Nat.find_spec h, fun i hi unit e hx => Nat.find_min h hi ⟨unit, e, hx⟩⟩

/-- Two units are foretold to fail in one iteration, and none before, only where the first tile can be loaded and the
    second cannot. -/
theorem Placed.torn_of_race (h : c.Placed d b.kernel config backing bytes plan personality m)
    (hmax : config.wait.maxPolls = some limit) (hfaulty : c.Foretells b config plan m n unit e)
    (hfaulty' : c.Foretells b config plan m n unit' e') (hne : unit ≠ unit')
    (hfirst : ∀ i < n, ∀ unit e, ¬c.Foretells b config plan m i unit e) : ∃ fault, plan.Torn m fault := by
  have hrace : ∀ {e e'}, c.Foretells b config plan m n c.topology.mover e →
      c.Foretells b config plan m n c.topology.compute e' → ∃ fault, plan.Torn m fault := by
    intro e e' hmover hcompute
    obtain ⟨fault, hrefusal, -⟩ := foretells_mover_iff.mp hmover
    obtain ⟨t, ht, hn, -⟩ := foretells_compute_iff.mp hcompute
    obtain rfl := h.accepted.second_of_refusalIn? h.backed h.snax hrefusal (by omega) fun u hu => by
      cases served_of_not_foretells hmax (show u < plan.tiles by omega) (hfirst (u + 1) hu _)
      assumption
    refine ⟨fault, Option.eq_none_iff_forall_ne_some.mpr fun fault' hrefused => ?_, hrefusal⟩
    exact hfirst 0 Nat.one_pos _ _ (foretells_mover_iff.mpr ⟨fault', hrefused, rfl⟩)
  rcases hfaulty.unit_eq with rfl | rfl <;> rcases hfaulty'.unit_eq with rfl | rfl
  · exact absurd rfl hne
  · exact hrace hfaulty hfaulty'
  · exact hrace hfaulty' hfaulty
  · exact absurd rfl hne

theorem Placed.reports_eq (h : c.Placed d b.kernel config backing bytes plan personality m)
    (hdeadline : config.wait.deadline = none) {clock : Nat → Stopwatch}
    (hs : c.Reaches d b config token flags plan personality m s)
    (hs' : (c.retimed clock).Reaches d b config token flags plan personality m s') (hfinished : s.isFinished = true)
    (hfinished' : s'.isFinished = true) (hhealthy : ∀ w ∈ s.workers, w.failure = none)
    (hhealthy' : ∀ w ∈ s'.workers, w.failure = none) : s'.workers.map (·.report) = s.workers.map (·.report) := by
  have hforeseen := hs.foreseen h
  have hforeseen' := hs'.foreseen (h.retimed clock)
  obtain ⟨visits, hl⟩ := hforeseen.lockstep
  obtain ⟨visits', hl'⟩ := hforeseen'.lockstep
  have hanytime : s.Foretold (Anytime b.kernel config.wait c.latency c.stuck m) plan.backTile c.topology :=
    hforeseen.foretold.mono fun _ _ hx => ⟨_, hx⟩
  have hanytime' : s'.Foretold (Anytime b.kernel config.wait c.latency c.stuck m) plan.backTile c.topology :=
    hforeseen'.foretold.mono fun _ _ hx => ⟨_, hx⟩
  have hlength : s'.workers.length = s.workers.length := hs'.length_workers.trans hs.length_workers.symm
  refine List.ext_getElem (by simpa using hlength) fun i hi hi' => ?_
  rw [List.length_map] at hi hi'
  rw [List.getElem_map, List.getElem_map]
  have hw := List.getElem?_eq_getElem hi'
  have hw' := List.getElem?_eq_getElem hi
  have hmem := List.mem_of_getElem? hw
  have hmem' := List.mem_of_getElem? hw'
  exact hanytime.report_eq (certain_anytime hdeadline) hanytime' (hforeseen'.plan_eq.trans hforeseen.plan_eq.symm) hl hl' hw
    hw' (hhealthy _ hmem) (hhealthy' _ hmem') (Pipeline.phase_of_isFinished hfinished hmem)
    (Pipeline.phase_of_isFinished hfinished' hmem')

/-- Two runs return the same, but for the time of a timeout, unless the mover and the compute unit race. -/
theorem Placed.alike (h : c.Placed d b.kernel config backing bytes plan personality m) (ha : d.a.length = d.length)
    (hb : d.b.length = d.length) (hmax : config.wait.maxPolls = some limit) (hdeadline : config.wait.deadline = none)
    (hlow : flags.isCancelled token = false) (hwhole : ∀ fault, ¬plan.Torn m fault) {clock : Nat → Stopwatch}
    (hs : c.Reaches d b config token flags plan personality m s)
    (hs' : (c.retimed clock).Reaches d b config token flags plan personality m s') (hfinished : s.isFinished = true)
    (hfinished' : s'.isFinished = true) :
    Alike c.clock clock ({ c.setUp d b.kernel config token flags plan personality m with pipeline := s } : Run).result
      ({ (c.retimed clock).setUp d b.kernel config token flags plan personality m with pipeline := s' } : Run).result := by
  have hback : ∀ {i unit e}, (c.retimed clock).Foretells b config plan m i unit e →
      ∃ e', c.Foretells b config plan m i unit e' := fun hfaulty =>
    (TilePlan.Faulty.retimed hdeadline hfaulty).imp fun _ hx => hx.1
  by_cases hany : ∃ i unit e, c.Foretells b config plan m i unit e
  · obtain ⟨n, ⟨unit, e, hfaulty⟩, hfirst⟩ := exists_first_foretold hany
    obtain ⟨unit, e, hfaulty, -, -, hresult⟩ := h.fails hlow hs hfinished hfaulty hfirst
    obtain ⟨e₁, hfaulty₁, hretimed⟩ := hfaulty.retimed clock hdeadline
    obtain ⟨unit', e', hfaulty', -, -, hresult'⟩ := (h.retimed clock).fails hlow hs' hfinished' hfaulty₁
      fun i hi unit e hx => (hback hx).elim (hfirst i hi unit)
    rw [hresult, hresult']
    by_cases hunit : unit = unit'
    · subst hunit
      rw [← hfaulty₁.unique hfaulty']
      exact .error hretimed
    · obtain ⟨e'', hfaulty''⟩ := hback hfaulty'
      obtain ⟨fault, htorn⟩ := h.torn_of_race hmax hfaulty hfaulty'' hunit hfirst
      exact absurd htorn (hwhole fault)
  · have hclear : ∀ i unit e, ¬c.Foretells b config plan m i unit e := fun i unit e hx => hany ⟨i, unit, e, hx⟩
    obtain ⟨hhealthy, hresult⟩ := h.succeeds ha hb hmax hlow hs hfinished hclear
    obtain ⟨hhealthy', hresult'⟩ := (h.retimed clock).succeeds ha hb hmax hlow hs' hfinished' fun i unit e hx =>
      (hback hx).elim (hclear i unit)
    rw [hresult, hresult', h.reports_eq hdeadline hs hs' hfinished hfinished' hhealthy hhealthy']
    exact .report _

/-- Where the first tile can be loaded and the second cannot, both the mover and the compute unit are foretold to fail in
    the second iteration, and nobody in the first. -/
theorem Placed.race_of_torn (h : c.Placed d b.kernel config backing bytes plan personality m) {fault : TransferFault}
    (htorn : plan.Torn m fault) :
    (∀ unit e, ¬c.Foretells b config plan m 0 unit e) ∧
      c.Foretells b config plan m 1 c.topology.mover (.transferFailed fault) ∧
      ∃ addr, c.Foretells b config plan m 1 c.topology.compute
        (.deviceFault (.operandOutside b.kernel.map.name addr plan.tileBytes)) := by
  obtain ⟨hload, hrefusal⟩ := htorn
  obtain ⟨addr, houtside⟩ := h.accepted.outside_of_refusalIn? h.backed h.snax hrefusal
  exact ⟨not_foretells_zero hload, foretells_mover_iff.mpr ⟨fault, hrefusal, rfl⟩, addr,
    foretells_compute_iff.mpr ⟨0, h.accepted.tiles_pos, rfl, .outside houtside⟩⟩

/-- A run returns a result, whichever unit goes on at each moment, when nobody raises a token from outside. -/
inductive Returns (c : Cluster) (d : Dataset) (k : Kernel) (config : PipelineConfig) (token : CancelToken)
    (flags : CancelFlags) : Except Error RunReport → Prop
  | refused {e : Error} (refused : c.prepare d k config token flags = .error e) : Returns c d k config token flags (.error e)
  | ended {r : Run} {positions : List Nat} {s : Pipeline World} (prepared : c.prepare d k config token flags = .ok r)
    (followed : Pipeline.follow? r.hardware (positions.map .step) r.pipeline = some s) (finished : s.isFinished = true) :
    Returns c d k config token flags ({ r with pipeline := s } : Run).result

theorem returns_iff (h : c.Placed d b.kernel config backing bytes plan personality m) {x : Except Error RunReport} :
    c.Returns d b.kernel config token flags x ↔ ∃ s, c.Reaches d b config token flags plan personality m s ∧
      s.isFinished = true ∧
      ({ c.setUp d b.kernel config token flags plan personality m with pipeline := s } : Run).result = x := by
  have hprepare : c.prepare d b.kernel config token flags =
      .ok (c.setUp d b.kernel config token flags plan personality m) := prepare_eq_ok.mpr ⟨_, _, _, _, m, h, rfl⟩
  constructor
  · intro hx
    cases hx with
    | refused refused =>
      rw [hprepare] at refused
      cases refused
    | @ended r positions s prepared followed finished =>
      obtain rfl := Except.ok.inj (hprepare.symm.trans prepared)
      exact ⟨s, ⟨positions, followed⟩, finished, rfl⟩
  · rintro ⟨s, ⟨positions, hs⟩, hfinished, rfl⟩
    exact .ended hprepare hs hfinished

theorem Returns.eq_error {x : Except Error RunReport} (h : c.Returns d k config token flags x)
    (hprepare : c.prepare d k config token flags = .error e) : x = .error e := by
  cases h with
  | refused refused =>
    rw [hprepare] at refused
    cases refused
    rfl
  | ended prepared =>
    rw [hprepare] at prepared
    cases prepared

theorem Placed.returns_alike (h : c.Placed d b.kernel config backing bytes plan personality m) (ha : d.a.length = d.length)
    (hb : d.b.length = d.length) (hmax : config.wait.maxPolls = some limit) (hdeadline : config.wait.deadline = none)
    (hlow : flags.isCancelled token = false) (hwhole : ∀ fault, ¬plan.Torn m fault) {clock : Nat → Stopwatch}
    {x y : Except Error RunReport} (hx : c.Returns d b.kernel config token flags x)
    (hy : (c.retimed clock).Returns d b.kernel config token flags y) : Alike c.clock clock x y := by
  obtain ⟨s, hs, hfinished, rfl⟩ := (returns_iff h).mp hx
  obtain ⟨s', hs', hfinished', rfl⟩ := (returns_iff (h.retimed clock)).mp hy
  exact h.alike ha hb hmax hdeadline hlow hwhole hs hs' hfinished hfinished'

/-- Runs of a built-in kernel that waits for the device with a bound on its polls and no deadline, and that nobody stops
    from outside. Whichever units go on, there are only so many steps, and some unit can go on until all are through. Then
    any two runs return the same report or the same error, but for the times that a timeout tells. Only where the first
    tile can be loaded and the second cannot does a run return one of two errors: that of the mover, which is refused a
    slot for the second tile, or that of the device, which finds the first tile outside the TCDM. -/
theorem timing_decides_only_races (c : Cluster) (clock : Nat → Stopwatch) (d : Dataset) (b : Kernel.BuiltIn)
    (config : PipelineConfig) (token : CancelToken) (flags : CancelFlags) (ha : d.a.length = d.length)
    (hb : d.b.length = d.length) (hmax : config.wait.maxPolls = some limit) (hdeadline : config.wait.deadline = none)
    (hlow : flags.isCancelled token = false) :
    (∀ r, c.prepare d b.kernel config token flags = .ok r →
      ∃ bound, ∀ (positions : List Nat) (s : Pipeline World),
        Pipeline.follow? r.hardware (positions.map .step) r.pipeline = some s →
          positions.length ≤ bound ∧ (s.isFinished = false → ∃ unit t, s.step? r.hardware unit = some t)) ∧
    ((∀ r, c.prepare d b.kernel config token flags = .ok r →
        ∀ fault, ¬r.pipeline.plan.Torn r.pipeline.world.memory fault) →
      ∀ x y, c.Returns d b.kernel config token flags x → (c.retimed clock).Returns d b.kernel config token flags y →
        Alike c.clock clock x y) ∧
    ∀ r, c.prepare d b.kernel config token flags = .ok r →
      ∀ fault, r.pipeline.plan.Torn r.pipeline.world.memory fault →
        ∃ addr, ∀ x, c.Returns d b.kernel config token flags x ↔ x = .error (.transferFailed fault) ∨
          x = .error (.deviceFault (.operandOutside b.kernel.map.name addr r.pipeline.plan.tileBytes)) := by
  refine ⟨fun r hr => ?_, fun hwhole x y hx hy => ?_, fun r hr fault htorn => ?_⟩
  · obtain ⟨backing, bytes, plan, personality, m, hplaced, rfl⟩ := prepare_eq_ok.mp hr
    have hstart : c.Reaches d b config token flags plan personality m _ := reaches_start
    obtain ⟨visits, hl⟩ := (hstart.foreseen hplaced).lockstep
    exact ⟨_, fun positions s hs => hl.ends (tiring c b hmax) (Nat.succ_pos _) hs⟩
  · cases hprepare : c.prepare d b.kernel config token flags with
    | error e =>
      have hprepare' : (c.retimed clock).prepare d b.kernel config token flags = .error e := by
        rw [prepare_retimed, hprepare]
        rfl
      obtain rfl := hx.eq_error hprepare
      obtain rfl := hy.eq_error hprepare'
      exact .error (.same e)
    | ok r =>
      obtain ⟨backing, bytes, plan, personality, m, hplaced, rfl⟩ := prepare_eq_ok.mp hprepare
      have hwhole : ∀ fault, ¬plan.Torn m fault := fun fault htorn => hwhole _ hprepare fault htorn
      exact hplaced.returns_alike ha hb hmax hdeadline hlow hwhole hx hy
  · obtain ⟨backing, bytes, plan, personality, m, hplaced, rfl⟩ := prepare_eq_ok.mp hr
    have htorn : plan.Torn m fault := htorn
    obtain ⟨hclear, hmover, addr, hcompute⟩ := hplaced.race_of_torn htorn
    refine ⟨addr, fun x => (returns_iff hplaced).trans ⟨?_, ?_⟩⟩
    · rintro ⟨s, hs, hfinished, rfl⟩
      obtain ⟨unit, e, hfaulty, -, -, hresult⟩ := hplaced.fails hlow hs hfinished hmover fun i hi unit e => by
        obtain rfl := Nat.lt_one_iff.mp hi
        exact hclear unit e
      rw [hresult]
      rcases hfaulty.unit_eq with rfl | rfl
      · exact Or.inl (congrArg _ (hfaulty.unique hmover))
      · exact Or.inr (congrArg _ (hfaulty.unique hcompute))
    · rintro (rfl | rfl)
      · exact hplaced.exists_first hmax hlow hclear hmover
      · exact hplaced.exists_first hmax hlow hclear hcompute

/-- Sixty-four units, the first of which computes and one in the middle of which moves data, and a scratchpad of which
    only the first half lies in the TCDM. -/
def overhanging : Cluster :=
  make ⟨64, 32, 0, by decide, by decide, by decide⟩
    ⟨0x1001FFD0, 96, 8, Scratchpad.isPowerOfTwo_eight, by decide, by decide, by decide⟩

/-- There the input `b` of the second tile and the output of the first lie outside the TCDM. -/
theorem exists_placed_overhanging :
    ∃ plan m, overhanging.Placed (.random 8 1) Kernel.mac ⟨4, .double, .polls 100⟩ ⟨0x80000000, 0x80000020, 0x80000040⟩ 96
        plan .mac m ∧ plan.Torn m (.unmapped .destination 0x10020000 16) ∧ plan.tileBytes = 16 ∧
      (plan.slotTile 0).outside? = some 0x10020010 := by
  obtain ⟨plan, hplan, htorn, hbytes, houtside⟩ :
      ∃ plan, TilePlan.make 8 ⟨4, .double, .polls 100⟩ overhanging.scratchpad ⟨0x80000000, 0x80000020, 0x80000040⟩ = .ok plan ∧
        (∀ m : Memory, m.Snax 96 → plan.Torn m (.unmapped .destination 0x10020000 16)) ∧ plan.tileBytes = 16 ∧
          (plan.slotTile 0).outside? = some 0x10020010 := by
    refine ⟨_, rfl, fun m hm => ?_, rfl, rfl⟩
    simp only [TilePlan.Torn, TilePlan.refusalIn?, TransferQueue.refusal?, Memory.contains_eq_any, hm.1]
    decide
  obtain ⟨m, hplaced⟩ := exists_placed (c := overhanging) (d := .random 8 1) (k := Kernel.mac) rfl hplan rfl rfl rfl
  exact ⟨plan, m, hplaced, htorn m hplaced.snax, hbytes, houtside⟩

/-- Whether the mover or the compute unit fails first there is a matter of timing. -/
theorem overhanging_returns :
    overhanging.Returns (.random 8 1) Kernel.mac ⟨4, .double, .polls 100⟩ ⟨0, []⟩ ⟨#[false]⟩
        (.error (.transferFailed (.unmapped .destination 0x10020000 16))) ∧
      overhanging.Returns (.random 8 1) Kernel.mac ⟨4, .double, .polls 100⟩ ⟨0, []⟩ ⟨#[false]⟩
        (.error (.deviceFault (.operandOutside "snax-mac" 0x10020010 16))) := by
  obtain ⟨plan, m, hplaced, htorn, hbytes, houtside⟩ := exists_placed_overhanging
  obtain ⟨hclear, hmover, -⟩ := Placed.race_of_torn (b := .mac) hplaced htorn
  have hcompute : overhanging.Foretells .mac ⟨4, .double, .polls 100⟩ plan m 1 overhanging.topology.compute
      (.deviceFault (.operandOutside "snax-mac" 0x10020010 16)) := by
    rw [← hbytes]
    exact foretells_compute_iff.mpr ⟨0, hplaced.accepted.tiles_pos, rfl, .outside houtside⟩
  exact ⟨(returns_iff (b := .mac) hplaced).mpr (Placed.exists_first (b := .mac) hplaced rfl rfl hclear hmover),
    (returns_iff (b := .mac) hplaced).mpr (Placed.exists_first (b := .mac) hplaced rfl rfl hclear hcompute)⟩

/-- So two runs there need not return the same. -/
theorem timing_decides_overhanging :
    ¬∀ x y, overhanging.Returns (.random 8 1) Kernel.mac ⟨4, .double, .polls 100⟩ ⟨0, []⟩ ⟨#[false]⟩ x →
      overhanging.Returns (.random 8 1) Kernel.mac ⟨4, .double, .polls 100⟩ ⟨0, []⟩ ⟨#[false]⟩ y → x = y := by
  intro hsame
  obtain ⟨hmover, hcompute⟩ := overhanging_returns
  have heq := hsame _ _ hmover hcompute
  cases heq

/-- On the chip any two runs of the reference dataset return the same; where the scratchpad overhangs, a run returns one of
    two errors. -/
theorem reference_returns_alike :
    (∀ x y, (make .snax .tcdm).Returns .reference Kernel.mac ⟨4, .double, .polls 100⟩ ⟨0, []⟩ ⟨#[false]⟩ x →
      (make .snax .tcdm).Returns .reference Kernel.mac ⟨4, .double, .polls 100⟩ ⟨0, []⟩ ⟨#[false]⟩ y → x = y) ∧
    ∃ addr, ∀ x, overhanging.Returns (.random 8 1) Kernel.mac ⟨4, .double, .polls 100⟩ ⟨0, []⟩ ⟨#[false]⟩ x ↔
      x = .error (.transferFailed (.unmapped .destination 0x10020000 16)) ∨
        x = .error (.deviceFault (.operandOutside "snax-mac" addr 16)) := by
  constructor
  · intro x y hx hy
    obtain ⟨-, hwhole, -⟩ := timing_decides_only_races (make .snax .tcdm) (fun _ => .still) .reference .mac
      ⟨4, .double, .polls 100⟩ ⟨0, []⟩ ⟨#[false]⟩ rfl rfl rfl rfl rfl
    refine (hwhole (fun r hr fault htorn => ?_) x y hx hy).eq
    obtain ⟨backing, bytes, plan, personality, m, hplaced, rfl⟩ := prepare_eq_ok.mp hr
    obtain ⟨rfl, rfl⟩ : backing = ⟨0x80000000, 0x80000050, 0x800000A0⟩ ∧ bytes = 240 := by
      cases hplaced.backing_eq
      exact ⟨rfl, rfl⟩
    obtain ⟨plan', hplan', hinside⟩ : ∃ plan, TilePlan.make 20 ⟨4, .double, .polls 100⟩ .tcdm
        ⟨0x80000000, 0x80000050, 0x800000A0⟩ = .ok plan ∧ (plan.slotTile 0).outside? = none := ⟨_, rfl, rfl⟩
    obtain rfl := Except.ok.inj (hplan'.symm.trans hplaced.plan_eq)
    obtain ⟨addr, houtside⟩ := hplaced.accepted.outside_of_refusalIn? hplaced.backed hplaced.snax htorn.2
    rw [hinside] at houtside
    cases houtside
  · obtain ⟨plan, m, hplaced, htorn, hbytes, -⟩ := exists_placed_overhanging
    obtain ⟨-, -, hrace⟩ := timing_decides_only_races overhanging (fun _ => .still) (.random 8 1) .mac
      ⟨4, .double, .polls 100⟩ ⟨0, []⟩ ⟨#[false]⟩ rfl rfl rfl rfl rfl
    obtain ⟨addr, hreturns⟩ := hrace _ (prepare_eq_ok.mpr ⟨_, _, _, _, m, hplaced, rfl⟩) _ htorn
    exact ⟨addr, hbytes ▸ hreturns⟩

end Cluster

end TileOffload
