import TileOffload.Proofs.Outcome

/-! # Which unit fails first

Two units that are foretold to fail in the same iteration race: the one that fails first raises the token, and the other
may see it in time. Main statement: where nothing fails in the first iteration, the run may return the error of any unit
that is foretold to fail in the second. -/

namespace TileOffload

namespace Pipeline

variable {σ : Type} {hardware : Hardware σ} {s t : Pipeline σ} {visits positions : List Nat} {j position : Nat} {w : Worker}

theorem follow_other (h : follow? hardware (positions.map .step) s = some t) (hne : ∀ q ∈ positions, q ≠ j) :
    t.workers[j]? = s.workers[j]? := by
  induction positions generalizing s with
  | nil =>
    cases h
    rfl
  | cons q positions ih =>
    obtain ⟨u, hu, h⟩ := Option.bind_eq_some_iff.mp h
    obtain ⟨hq, hne⟩ := List.forall_mem_cons.mp hne
    obtain ⟨w, hw, hstep⟩ := stepped_of_step? hu
    obtain ⟨-, w', -, hworkers, -⟩ := hstep.progress hw
    rw [ih h hne, hworkers, List.getElem?_set_ne hq]

/-- A unit that cannot go on is through, or waits for another. -/
theorem phase_of_stuck (hw : s.workers[position]? = some w) (hstuck : s.step? hardware position = none) :
    w.phase = .finished ∨ w.phase = .waiting ∧ ∃ v ∈ s.workers, v.hasArrived w.iteration = false := by
  by_cases hfinished : w.phase = .finished
  · exact Or.inl hfinished
  · refine Or.inr ?_
    by_contra hmet
    obtain ⟨t, ht⟩ : ∃ t, s.step? hardware position = some t := step?_isSome hw hfinished fun hp v hv =>
      eq_true_of_ne_false fun hx => hmet ⟨hp, v, hv, hx⟩
    rw [hstuck] at ht
    cases ht

/-- Units that cannot go on, since another has not come to the first barrier, wait at it. -/
theorem Lockstep.waiting_of_stuck (hl : Lockstep s visits) (hmany : 1 < s.plan.iterations) {v : Worker}
    (hv : v ∈ s.workers) (hlate : v.hasArrived 0 = false)
    (hw : s.workers[position]? = some w) (hstuck : s.step? hardware position = none) :
    w.iteration = 0 ∧ w.phase = .waiting := by
  have hmem := List.mem_of_getElem? hw
  have hzero : w.iteration = 0 := by
    by_contra hpast
    rw [hl.met w hmem v hv 0 (Nat.pos_of_ne_zero hpast)] at hlate
    cases hlate
  refine ⟨hzero, (phase_of_stuck hw hstuck).elim (fun hfinished => ?_) And.left⟩
  have hlast := (hl.finished w hmem).mp hfinished
  omega

/-- A unit that cannot go on, since the others wait at the first barrier, waits at the second. -/
theorem Lockstep.arrived_of_stuck (hl : Lockstep s visits) (hmany : 1 < s.plan.iterations) {v : Worker}
    (hv : v ∈ s.workers) (hvw : v.iteration = 0)
    (hothers : ∀ x ∈ s.workers, x = w ∨ x.hasArrived 0 = true) (hw : s.workers[position]? = some w)
    (hstuck : s.step? hardware position = none) : w.phase = .waiting ∧ w.iteration = 1 := by
  have hmem := List.mem_of_getElem? hw
  have hle : w.iteration ≤ 1 := by
    by_contra hpast
    have harrived := hasArrived_iff.mp (hl.met w hmem v hv 1 (by omega))
    omega
  obtain ⟨hphase, x, hx, hlate⟩ := (phase_of_stuck hw hstuck).resolve_left fun hfinished => by
    have hlast := (hl.finished w hmem).mp hfinished
    omega
  refine ⟨hphase, Nat.le_antisymm hle (Nat.pos_of_ne_zero fun hzero => ?_)⟩
  rw [hzero] at hlate
  rcases hothers x hx with rfl | harrived
  · have harrived : x.hasArrived 0 = true := hasArrived_iff.mpr (Or.inr ⟨hzero, hphase⟩)
    rw [harrived] at hlate
    cases hlate
  · rw [harrived] at hlate
    cases hlate

/-- A unit without an error of its own that waits at the barrier of an iteration, or rests after it. -/
structure Beaten (n : Nat) (w : Worker) : Prop where
  causeless : ¬w.HasCause
  rests : w.iteration = n ∧ w.phase = .waiting ∨ n < w.iteration ∧ AtRest w

theorem Stepped.beaten {n : Nat} (h : Stepped hardware s position w t) (hw : s.workers[position]? = some w)
    (hraised : s.isRaised = true) (hbeaten : Beaten n w) :
    ∃ w', t.workers = s.workers.set position w' ∧ Beaten n w' := by
  obtain ⟨hcauseless, hrests⟩ := id hbeaten
  have hpast : w.phase ≠ .waiting → n < w.iteration ∧ AtRest w := fun hp => hrests.resolve_left fun hx => hp hx.2
  cases h with
  | checked phase =>
    have hstopped : w.checked s.plan (s.flags.isCancelled s.token) =
        { w with failure := some (.cancelled w.iteration), phase := .settling } := if_pos hraised
    rw [hstopped]
    refine ⟨_, rfl, ?_, Or.inr ⟨(hpast (by simp [phase])).1, nofun, nofun⟩⟩
    rintro ⟨e, he, hc⟩
    cases he
    cases hc
  | worked phase | ended phase => exact absurd phase ((hpast (by simp [phase])).2.2 _ _)
  | raised phase => exact absurd phase (hpast (by simp [phase])).2.1
  | settled phase answer => exact ⟨w, (set_self hw).symm, hbeaten⟩
  | arrived phase answer => exact ⟨_, rfl, hcauseless, Or.inr ⟨(hpast (by simp [phase])).1, nofun, nofun⟩⟩
  | passed phase met =>
    refine ⟨_, rfl, hcauseless, Or.inr ⟨?_, ?_⟩⟩
    · rw [iteration_passed]
      exact Nat.lt_succ_of_le (hrests.elim (fun hx => Nat.le_of_eq hx.1.symm) fun hx => Nat.le_of_lt hx.1)
    · unfold AtRest Worker.passed
      dsimp only
      split
      · exact ⟨nofun, nofun⟩
      · split <;> exact ⟨nofun, nofun⟩

/-- Once a unit has raised the token after the others came to a barrier, they rest. -/
theorem follow_beaten {topology : Topology} {u n : Nat} (hroster : Roster topology s) (hraised : s.isRaised = true)
    (hbeaten : ∀ v w, s.workers[v]? = some w → v ≠ u → Beaten n w)
    (h : follow? hardware (positions.map .step) s = some t) :
    ∀ v w, t.workers[v]? = some w → v ≠ u → Beaten n w := by
  -- On the steps: the token stays raised, and a unit that rests or waits at the barrier goes on to rest.
  induction positions generalizing s with
  | nil =>
    cases h
    exact hbeaten
  | cons q positions ih =>
    obtain ⟨s', hs', h⟩ := Option.bind_eq_some_iff.mp h
    obtain ⟨w, hw, hstep⟩ := stepped_of_step? hs'
    have hsound := hroster.sound w (List.mem_of_getElem? hw)
    obtain ⟨w', hworkers, -, -, -, -, hmono⟩ := hstep.worker hw hroster.own hsound
    refine ih (hroster.move hs') (hmono hraised) (fun v x hx hv => ?_) h
    by_cases hq : q = v
    · subst hq
      obtain ⟨w'', hworkers', hbeaten'⟩ := hstep.beaten hw hraised (hbeaten q w hw hv)
      rw [hworkers', getElem?_set_self hw] at hx
      cases hx
      exact hbeaten'
    · rw [hworkers, List.getElem?_set_ne hq] at hx
      exact hbeaten v x hx hv

end Pipeline

namespace Cluster

variable {c : Cluster} {d : Dataset} {b : Kernel.BuiltIn} {config : PipelineConfig} {token : CancelToken}
  {flags : CancelFlags} {backing : Backing} {bytes : Nat} {plan : TilePlan} {personality : Personality} {m : Memory}
  {unit limit : Nat} {e : Error}

theorem tiring (c : Cluster) (b : Kernel.BuiltIn) (hmax : config.wait.maxPolls = some limit) :
    (World.hardware c.topology ⟨b.kernel, config.wait, c.clock⟩).Tiring (fun w => w.phase.left limit + w.unsettled)
      (World.cost limit) := World.hardware_tiring (Kernel.BuiltIn.follows b) hmax c.topology

/-- All units but one may go on to the first barrier before that one does anything. -/
theorem Placed.exists_gathered (h : c.Placed d b.kernel config backing bytes plan personality m)
    (hmax : config.wait.maxPolls = some limit) (hclear : ∀ unit e, ¬c.Foretells b config plan m 0 unit e)
    (hunit : unit < c.topology.units) :
    ∃ s, c.Reaches d b config token flags plan personality m s ∧
      ∀ v w, s.workers[v]? = some w → v ≠ unit → ¬w.HasCause ∧ w.iteration = 0 ∧ w.phase = .waiting := by
  have hstart : c.Reaches d b config token flags plan personality m _ := reaches_start
  obtain ⟨visits, hl⟩ := (hstart.foreseen h).lockstep
  obtain ⟨positions, s, hothers, hfollow, hstuck⟩ := hl.exists_stuck (tiring c b hmax) (Nat.succ_pos _) (· ≠ unit)
  have hs := hstart.later hfollow
  have hforeseen := hs.foreseen h
  obtain ⟨visits, hl⟩ := hforeseen.lockstep
  have hfresh : s.workers[unit]? = some ⟨0, .checking, none, ⟨unit, c.topology.roleOf unit, #[], 0, 0⟩⟩ := by
    rw [Pipeline.follow_other hfollow hothers, workers_setUp h.iterations_pos hunit, create_unit]
  refine ⟨s, hs, fun v w hw hv => ?_⟩
  have hmany : 1 < s.plan.iterations := by
    rw [hforeseen.plan_eq, h.iterations_eq]
    omega
  obtain ⟨hi, hp⟩ := hl.waiting_of_stuck hmany (List.mem_of_getElem? hfresh) rfl hw (hstuck v hv)
  refine ⟨?_, hi, hp⟩
  rintro ⟨e, he, hc⟩
  obtain ⟨i, hle, hfails⟩ := hforeseen.foretold.faulty hw he hc
  rw [hi, Nat.le_zero] at hle
  rw [hforeseen.plan_eq, hle] at hfails
  exact hclear v e hfails

/-- A unit that is foretold to fail in the second iteration may fail there, and raise the token, before any other has
    passed the first barrier. -/
theorem Placed.exists_overtaken (h : c.Placed d b.kernel config backing bytes plan personality m)
    (hmax : config.wait.maxPolls = some limit) (hclear : ∀ unit e, ¬c.Foretells b config plan m 0 unit e)
    (hfaulty : c.Foretells b config plan m 1 unit e) :
    ∃ s, c.Reaches d b config token flags plan personality m s ∧ s.isRaised = true ∧
      ∀ v w, s.workers[v]? = some w → v ≠ unit → Pipeline.Beaten 0 w := by
  have hunit := Foretells.lt_units hfaulty
  obtain ⟨s, hs, hgathered⟩ : ∃ s, c.Reaches d b config token flags plan personality m s ∧
    ∀ v w, s.workers[v]? = some w → v ≠ unit → ¬w.HasCause ∧ w.iteration = 0 ∧ w.phase = .waiting :=
      h.exists_gathered hmax hclear hunit
  obtain ⟨visits, hl⟩ := (hs.foreseen h).lockstep
  obtain ⟨positions, t, hone, hfollow, hstuck⟩ := hl.exists_stuck (tiring c b hmax) (Nat.succ_pos _) (· = unit)
  have hothers : ∀ v w, t.workers[v]? = some w → v ≠ unit → ¬w.HasCause ∧ w.iteration = 0 ∧ w.phase = .waiting := by
    intro v w hw hv
    rw [Pipeline.follow_other hfollow fun q hq hx => hv (hx.symm.trans (hone q hq))] at hw
    exact hgathered v w hw hv
  have ht := hs.later hfollow
  have hforeseen := ht.foreseen h
  obtain ⟨visits, hl⟩ := hforeseen.lockstep
  obtain ⟨w, hw⟩ : ∃ w, t.workers[unit]? = some w := ⟨_, List.getElem?_eq_getElem (ht.length_workers ▸ hunit)⟩
  -- There is another unit, at the first barrier, so this one can be no further than the second.
  obtain ⟨other, hother, hne⟩ : ∃ v < c.topology.units, v ≠ unit := by
    by_cases hmover : c.topology.mover = unit
    · exact ⟨_, c.topology.compute_lt, fun hx => c.topology.mover_ne_compute (hmover.trans hx.symm)⟩
    · exact ⟨_, c.topology.mover_lt, hmover⟩
  have hv := List.getElem?_eq_getElem (ht.length_workers ▸ hother)
  have hmany : 1 < t.plan.iterations := by
    rw [hforeseen.plan_eq, h.iterations_eq]
    omega
  obtain ⟨hphase, hi⟩ := hl.arrived_of_stuck hmany (List.mem_of_getElem? hv) (hothers other _ hv hne).2.1 (fun x hx => by
    obtain ⟨j, hj⟩ := List.mem_iff_getElem?.mp hx
    by_cases hju : j = unit
    · subst hju
      exact Or.inl (Option.some.inj (hj.symm.trans hw))
    · obtain ⟨-, hi, hp⟩ := hothers j x hj hju
      exact Or.inr (Pipeline.hasArrived_iff.mpr (Or.inr ⟨hi, hp⟩))) hw (hstuck unit rfl)
  refine ⟨t, ht, ?_, fun v x hx hv => ?_⟩
  · have hplan := hforeseen.plan_eq
    subst hplan
    have hfailed : w.failure ≠ none := fun hhealthy => hfaulty.not_clear (certain_expected _ _ _ _)
      (hforeseen.foretold.clear h.resolved hw hhealthy (Pipeline.hasArrived_iff.mpr (Or.inr ⟨hi, hphase⟩)))
    refine ((hforeseen.roster.sound w (List.mem_of_getElem? hw)).told hfailed).resolve_left fun hx => ?_
    rw [hphase] at hx
    cases hx
  · obtain ⟨hcauseless, hi, hp⟩ := hothers v x hx hv
    exact ⟨hcauseless, Or.inl ⟨hi, hp⟩⟩

/-- Where nothing is foretold to fail in the first iteration, a run may return the error of any unit that is foretold to
    fail in the second. -/
theorem Placed.exists_first (h : c.Placed d b.kernel config backing bytes plan personality m)
    (hmax : config.wait.maxPolls = some limit) (hlow : flags.isCancelled token = false)
    (hclear : ∀ unit e, ¬c.Foretells b config plan m 0 unit e) (hfaulty : c.Foretells b config plan m 1 unit e) :
    ∃ s, c.Reaches d b config token flags plan personality m s ∧ s.isFinished = true ∧
      ({ c.setUp d b.kernel config token flags plan personality m with pipeline := s } : Run).result = .error e := by
  obtain ⟨s, hs, hraised, hbeaten⟩ : ∃ s, c.Reaches d b config token flags plan personality m s ∧ s.isRaised = true ∧
    ∀ v w, s.workers[v]? = some w → v ≠ unit → Pipeline.Beaten 0 w := h.exists_overtaken hmax hclear hfaulty
  have hforeseen := hs.foreseen h
  obtain ⟨visits, hl⟩ := hforeseen.lockstep
  obtain ⟨positions, t, hfollow, hfinished⟩ := hl.exists_finished (tiring c b hmax) (Nat.succ_pos _)
  have ht := hs.later hfollow
  obtain ⟨first, e', hfaulty', hcancelled, hfirst, hresult⟩ := h.fails hlow ht hfinished hfaulty fun i hi unit e =>
    (Nat.lt_one_iff.mp hi) ▸ hclear unit e
  refine ⟨t, ht, hfinished, ?_⟩
  -- Nobody else has an error of its own.
  obtain ⟨w, hw, hfailure⟩ := Pipeline.results_eq_error.mp hfirst
  have hsame : first = unit := by
    by_contra hne
    refine (Pipeline.follow_beaten hforeseen.roster hraised hbeaten hfollow first w hw hne).causeless ?_
    exact ⟨e', hfailure, hcancelled⟩
  subst hsame
  rw [hresult, hfaulty.unique hfaulty']

end Cluster

end TileOffload
