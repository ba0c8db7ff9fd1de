import TileOffload.Proofs.Completion
import TileOffload.Proofs.Ending
import TileOffload.Proofs.FirstFailure

/-! # What a run returns

A run that nobody stops from outside, of a built-in kernel that waits for the device with a bound on its polls. Main
statements: in the end it returns the error of a unit that is foretold to fail, in the first iteration in which any unit
is; if none is, it returns the report of a run in which nothing has gone wrong. -/

namespace TileOffload

namespace Cluster

variable {c : Cluster} {d : Dataset} {b : Kernel.BuiltIn} {config : PipelineConfig} {token : CancelToken}
  {flags : CancelFlags} {backing : Backing} {bytes : Nat} {plan : TilePlan} {personality : Personality} {m : Memory}
  {moves : List Move} {positions : List Nat} {s : Pipeline World} {n unit : Nat} {e : Error}

/-- The answers of the hardware of a cluster. -/
abbrev Answers (c : Cluster) (b : Kernel.BuiltIn) (config : PipelineConfig) (m : Memory) : Job → Outcome Nat → Prop :=
  Expected ⟨b.kernel, config.wait, c.clock⟩ c.latency c.stuck m

/-- A unit of the cluster is foretold to fail in an iteration. -/
abbrev Foretells (c : Cluster) (b : Kernel.BuiltIn) (config : PipelineConfig) (plan : TilePlan) (m : Memory) (i unit : Nat)
    (e : Error) : Prop := plan.Faulty (c.Answers b config m) plan.backTile unit (c.topology.roleOf unit) i e

/-- The mover and the compute unit are the only units that are ever foretold to fail. -/
theorem Foretells.unit_eq (h : c.Foretells b config plan m n unit e) :
    unit = c.topology.mover ∨ unit = c.topology.compute := by
  rw [Foretells, Topology.roleOf] at h
  split at h
  · exact Or.inl ‹_›
  · split at h
    · exact Or.inr ‹_›
    · exact absurd rfl h.jobs_ne_nil

theorem Foretells.lt_units (h : c.Foretells b config plan m n unit e) : unit < c.topology.units := by
  rcases h.unit_eq with rfl | rfl
  · exact c.topology.mover_lt
  · exact c.topology.compute_lt

theorem foretells_mover_iff : c.Foretells b config plan m n c.topology.mover e ↔
    ∃ fault, plan.refusalIn? m n = some fault ∧ e = .transferFailed fault := by
  rw [Foretells, Topology.roleOf_mover]
  constructor
  · exact TilePlan.Faulty.mover
  · rintro ⟨fault, hrefusal, rfl⟩
    exact TilePlan.faulty_mover hrefusal _

theorem foretells_compute_iff : c.Foretells b config plan m n c.topology.compute e ↔
    ∃ t < plan.tiles, n = t + 1 ∧
      Verdict ⟨b.kernel, config.wait, c.clock⟩ c.latency c.stuck (plan.slotTile t) (.failed e) := by
  rw [Foretells, Topology.roleOf_compute]
  constructor
  · exact TilePlan.Faulty.compute
  · rintro ⟨t, ht, rfl, hverdict⟩
    exact TilePlan.faulty_compute ht hverdict _

theorem not_foretells_zero (h : plan.refusalIn? m 0 = none) (unit : Nat) (e : Error) :
    ¬c.Foretells b config plan m 0 unit e := by
  intro hfaulty
  rcases hfaulty.unit_eq with rfl | rfl
  · obtain ⟨fault, hrefusal, -⟩ := foretells_mover_iff.mp hfaulty
    rw [h] at hrefusal
    cases hrefusal
  · obtain ⟨t, -, hi, -⟩ := foretells_compute_iff.mp hfaulty
    cases hi

theorem served_of_not_foretells {t limit : Nat} (hmax : config.wait.maxPolls = some limit) (ht : t < plan.tiles)
    (hquiet : ∀ e, ¬c.Foretells b config plan m (t + 1) c.topology.compute e) :
    Verdict ⟨b.kernel, config.wait, c.clock⟩ c.latency c.stuck (plan.slotTile t) (.done (c.latency + 1)) := by
  have hnot : ∀ e, ¬Verdict ⟨b.kernel, config.wait, c.clock⟩ c.latency c.stuck (plan.slotTile t) (.failed e) :=
    fun e hverdict => hquiet e (foretells_compute_iff.mpr ⟨t, ht, rfl, hverdict⟩)
  obtain ⟨outcome, hverdict⟩ :
      ∃ outcome, Verdict ⟨b.kernel, config.wait, c.clock⟩ c.latency c.stuck (plan.slotTile t) outcome :=
    Verdict.exists_of_maxPolls hmax _ _ _
  cases hverdict with
  | served inside aligned free patient => exact .served inside aligned free patient
  | outside outside => exact absurd (.outside outside) (hnot _)
  | unaligned inside unaligned => exact absurd (.unaligned inside unaligned) (hnot _)
  | late inside aligned patient polled gaveUp busy =>
    exact absurd (.late inside aligned patient polled gaveUp busy) (hnot _)

/-- Once a unit is foretold to fail in an iteration, none works in a later one, whoever raises a token. -/
theorem Placed.decided (h : c.Placed d b.kernel config backing bytes plan personality m)
    (hfaulty : c.Foretells b config plan m n unit e)
    (hmoves : Pipeline.follow? (World.hardware c.topology ⟨b.kernel, config.wait, c.clock⟩) moves
      (c.setUp d b.kernel config token flags plan personality m).pipeline = some s) :
    s.Decided (c.Answers b config m) plan.backTile c.topology n := by
  have hcertain : Certain (c.Answers b config m) := certain_expected _ _ _ _
  -- What is foreseen for the run says that a unit which comes through an iteration has found its jobs to succeed.
  suffices Pipeline.Foreseen c.topology plan b ⟨b.kernel, config.wait, c.clock⟩ c.latency c.stuck bytes m s ∧
      s.workers.length = c.topology.units ∧ s.Decided (c.Answers b config m) plan.backTile c.topology n from this.2.2
  refine (Pipeline.reached_of_follow? (fun _ _ => (none : Option Unit)) hmoves).invariant
    (P := fun s _ => Pipeline.Foreseen c.topology plan b ⟨b.kernel, config.wait, c.clock⟩ c.latency c.stuck bytes m s ∧
      s.workers.length = c.topology.units ∧ s.Decided (c.Answers b config m) plan.backTile c.topology n)
    ⟨foreseen_setUp h, length_workers_setUp, ?_, ?_⟩ ?_
  · intro w hw hlate
    obtain ⟨unit, rfl⟩ := mem_workers_setUp h.iterations_pos hw
    cases hlate
  · intro unit w e hw he
    obtain ⟨unit, rfl⟩ := mem_workers_setUp h.iterations_pos (List.mem_of_getElem? hw)
    cases he
  · rintro s t - move ⟨hforeseen, hfull, hdecided⟩ hm
    have hforeseen' := hforeseen.move h.snax h.resolved rfl h.narrow hm
    refine ⟨hforeseen', (Pipeline.move?_frame hm).2.2.trans hfull, ?_⟩
    obtain ⟨visits, hl⟩ := hforeseen.lockstep
    have hplan := hforeseen.plan_eq
    subst hplan
    cases move with
    | raise u =>
      cases hm
      exact ⟨hdecided.late, hdecided.early⟩
    | step position =>
      refine hdecided.step hforeseen'.foretold (fun w hw hpast => ?_) hm
      exact hdecided.raised hcertain hl hforeseen.roster hforeseen.foretold h.resolved
        (hfull ▸ Foretells.lt_units hfaulty) hfaulty hw hpast

/-- The run that has been set up comes to a state when units go on one after another, and nobody raises a token. -/
def Reaches (c : Cluster) (d : Dataset) (b : Kernel.BuiltIn) (config : PipelineConfig) (token : CancelToken)
    (flags : CancelFlags) (plan : TilePlan) (personality : Personality) (m : Memory) (s : Pipeline World) : Prop :=
  ∃ positions : List Nat, Pipeline.follow? (World.hardware c.topology ⟨b.kernel, config.wait, c.clock⟩)
    (positions.map .step) (c.setUp d b.kernel config token flags plan personality m).pipeline = some s

theorem reaches_start :
    c.Reaches d b config token flags plan personality m
      (c.setUp d b.kernel config token flags plan personality m).pipeline := ⟨[], rfl⟩

theorem Reaches.later {t : Pipeline World} (h : c.Reaches d b config token flags plan personality m s)
    (ht : Pipeline.follow? (World.hardware c.topology ⟨b.kernel, config.wait, c.clock⟩) (positions.map .step) s = some t) :
    c.Reaches d b config token flags plan personality m t := by
  obtain ⟨before, hs⟩ := h
  refine ⟨before ++ positions, ?_⟩
  rw [List.map_append, Pipeline.follow?_append, hs]
  exact ht

theorem Reaches.foreseen (h : c.Reaches d b config token flags plan personality m s)
    (hplaced : c.Placed d b.kernel config backing bytes plan personality m) :
    Pipeline.Foreseen c.topology plan b ⟨b.kernel, config.wait, c.clock⟩ c.latency c.stuck bytes m s := by
  obtain ⟨positions, hs⟩ := h
  exact hplaced.foreseen hs

theorem Reaches.length_workers (h : c.Reaches d b config token flags plan personality m s) :
    s.workers.length = c.topology.units := by
  obtain ⟨positions, hs⟩ := h
  exact (Pipeline.reached_of_follow? (fun _ _ => (none : Option Unit)) hs).frame.2.2.trans length_workers_setUp

/-- A run that nobody stops from outside is stopped for a cause only. -/
theorem Placed.contained (h : c.Placed d b.kernel config backing bytes plan personality m)
    (hlow : flags.isCancelled token = false)
    (hs : c.Reaches d b config token flags plan personality m s) :
    ∃ log, Pipeline.Contained flags token s log ∧ (s.isRaised = true → ∃ w ∈ s.workers, w.HasCause) := by
  obtain ⟨positions, hs⟩ := hs
  have hr : c.prepare d b.kernel config token flags = .ok (c.setUp d b.kernel config token flags plan personality m) :=
    prepare_eq_ok.mpr ⟨_, _, _, _, m, h, rfl⟩
  have hnone : ∀ u, Move.raise u ∉ positions.map Move.step := by simp
  obtain ⟨hcontained, -⟩ := contained_of_follow? (Kernel.BuiltIn.genuine b) hr (fun u hu => absurd hu (hnone u)) hs
  exact ⟨_, hcontained, hcontained.cause_of_quiet hlow fun u hu => hnone u (Pipeline.mem_of_trouble hu)⟩

/-- A run that nobody stops from outside returns the error of a unit, one that is foretold for the first iteration in
    which any is. -/
theorem Placed.fails (h : c.Placed d b.kernel config backing bytes plan personality m)
    (hlow : flags.isCancelled token = false)
    (hs : c.Reaches d b config token flags plan personality m s)
    (hfinished : s.isFinished = true) (hfaulty : c.Foretells b config plan m n unit e)
    (hfirst : ∀ i < n, ∀ unit e, ¬c.Foretells b config plan m i unit e) :
    ∃ unit e, c.Foretells b config plan m n unit e ∧ e.isCancelled = false ∧ s.results[unit]? = some (.error e) ∧
      ({ c.setUp d b.kernel config token flags plan personality m with pipeline := s } : Run).result = .error e := by
  have hcertain : Certain (c.Answers b config m) := certain_expected _ _ _ _
  have hforeseen := hs.foreseen h
  have hdecided : s.Decided (c.Answers b config m) plan.backTile c.topology n := by
    obtain ⟨positions, hs⟩ := hs
    exact h.decided hfaulty hs
  have hplan := hforeseen.plan_eq
  subst hplan
  obtain ⟨visits, hl⟩ := hforeseen.lockstep
  obtain ⟨log, hcontained, hcause⟩ := h.contained hlow hs
  obtain ⟨unit, e, hfaulty, hcancelled, hresult, hfailure⟩ := hdecided.failure? hcertain hl hforeseen.foretold h.resolved
    hcontained hcause hfinished (hs.length_workers ▸ Foretells.lt_units hfaulty) hfaulty hfirst
  exact ⟨unit, e, hfaulty, hcancelled, hresult, Run.result_of_failure? hfailure⟩

/-- A run in which no unit is foretold to fail returns the report of a run in which nothing has gone wrong. -/
theorem Placed.succeeds (h : c.Placed d b.kernel config backing bytes plan personality m) (ha : d.a.length = d.length)
    (hb : d.b.length = d.length) {limit : Nat} (hmax : config.wait.maxPolls = some limit)
    (hlow : flags.isCancelled token = false)
    (hs : c.Reaches d b config token flags plan personality m s)
    (hfinished : s.isFinished = true) (hclear : ∀ i unit e, ¬c.Foretells b config plan m i unit e) :
    (∀ w ∈ s.workers, w.failure = none) ∧
      ({ c.setUp d b.kernel config token flags plan personality m with pipeline := s } : Run).result = .ok {
        kernel := b.kernel.name
        tiles := plan.tiles
        iterations := plan.iterations
        depth := plan.depth
        output := b.kernel.golden d.a d.b
        verification := .check (b.kernel.golden d.a d.b) d b.kernel
        launches := plan.tiles
        transfers := UInt32.ofNat (3 * plan.tiles)
        units := s.workers.map (·.report) } := by
  have hserved : ∀ t < plan.tiles, Verdict ⟨b.kernel, config.wait, c.clock⟩ c.latency c.stuck (plan.slotTile t)
      (.done (c.latency + 1)) := fun t ht => served_of_not_foretells hmax ht fun e => hclear (t + 1) _ e
  have hsited : plan.Sited bytes := h.accepted.sited_of_slots (laid_of_backingFor h.backing_eq) fun t ht => by
    cases hserved t ht with
    | served inside => exact TilePlan.outside?_slotTile.mp inside
  have htimely : Timely plan b c.latency ⟨b.kernel, config.wait, c.clock⟩ := by
    refine ⟨rfl, hsited.narrow, fun t ht l => ?_, fun t ht => ?_⟩
    · cases hserved t ht with
      | served _ aligned => exact TilePlan.unaligned?_slotTile.mp aligned l
    · cases hserved t ht with
      | served _ _ _ patient => exact patient
  have hfree : c.stuck = false := by
    cases hserved 0 h.accepted.tiles_pos
    assumption
  have hstart : Pipeline.Running c.topology plan d b bytes m c.latency
      (c.setUp d b.kernel config token flags plan personality m).pipeline :=
    ⟨⟨_, Pipeline.held_setUp h ha hb⟩, Pipeline.smooth_setUp h.iterations_pos hfree hlow, length_workers_setUp⟩
  obtain ⟨positions, hs⟩ := hs
  have hrun := (hstart.follow hsited (h.fits ha hb) htimely hs).1
  exact ⟨fun w hw => (hrun.smooth.fine w hw).failure, result_of_running h ha hb hsited hrun hfinished⟩

end Cluster

end TileOffload
