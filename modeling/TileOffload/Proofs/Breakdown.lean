import TileOffload.Proofs.Completion
import TileOffload.Proofs.Failing

/-! # Runs that break down

Main statement: a run whose compute unit fails on one tile ends with that failure, whichever unit goes on at each
moment, although the other units stop at different iterations. The results that have been stored by then are those
of the tiles before, up to the last of them, which is stored as a whole or not at all. -/

namespace TileOffload

/-- The results of the tiles before the one before tile `n` are in backing storage, where tile `n` and the ones after
    it are as before. The tile before it is one or the other. -/
def TilePlan.StoredBefore (p : TilePlan) (n : Nat) (results : List Word) (before after : Memory) : Prop :=
  ∀ t < p.tiles, ∃ tile, p.backingTile t = .ok tile ∧
    (t + 1 < n → after.readWords tile.o tile.elements = .ok ((results.drop (t * tile.elements)).take tile.elements)) ∧
    (n ≤ t → after.readWords tile.o tile.elements = before.readWords tile.o tile.elements) ∧
    (after.readWords tile.o tile.elements = .ok ((results.drop (t * tile.elements)).take tile.elements) ∨
      after.readWords tile.o tile.elements = before.readWords tile.o tile.elements)

namespace Cluster

/-- The compute unit fails on tile `n` with an error. Either the device of a built-in kernel is not done when all polls
    that the wait for it allows have been made; or the kernel, which does as a built-in kernel does where it describes
    a tile, panics on tile `n` first, and the device answers in time. No deadline ends a wait before. -/
inductive FailsOn (c : Cluster) (config : PipelineConfig) (plan : TilePlan) (b : Kernel.BuiltIn) :
    Kernel → Nat → Error → Prop
  | timeout {limit : Nat} (maxPolls : config.wait.maxPolls = some limit)
      (slow : c.stuck = true ∨ max limit 1 ≤ c.latency)
      (deadline : ∀ ms, config.wait.deadline = some ms → ∀ polls, 0 < polls → polls < max limit 1 → c.clock 0 polls < ms) :
    FailsOn c config plan b b.kernel 0 (.timeout (max limit 1) (c.clock 0 (max limit 1)))
  | panic {k : Kernel} {n : Nat} (follows : k.Follows b)
      (before : ∀ t < n, ∀ tile, plan.scratchpadTile t = .ok tile → k.describe tile = b.kernel.describe tile)
      (panics : ∀ tile, plan.scratchpadTile n = .ok tile → k.describe tile = .panicked) (stuck : c.stuck = false)
      (maxPolls : ∀ limit, config.wait.maxPolls = some limit → c.latency + 1 ≤ max limit 1)
      (deadline : ∀ ms, config.wait.deadline = some ms →
        ∀ t < n, ∀ polls, 0 < polls → polls ≤ c.latency → c.clock t polls < ms) :
    FailsOn c config plan b k n (.deviceFault (.panicked c.topology.compute (n + 1)))

variable {c : Cluster} {d : Dataset} {k : Kernel} {b : Kernel.BuiltIn} {config : PipelineConfig} {token : CancelToken}
  {flags : CancelFlags} {backing : Backing} {bytes n : Nat} {plan : TilePlan} {personality : Personality} {m : Memory}
  {e : Error} {P : Nat → World → Prop} {s : Pipeline World}

theorem FailsOn.follows (h : c.FailsOn config plan b k n e) : k.Follows b := by
  cases h with
  | timeout maxPolls slow deadline => exact b.follows
  | panic follows before panics stuck maxPolls deadline => exact follows

theorem FailsOn.cause (h : c.FailsOn config plan b k n e) : e.isCancelled = false := by
  cases h <;> rfl

/-- The engine of a run that breaks down fails on the tile with the error, from its idle state on. -/
theorem FailsOn.doomed (h : c.FailsOn config plan b k n e) (hplaced : c.Placed d k config backing bytes plan personality m)
    (hs : plan.Sited bytes) (hf : d.Fits plan) (hbase : 4 ∣ c.scratchpad.base.toNat) (hn : n < plan.tiles) :
    ∃ L P, Doomed plan d k b bytes ⟨k, config.wait, c.clock⟩ c.topology.compute L n e P ∧
      P 0 (c.setUp d k config token flags plan personality m).pipeline.world := by
  have haligned : ∀ t l, 4 ∣ (plan.slotWord t l).toNat := hplaced.slotWord_aligned hbase
  cases h with
  | @timeout limit maxPolls slow deadline =>
    refine ⟨_, _, doomed_slow b.follows hs hf rfl rfl hn hs.narrow (haligned 0) maxPolls (fun polls hpos hlt => ?_) _,
      slow, Or.inl ⟨rfl, rfl, trivial⟩⟩
    refine WaitPolicy.givesUp_eq_false (L := polls) (fun limit' hlimit => ?_)
      (fun ms hms => deadline ms hms polls hpos hlt) hpos (Nat.le_refl _)
    obtain rfl := Option.some.inj (maxPolls.symm.trans hlimit)
    exact hlt
  | panic follows before panics stuck maxPolls deadline =>
    refine ⟨_, _, doomed_panic follows hs hf rfl hn (fun t ht => before t ht _ (hs.placed t (Nat.lt_trans ht hn)))
      (panics _ (hs.placed n hn)) hs.narrow (fun t _ => haligned t) (fun t ht polls hpos hle => ?_) _,
      ⟨rfl, stuck, rfl, rfl, rfl⟩, fun _ => rfl⟩
    exact WaitPolicy.givesUp_eq_false maxPolls (fun ms hms => deadline ms hms t ht polls hpos hle) hpos hle

theorem failing_setUp (h : c.Placed d k config backing bytes plan personality m) (ha : d.a.length = d.length)
    (hb : d.b.length = d.length) (hlow : flags.isCancelled token = false)
    (hP : P 0 (c.setUp d k config token flags plan personality m).pipeline.world) :
    Pipeline.Failing c.topology plan d k b bytes m n e P (c.setUp d k config token flags plan personality m).pipeline := by
  refine ⟨⟨_, Pipeline.held_setUp h ha hb⟩, fun i w hw _ => ?_, fun C hC => ?_, fun M hM => ?_⟩
  · obtain ⟨unit, rfl⟩ := mem_workers_setUp h.iterations_pos (List.mem_of_getElem? hw)
    exact ⟨by simp, by simp⟩
  · obtain ⟨unit, rfl⟩ := mem_workers_setUp h.iterations_pos (List.mem_of_getElem? hC)
    have hthrough : Worker.through plan ⟨0, .checking, none, ⟨unit, c.topology.roleOf unit, #[], 0, 0⟩⟩ = 0 :=
      Nat.min_zero _
    have hquiet : (c.setUp d k config token flags plan personality m).pipeline.isRaised = false := by
      rw [Pipeline.isRaised, flags_setUp h.iterations_pos]
      exact CancelFlags.isCancelled_child.trans hlow
    refine ⟨fun _ => ⟨hquiet, ?_, ?_⟩, by simp, by simp⟩ <;> rw [hthrough]
    · exact Nat.zero_le _
    · exact hP
  · obtain ⟨unit, rfl⟩ := mem_workers_setUp h.iterations_pos (List.mem_of_getElem? hM)
    refine ⟨fun _ => Or.inl (Nat.zero_le _), fun hx => absurd rfl hx, fun t _ _ ha => ?_, fun t _ _ => .refl _ _⟩
    exact absurd (TilePlan.lt_of_hasArrived ha (by simp)) (Nat.not_lt_zero _)

/-- What the memory of a run that has broken down holds in the end. -/
theorem storedBefore_of_failing (h : c.Placed d k config backing bytes plan personality m) (ha : d.a.length = d.length)
    (hb : d.b.length = d.length) (hs : plan.Sited bytes)
    (hfailing : Pipeline.Failing c.topology plan d k b bytes m n e P s) (hfinished : s.isFinished = true) :
    plan.StoredBefore n (k.golden d.a d.b) m s.world.memory := by
  obtain ⟨hsnax, houtput⟩ := hfailing.output hs hfinished
  have hsnax₀ := (h.inputs ha hb).1
  intro t ht
  obtain ⟨hsecured, huntouched, hone⟩ := houtput t ht
  have hread := h.readWords_tile (l := .o) hs hsnax ht ((h.fits ha hb).length_words (k := k) ht .o)
  have hsame := h.readWords_tile_congr (l := .o) hs hsnax₀ hsnax ht
  exact ⟨_, hs.backingTile_eq ht, fun hlt => hread (hsecured hlt), fun hle => hsame (huntouched hle), hone.imp hread hsame⟩

/-- A run whose compute unit fails on one tile, with nobody raising a token: whichever unit goes on at each moment,
    there are only so many steps, some unit can go on until all are through, and then the run's result is that
    failure, and the results before it are in backing storage. In particular driving the units one after another
    comes to such an end. -/
theorem run_fails_under_every_schedule (ha : d.a.length = d.length) (hb : d.b.length = d.length)
    (hbacking : backingFor d.length = .ok (backing, bytes))
    (hplan : TilePlan.make d.length config c.scratchpad backing = .ok plan) (hbase : 4 ∣ c.scratchpad.base.toNat)
    (hin : ∀ l, Chip.inTcdm (plan.region l).addr (plan.region l).len = true)
    (hfails : c.FailsOn config plan b k n e) (hn : n < plan.tiles) (hlow : flags.isCancelled token = false) :
    ∃ r, c.prepare d k config token flags = .ok r ∧
      (∃ bound, ∀ (schedule : List Nat) (s : Pipeline World),
        Pipeline.follow? r.hardware (schedule.map .step) r.pipeline = some s →
          schedule.length ≤ bound ∧ (s.isFinished = false → ∃ unit t, s.step? r.hardware unit = some t) ∧
          (s.isFinished = true → ({ r with pipeline := s } : Run).result = .error e ∧
            plan.StoredBefore n (k.golden d.a d.b) r.pipeline.world.memory s.world.memory)) ∧
      ∃ patience flags', c.run patience d k config token flags = some (.error e, flags') := by
  have hk := hfails.follows
  have hpersonality : ∃ personality, Personality.ofMap? k.map = some personality := hk.map_eq ▸ exists_personality b
  obtain ⟨personality, hpersonality⟩ := hpersonality
  obtain ⟨m, hplaced⟩ := exists_placed hbacking hplan hpersonality ha hb
  have hprepare : c.prepare d k config token flags = .ok (c.setUp d k config token flags plan personality m) :=
    prepare_eq_ok.mpr ⟨_, _, _, _, m, hplaced, rfl⟩
  have hs := hplaced.sited hin
  have hf := hplaced.fits ha hb
  obtain ⟨L, P, hdoomed, hP⟩ := hfails.doomed hplaced hs hf hbase hn
  have hstart : Pipeline.Failing c.topology plan d k b bytes m n e P
      (c.setUp d k config token flags plan personality m).pipeline := failing_setUp hplaced ha hb hlow hP
  have hresult : ∀ {s : Pipeline World}, Pipeline.Failing c.topology plan d k b bytes m n e P s → s.isFinished = true →
      ({ c.setUp d k config token flags plan personality m with pipeline := s } : Run).result = .error e :=
    fun h hfinished => Run.result_of_failure? (h.failure? hs hn hfails.cause hfinished)
  refine ⟨_, hprepare, ⟨(c.setUp d k config token flags plan personality m).pipeline.stepsLeft plan L,
    fun schedule s hschedule => ?_⟩, ?_⟩
  · obtain ⟨hfailing, hle⟩ := Pipeline.follow_steps_of_measure (Pipeline.stepsLeft plan L)
      (fun h hstep => h.step hs hf hk rfl hdoomed hn hstep) hstart hschedule
    exact ⟨Nat.le_trans (Nat.le_add_right _ _) hle, hfailing.not_stuck, fun hfinished =>
      ⟨hresult hfailing hfinished, storedBefore_of_failing hplaced ha hb hs hfailing hfinished⟩⟩
  · obtain ⟨patience, s, hdrive, hfinished, hfailing⟩ :=
      Pipeline.ends_of_measure (Pipeline.stepsLeft plan L) (fun h hstep => h.step hs hf hk rfl hdoomed hn hstep)
        (fun h => h.not_stuck) hstart 0
    refine ⟨patience, s.flags, ?_⟩
    rw [run_of_drive hprepare hdrive, hresult hfailing hfinished]

/-- The chip with an accelerator that never answers. -/
def stuckChip : Cluster := { make .snax .tcdm with stuck := true }

/-- The products of the reference dataset, in five tiles: a device that never answers is given up after three polls, and
    on a chip in order a kernel that panics on the second tile fails the run in the third iteration. -/
theorem reference_fails_under_every_schedule :
    (∃ r, stuckChip.prepare .reference Kernel.mac ⟨4, .double, .polls 3⟩ ⟨0, []⟩ ⟨#[false]⟩ = .ok r ∧
      ∃ bound, ∀ (schedule : List Nat) (s : Pipeline World),
        Pipeline.follow? r.hardware (schedule.map .step) r.pipeline = some s → schedule.length ≤ bound ∧
          (s.isFinished = true → ({ r with pipeline := s } : Run).result = .error (.timeout 3 0))) ∧
    ∃ (r : Run) (plan : TilePlan),
      (make .snax .tcdm).prepare .reference faltering (.tiled 4) ⟨0, []⟩ ⟨#[false]⟩ = .ok r ∧ plan.tiles = 5 ∧
      (∃ bound, ∀ (schedule : List Nat) (s : Pipeline World),
        Pipeline.follow? r.hardware (schedule.map .step) r.pipeline = some s → schedule.length ≤ bound ∧
          (s.isFinished = true → ({ r with pipeline := s } : Run).result = .error (.deviceFault (.panicked 0 2)) ∧
            plan.StoredBefore 1 (Kernel.mac.golden Dataset.reference.a Dataset.reference.b) r.pipeline.world.memory
              s.world.memory)) ∧
      ∃ patience flags', (make .snax .tcdm).run patience .reference faltering (.tiled 4) ⟨0, []⟩ ⟨#[false]⟩ =
        some (.error (.deviceFault (.panicked 0 2)), flags') := by
  have hplan : ∃ plan, TilePlan.make 20 (.tiled 4) .tcdm ⟨0x80000000, 0x80000050, 0x800000A0⟩ = .ok plan ∧
      plan.tiles = 5 ∧ ∀ l, Chip.inTcdm (plan.region l).addr (plan.region l).len = true :=
    ⟨_, rfl, rfl, fun l => by cases l <;> rfl⟩
  obtain ⟨plan, hplan, htiles, hin⟩ := hplan
  constructor
  · have hfails : stuckChip.FailsOn ⟨4, .double, .polls 3⟩ plan .mac Kernel.mac 0 (.timeout 3 0) := by
      refine @FailsOn.timeout stuckChip _ plan .mac 3 rfl (Or.inl rfl) ?_
      rintro ms ⟨⟩
    obtain ⟨r, hr, ⟨bound, hbound⟩, -⟩ :=
      @run_fails_under_every_schedule stuckChip .reference Kernel.mac .mac ⟨4, .double, .polls 3⟩ ⟨0, []⟩ ⟨#[false]⟩ _ _ 0 plan
        _ rfl rfl rfl hplan (by decide) hin hfails (by omega) rfl
    refine ⟨r, hr, bound, fun schedule s hs => ?_⟩
    obtain ⟨hle, -, hend⟩ := hbound schedule s hs
    exact ⟨hle, fun hfinished => (hend hfinished).1⟩
  · have hfails : (make .snax .tcdm).FailsOn (.tiled 4) plan .mac faltering 1 (.deviceFault (.panicked 0 2)) := by
      refine .panic faltering_follows (fun t ht tile htile => ?_) (fun tile htile => ?_) rfl ?_ ?_
      · obtain rfl : t = 0 := by omega
        obtain ⟨-, rfl⟩ := TilePlan.scratchpadTile_eq_ok htile
        rfl
      · obtain ⟨-, rfl⟩ := TilePlan.scratchpadTile_eq_ok htile
        rfl
      · rintro limit ⟨⟩
        decide
      · rintro limit ⟨⟩ t - polls - -
        exact Nat.zero_lt_succ _
    obtain ⟨r, hr, ⟨bound, hbound⟩, hrun⟩ :=
      @run_fails_under_every_schedule (make .snax .tcdm) .reference faltering .mac (.tiled 4) ⟨0, []⟩ ⟨#[false]⟩ _ _ 1 plan _
        rfl rfl rfl hplan (by decide) hin hfails (by omega) rfl
    refine ⟨r, plan, hr, htiles, ⟨bound, fun schedule s hs => ?_⟩, hrun⟩
    obtain ⟨hle, -, hend⟩ := hbound schedule s hs
    exact ⟨hle, hend⟩

end Cluster

end TileOffload
