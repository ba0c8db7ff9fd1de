import TileOffload.Proofs.Service

/-! # Engines that fail on one tile

The wait for a device may be over before the device answers, and a kernel may panic instead of describing a tile.
Either way the tiles before are served, and the work for that tile ends, after so many parts, with one definite
error. -/

namespace TileOffload

/-- The error with which a unit's task ends, if it does not end well. -/
def Outcome.error? {α : Type} (unit iteration : Nat) : Outcome α → Option Error
  | .done _ => none
  | .failed e => some e
  | .panicked => some (.deviceFault (.panicked unit iteration))

theorem Worker.ended_of_error {w : Worker} {outcome : Outcome Nat} {e : Error}
    (h : outcome.error? w.report.unit w.iteration = some e) (task : Task) (rest : List Task) :
    w.ended task rest outcome = w.fail e := by
  cases outcome with
  | done polls => cases h
  | failed e' | panicked => exact congrArg w.fail (Option.some.inj h)

/-- An engine that serves the tiles before tile `n` and ends its work for that tile with the error `e`. In a state of
    `P t` it has served the tiles before tile `t`. -/
structure Doomed (p : TilePlan) (d : Dataset) (k : Kernel) (b : Kernel.BuiltIn) (bytes : Nat) (engine : Engine)
    (unit L n : Nat) (e : Error) (P : Nat → World → Prop) : Prop where
  congr : ∀ {t : Nat} {w w' : World}, P t w → w'.phase = w.phase → w'.device = w.device → P t w'
  serves : ∀ {t : Nat} {w : World}, t < n → w.memory.Snax bytes → w.Driven k → w.Engaged p d k b t → P t w →
    (∃ w', w.compute engine (p.slotTile t) = (none, w') ∧ P t w' ∧ w'.phase.left L < w.phase.left L) ∨
      ∃ polls w', w.compute engine (p.slotTile t) = (some (.done polls), w') ∧ P (t + 1) w'
  fails : ∀ {w : World}, w.memory.Snax bytes → w.Driven k → w.Engaged p d k b n → P n w →
    (∃ w', w.compute engine (p.slotTile n) = (none, w') ∧ P n w' ∧ w'.phase.left L < w.phase.left L) ∨
      ∃ outcome w', w.compute engine (p.slotTile n) = (some outcome, w') ∧ outcome.error? unit (n + 1) = some e

theorem WaitPolicy.givesUp_of_maxPolls {wait : WaitPolicy} {limit polls : Nat} (h : wait.maxPolls = some limit)
    (hle : limit ≤ polls) (elapsed : Nat) : wait.givesUp polls elapsed = true := by
  simp [givesUp, h, hle]

theorem Accelerator.status_busy {a : Accelerator} (hrunning : a.running = true)
    (hbusy : a.stuck = true ∨ 0 < a.busyLeft) :
    ∃ left, a.status = (a.map.busyMask, { a with busyLeft := left }) ∧ (a.stuck = true ∨ a.busyLeft = left + 1) := by
  by_cases hstuck : a.stuck = true
  · refine ⟨a.busyLeft, ?_, Or.inl hstuck⟩
    rw [status, if_neg (by simp [hrunning]), if_pos hstuck]
  · have hpos := hbusy.resolve_left hstuck
    exact ⟨a.busyLeft - 1, by simp [status, hrunning, hstuck, hpos], Or.inr (Nat.sub_add_cancel hpos).symm⟩

namespace World

variable {p : TilePlan} {d : Dataset} {k : Kernel} {b : Kernel.BuiltIn} {bytes L N n : Nat} {engine : Engine} {w w' : World}

/-! ### A device that is too slow -/

/-- The device has not been started, or it is still busy at poll `N`. -/
structure Slow (N : Nat) (w : World) : Prop where
  busy : w.device.target.stuck = true ∨ N ≤ w.device.target.latency
  inPhase : w.Opening ∨ ∃ polls < N, w.phase = .polling polls ∧ w.device.target.running = true ∧
    (w.device.target.stuck = true ∨ N ≤ polls + w.device.target.busyLeft)

theorem Slow.congr (h : w.Slow N) (hphase : w'.phase = w.phase) (hdevice : w'.device = w.device) : w'.Slow N := by
  refine ⟨hdevice ▸ h.busy, h.inPhase.imp (fun hx => hx.congr hphase hdevice) fun hx => ?_⟩
  rw [hphase, hdevice]
  exact hx

theorem Opened.slow (h : w.Opened w') (hN : 0 < N) (hw : w.Slow N) : w'.Slow N := by
  have hbusy : w'.device.target.stuck = true ∨ N ≤ w'.device.target.latency := by
    rw [h.stuck, h.latency]
    exact hw.busy
  refine ⟨hbusy, h.next.imp_right fun ⟨hphase, _, hrunning, hleft⟩ => ⟨0, hN, hphase, hrunning, ?_⟩⟩
  rw [Nat.zero_add, hleft]
  exact hbusy

/-- A poll of a device that is too slow: the wait goes on, or it is over. -/
theorem poll_slow (hk : k.Follows b) (hd : w.Driven k) {tile : Tile} {limit : Nat}
    (hmax : engine.wait.maxPolls = some limit) (hN : N = max limit 1)
    (hwait : ∀ polls, 0 < polls → polls < N → engine.wait.givesUp polls (engine.clock tile.index polls) = false)
    (h : w.Slow N) {polls : Nat} (hlt : polls < N) (hp : w.phase = .polling polls)
    (hrunning : w.device.target.running = true)
    (hbusy : w.device.target.stuck = true ∨ N ≤ polls + w.device.target.busyLeft) :
    (∃ w', w.compute engine tile = (none, w') ∧ w'.Slow N ∧ w'.phase = .polling (polls + 1)) ∨
      ∃ w', w.compute engine tile = (some (.failed (.timeout N (engine.clock tile.index N))), w') := by
  have hmap : w.device.target.map = w.device.map := hd.map_target.trans hd.1.symm
  have hverdict := b.verdict_status.2
  rw [← hk.map_eq, ← hd.1] at hverdict
  obtain ⟨left, hstatus, hleft⟩ := Accelerator.status_busy hrunning (hbusy.imp_right fun hx => by omega)
  rw [hmap] at hstatus
  rcases Nat.lt_or_ge (polls + 1) N with hless | hge
  · refine Or.inl ⟨{ w with
      phase := .polling (polls + 1), device.target := { w.device.target with busyLeft := left } }, ?_, ?_, rfl⟩
    · simp [compute, hp, read_status hd, hstatus, Device.observe, hverdict, hwait (polls + 1) (Nat.succ_pos _) hless, goOn]
    · refine ⟨h.busy, Or.inr ⟨polls + 1, hless, rfl, hrunning, ?_⟩⟩
      rcases hbusy with hbusy | hbusy
      · exact Or.inl hbusy
      · refine hleft.imp_right fun hx => ?_
        simp only
        omega
  · obtain rfl : N = polls + 1 := by omega
    have hover := WaitPolicy.givesUp_of_maxPolls hmax (show limit ≤ polls + 1 by omega)
      (engine.clock tile.index (polls + 1))
    refine Or.inr ⟨{ w with phase := .idle, device.target := { w.device.target with busyLeft := left } }, ?_⟩
    simp [compute, hp, read_status hd, hstatus, Device.observe, hverdict, hover, abandon]

end World

variable {p : TilePlan} {d : Dataset} {k : Kernel} {b : Kernel.BuiltIn} {bytes L n : Nat} {engine : Engine}

/-- The first tile on a device that is too slow for the bound on polls. -/
theorem doomed_slow (hk : k.Follows b) (hs : p.Sited bytes) (hf : d.Fits p) (hkernel : engine.kernel = k)
    (hdescribe : k.describe (p.slotTile 0) = b.kernel.describe (p.slotTile 0)) (hpos : 0 < p.tiles)
    (hwide : p.tileLength < addressLimit) (haligned : ∀ l, 4 ∣ (p.slotWord 0 l).toNat) {limit : Nat}
    (hmax : engine.wait.maxPolls = some limit)
    (hwait : ∀ polls, 0 < polls → polls < max limit 1 → engine.wait.givesUp polls (engine.clock 0 polls) = false)
    (unit : Nat) :
    Doomed p d k b bytes engine unit (max limit 1) 0 (.timeout (max limit 1) (engine.clock 0 (max limit 1)))
      fun _ w => w.Slow (max limit 1) := by
  have hwait' : ∀ polls, 0 < polls → polls < max limit 1 →
      engine.wait.givesUp polls (engine.clock (p.slotTile 0).index polls) = false := hwait
  refine ⟨fun h => h.congr, fun ht => absurd ht (Nat.not_lt_zero _), fun {w} hm hd hen h => ?_⟩
  rcases h.inPhase with hopening | ⟨polls, hlt, hp, hrunning, hbusy⟩
  · obtain ⟨w', hgoes, hopened⟩ := World.opened hk hs hf hpos hkernel hdescribe hwide haligned hm hd hen hopening
    exact Or.inl ⟨w', hgoes, hopened.slow (by omega) h, hopened.less _⟩
  · rcases World.poll_slow hk hd hmax rfl hwait' h hlt hp hrunning hbusy with ⟨w', hgoes, hslow, hp'⟩ | ⟨w', hover⟩
    · refine Or.inl ⟨w', hgoes, hslow, ?_⟩
      rw [hp, hp']
      simp only [EnginePhase.left]
      omega
    · exact Or.inr ⟨_, w', hover, rfl⟩

/-- A tile on which the kernel panics, on a device that answers in time. -/
theorem doomed_panic (hk : k.Follows b) (hs : p.Sited bytes) (hf : d.Fits p) (hkernel : engine.kernel = k)
    (hn : n < p.tiles) (hbefore : ∀ t < n, k.describe (p.slotTile t) = b.kernel.describe (p.slotTile t))
    (hpanics : k.describe (p.slotTile n) = .panicked) (hwide : p.tileLength < addressLimit)
    (haligned : ∀ t < p.tiles, ∀ l, 4 ∣ (p.slotWord t l).toNat)
    (hwait : ∀ t < n, ∀ polls, 0 < polls → polls ≤ L → engine.wait.givesUp polls (engine.clock t polls) = false)
    (unit : Nat) :
    Doomed p d k b bytes engine unit L n (.deviceFault (.panicked unit (n + 1)))
      fun t w => w.Healthy L t ∧ (t = n → w.phase = .idle) := by
  refine ⟨fun ⟨h, hidle⟩ hphase hdevice => ⟨h.congr hphase hdevice, fun ht => hphase.trans (hidle ht)⟩,
    fun {t w} ht hm hd hen ⟨h, _⟩ => ?_, fun {w} _ _ _ ⟨_, hidle⟩ => Or.inr ⟨.panicked, w, ?_, rfl⟩⟩
  · have htiles := Nat.lt_trans ht hn
    rcases World.served hk hs hf htiles hkernel (hbefore t ht) hwide (haligned t htiles) (hwait t ht) hm hd hen h with
      ⟨w', hgoes, hhealthy, hless⟩ | ⟨w', hdone, hphase, hhealthy⟩
    · exact Or.inl ⟨w', hgoes, ⟨hhealthy, fun hx => absurd hx (Nat.ne_of_lt ht)⟩, hless⟩
    · exact Or.inr ⟨L + 1, w', hdone, hhealthy, fun _ => hphase⟩
  · simp only [World.compute, hidle rfl, hkernel, hpanics]

end TileOffload
