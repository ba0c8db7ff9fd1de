import TileOffload.Proofs.Doomed
import TileOffload.Proofs.UnitTrace

/-! # Runs that cannot go on for ever

Hardware that has less to do after every part of a request tires: it answers in the end, and so the units come to an
end. Main statements: whichever units go on, there are only so many steps; the hardware of a cluster tires if the wait
for the device has a bound on its polls. -/

namespace TileOffload

/-- Every part of a request leaves the hardware less to do, or answers it and leaves less than `cost` more to do. -/
structure Hardware.Tiring {σ : Type} (hardware : Hardware σ) (left : σ → Nat) (cost : Nat) : Prop where
  attempt : ∀ unit job world, left (hardware.attempt unit job world).2 <
    left world + if (hardware.attempt unit job world).1.isSome then cost else 0
  settle : ∀ unit world, left (hardware.settle unit world).2 <
    left world + if (hardware.settle unit world).1 then cost else 0

namespace Hardware.Tiring

variable {σ : Type} {hardware : Hardware σ} {left : σ → Nat} {cost unit : Nat} {world world' : σ}

theorem attempt_lt (h : hardware.Tiring left cost) {job : Job} {answer : Option (Outcome Nat)}
    (ha : hardware.attempt unit job world = (answer, world')) : left world' < left world + cost := by
  have hleft := h.attempt unit job world
  rw [ha] at hleft
  refine Nat.lt_of_lt_of_le hleft (Nat.add_le_add_left ?_ _)
  split
  · exact Nat.le_refl cost
  · exact Nat.zero_le cost

theorem settle_lt (h : hardware.Tiring left cost) {answer : Bool} (ha : hardware.settle unit world = (answer, world')) :
    left world' < left world + cost := by
  have hleft := h.settle unit world
  rw [ha] at hleft
  refine Nat.lt_of_lt_of_le hleft (Nat.add_le_add_left ?_ _)
  split
  · exact Nat.le_refl cost
  · exact Nat.zero_le cost

end Hardware.Tiring

namespace Pipeline

variable {σ : Type} {hardware : Hardware σ} {s t : Pipeline σ} {left : σ → Nat} {cost position : Nat} {visits : List Nat}

/-- What is left to all units and to the hardware, when a step of a unit makes up for an answer. -/
def remaining (left : σ → Nat) (cost : Nat) (s : Pipeline σ) : Nat :=
  (s.workers.map (toGo s.plan)).sum * cost + left s.world

theorem request_lt (ht : hardware.Tiring left cost) (w : Worker) {world : σ}
    (h : (request hardware w world).1 = false) : left (request hardware w world).2 < left world := by
  unfold request at h ⊢
  cases hphase : w.phase with
  | working task rest =>
    simp only [hphase] at h ⊢
    have hleft := ht.attempt w.report.unit task.job world
    rwa [h] at hleft
  | checking | raising | settling | waiting | finished =>
    simp only [hphase] at h ⊢
    have hleft := ht.settle w.report.unit world
    rwa [h] at hleft

theorem Lockstep.remaining_lt (hl : Lockstep s visits) (ht : hardware.Tiring left cost) (hpos : 0 < cost)
    (h : s.step? hardware position = some t) : t.remaining left cost < s.remaining left cost := by
  obtain ⟨w, hw, hstep⟩ := stepped_of_step? h
  have hmem := List.mem_of_getElem? hw
  have hplan := hstep.frame.1
  have hearly : w.phase ≠ .finished → w.iteration < s.plan.iterations := fun hne =>
    Nat.lt_of_le_of_ne (hl.bounded w hmem) fun heq => hne ((hl.finished w hmem).mpr heq)
  rcases hstep.toGo_lt hearly with ⟨w', hworkers, -, hless⟩ | ⟨-, -, hunanswered, rfl⟩
  · have hworld : left t.world < left s.world + cost := by
      cases hstep with
      | checked phase | raised phase | passed phase => exact Nat.lt_add_of_pos_right hpos
      | worked phase answer | ended phase answer => exact ht.attempt_lt answer
      | settled phase answer | arrived phase answer => exact ht.settle_lt answer
    have hsum : (t.workers.map (toGo t.plan)).sum + 1 ≤ (s.workers.map (toGo s.plan)).sum := by
      rw [hworkers, hplan]
      exact sum_map_set_lt hw hless fun _ _ _ _ => Nat.le_refl _
    have hmul := Nat.mul_le_mul_right cost hsum
    rw [Nat.succ_mul] at hmul
    unfold remaining
    omega
  · exact Nat.add_lt_add_left (request_lt ht w hunanswered) _

/-- On hardware that tires there are only so many steps, whichever units go on, and some unit can go on until all are
    through. -/
theorem Lockstep.ends (hl : Lockstep s visits) (ht : hardware.Tiring left cost) (hpos : 0 < cost)
    {positions : List Nat} (h : follow? hardware (positions.map .step) s = some t) :
    positions.length ≤ s.remaining left cost ∧
      (t.isFinished = false → ∃ position u, t.step? hardware position = some u) := by
  obtain ⟨⟨visits', hl'⟩, hle⟩ := follow_steps_of_measure (P := fun s => ∃ visits, Lockstep s visits)
    (remaining left cost) (fun ⟨_, hl⟩ hstep => ⟨⟨_, hl.move (.step _) hstep⟩, hl.remaining_lt ht hpos hstep⟩) ⟨_, hl⟩ h
  exact ⟨Nat.le_trans (Nat.le_add_right _ _) hle, hl'.not_stuck⟩

theorem Lockstep.exists_finished (hl : Lockstep s visits) (ht : hardware.Tiring left cost) (hpos : 0 < cost) :
    ∃ (positions : List Nat) (t : Pipeline σ), follow? hardware (positions.map .step) s = some t ∧ t.isFinished = true := by
  obtain ⟨patience, t, hdrive, -⟩ := ends_of_measure (P := fun s => ∃ visits, Lockstep s visits) (remaining left cost)
    (fun ⟨_, hl⟩ hstep => ⟨⟨_, hl.move (.step _) hstep⟩, hl.remaining_lt ht hpos hstep⟩) (fun ⟨_, hl⟩ => hl.not_stuck)
    ⟨_, hl⟩ 0
  obtain ⟨positions, hpositions, hfinished⟩ := follow_of_drive hdrive
  exact ⟨positions, t, hpositions, hfinished⟩

/-- On hardware that tires, some of the units can go on until none of them can. -/
theorem Lockstep.exists_stuck (hl : Lockstep s visits) (ht : hardware.Tiring left cost) (hpos : 0 < cost)
    (P : Nat → Prop) :
    ∃ (positions : List Nat) (t : Pipeline σ), (∀ q ∈ positions, P q) ∧
      follow? hardware (positions.map .step) s = some t ∧ ∀ q, P q → t.step? hardware q = none := by
  -- On what is left to do: as long as one of the units can go on it does, which leaves less.
  induction hn : s.remaining left cost using Nat.strongRecOn generalizing s visits with
  | _ n ih =>
    by_cases hgo : ∃ q u, P q ∧ s.step? hardware q = some u
    · obtain ⟨q, u, hq, hstep⟩ := hgo
      obtain ⟨positions, t, hall, hfollow, hstuck⟩ :=
        ih _ (hn ▸ hl.remaining_lt ht hpos hstep) (hl.move (.step q) hstep) rfl
      exact ⟨q :: positions, t, List.forall_mem_cons.mpr ⟨hq, hall⟩,
        Option.bind_eq_some_iff.mpr ⟨u, hstep, hfollow⟩, hstuck⟩
    · exact ⟨[], s, List.forall_mem_nil _, rfl, fun q hq =>
        Option.eq_none_iff_forall_ne_some.mpr fun u hu => hgo ⟨q, u, hq, hu⟩⟩

end Pipeline

/-! ### The hardware of a cluster -/

namespace Kernel

theorem BuiltIn.length_config_le {b : BuiltIn} {tile : Tile} {desc : Descriptor}
    (h : b.kernel.describe tile = .done desc) : desc.config.length ≤ longest := by
  cases b with
  | mac =>
    simp only [kernel, Kernel.mac, ofExcept_eq_done, describeMac, bind_eq_ok] at h
    obtain ⟨n, -, h⟩ := h
    rw [(Descriptor.build_eq_ok h).1]
    simp [longest]
  | alu mode =>
    simp only [kernel, Kernel.alu, ofExcept_eq_done, describeAlu, bind_eq_ok] at h
    obtain ⟨n, -, h⟩ := h
    rw [(Descriptor.build_eq_ok h).1]
    simp [longest, Chip.Alu.strides]

end Kernel

namespace World

/-- The parts that are left of the landing of transfers, at most. -/
def unsettled (w : World) : Nat :=
  2 * w.queue.pending.length +
    match w.landing with
    | none => 2
    | some rest => rest.length + 1

theorem phase_land (w : World) : w.land.2.phase = w.phase := by
  unfold land
  split
  · rfl
  · rfl
  · split <;> rfl

theorem unsettled_land (w : World) : w.land.2.unsettled < w.unsettled + if w.land.1 then 2 else 0 := by
  cases hlanding : w.landing with
  | none =>
    simp only [land, unsettled, hlanding, List.length_nil, Bool.false_eq_true, if_false]
    omega
  | some rest =>
    cases rest with
    | nil =>
      simp only [land, unsettled, hlanding, List.length_nil, if_true]
      omega
    | cons x rest =>
      cases hcopy : w.memory.copy x.dst x.src x.len with
      | ok m =>
        simp only [land, unsettled, hlanding, hcopy, List.length_cons, Bool.false_eq_true, if_false]
        omega
      | error e =>
        simp only [land, unsettled, hlanding, hcopy, TransferQueue.recordFault, List.length_cons, if_true]
        omega

theorem unsettled_transfer (w : World) (x : Transfer) :
    ∃ outcome w', w.transfer x = (some outcome, w') ∧ w'.phase = w.phase ∧ w'.unsettled ≤ w.unsettled + 2 := by
  unfold transfer TransferQueue.start
  cases TransferQueue.refusal? w.memory x with
  | some fault => exact ⟨_, _, rfl, rfl, Nat.le_add_right _ 2⟩
  | none =>
    refine ⟨_, _, rfl, rfl, ?_⟩
    simp only [unsettled, List.length_append, List.length_singleton]
    omega

/-- More than an engine can ever have left to do for a tile, with a bound on the polls of a wait. -/
def cost (limit : Nat) : Nat := limit + Kernel.longest + 9

/-- A part of the work for a tile leaves less of it, or ends it. -/
def Tires (limit left : Nat) (r : Option (Outcome Nat) × World) : Prop :=
  r.2.phase.left limit < left + if r.1.isSome then cost limit else 0

variable {b : Kernel.BuiltIn} {engine : Engine} {limit left : Nat} {w : World}

theorem tires_of_idle {outcome : Outcome Nat} (h : w.phase = .idle) : Tires limit left (some outcome, w) := by
  simp only [Tires, h, EnginePhase.left, cost, Option.isSome_some, if_true]
  omega

theorem tires_abandon (w : World) (e : Error) : Tires limit left (w.abandon e) := tires_of_idle rfl

theorem tires_completed (w : World) (polls : Nat) : Tires limit left (w.completed polls) := tires_of_idle rfl

theorem tires_goOn {phase : EnginePhase} (w : World) (h : phase.left limit < left) :
    Tires limit left (w.goOn phase) := h

/-- An engine begins with a tile if a transaction is found for it and accepted. -/
theorem tires_idle (hk : engine.kernel.Follows b) {w : World} (hp : w.phase = .idle) (tile : Tile) :
    Tires limit (w.phase.left limit) (w.compute engine tile) := by
  simp only [compute, hp]
  split
  · rw [Tires, hp, Option.isSome_some, if_pos rfl]
    exact Nat.lt_add_of_pos_right (Nat.succ_pos _)
  · exact tires_abandon _ _
  · rename_i desc hdesc
    have hlength := Kernel.BuiltIn.length_config_le (hk.describe_eq hdesc)
    split
    · exact tires_abandon _ _
    · refine tires_goOn _ ?_
      simp only [EnginePhase.left]
      omega

theorem tires_polling (hmax : engine.wait.maxPolls = some limit) {w : World} {polls : Nat} (hp : w.phase = .polling polls)
    (tile : Tile) : Tires limit (w.phase.left limit) (w.compute engine tile) := by
  simp only [compute, hp]
  split
  · exact tires_abandon _ _
  · refine tires_goOn _ ?_
    simp only [EnginePhase.left]
    omega
  · split
    · exact tires_abandon _ _
    · rename_i hpatient
      refine tires_goOn _ ?_
      have hearly : polls + 1 < limit := Nat.lt_of_not_le fun hlate =>
        hpatient (WaitPolicy.givesUp_of_maxPolls hmax hlate _)
      simp only [EnginePhase.left]
      omega

/-- A bound on the polls of a wait bounds the work for a tile, whatever is in memory and however the device answers. -/
theorem tires_compute (hk : engine.kernel.Follows b) (hmax : engine.wait.maxPolls = some limit) (w : World)
    (tile : Tile) : Tires limit (w.phase.left limit) (w.compute engine tile) := by
  cases hp : w.phase with
  | idle => exact hp ▸ tires_idle hk hp tile
  | configuring rest =>
    cases rest with
    | nil =>
      simp only [compute, hp]
      exact tires_goOn _ (by simp only [EnginePhase.left, List.length_nil]; omega)
    | cons r rest =>
      simp only [compute, hp]
      split
      · exact tires_abandon _ _
      · exact tires_goOn _ (by simp only [EnginePhase.left, List.length_cons]; omega)
  | launching | fetchingA pass | fetchingB pass xs | storing pass results =>
    simp only [compute, hp]
    split
    · exact tires_abandon _ _
    · exact tires_goOn _ (Nat.lt_succ_self _)
  | polling polls => exact hp ▸ tires_polling hmax hp tile
  | clearing polls =>
    simp only [compute, hp]
    split
    · exact tires_completed _ _
    · split
      · exact tires_abandon _ _
      · exact tires_completed _ _

/-- The hardware of a cluster tires if the wait for the device has a bound on its polls. -/
theorem hardware_tiring (hk : engine.kernel.Follows b) (hmax : engine.wait.maxPolls = some limit)
    (topology : Topology) :
    (World.hardware topology engine).Tiring (fun w => w.phase.left limit + w.unsettled) (cost limit) := by
  have hcost : 2 < cost limit := by
    rw [cost]
    omega
  refine ⟨fun unit job w => ?_, fun unit w => ?_⟩
  · cases job with
    | refuse e => exact Nat.lt_add_of_pos_right (Nat.zero_lt_of_lt hcost)
    | compute tile =>
      obtain ⟨hqueue, hlanding⟩ := compute_transfers w engine tile
      have htires := Nat.add_lt_add_right (tires_compute hk hmax w tile) w.unsettled
      rw [Nat.add_right_comm] at htires
      dsimp only [Hardware.attempt, World.hardware]
      rwa [show (w.compute engine tile).2.unsettled = w.unsettled by rw [unsettled, unsettled, hqueue, hlanding]]
    | transfer x =>
      obtain ⟨outcome, w', hstarted, hphase, hunsettled⟩ := unsettled_transfer w x
      have hmore : w'.phase.left limit + w'.unsettled < w.phase.left limit + w.unsettled + cost limit := by
        rw [hphase]
        omega
      simp only [Hardware.attempt, World.hardware, hstarted]
      cases outcome <;> exact hmore
  · dsimp only [World.hardware]
    split
    · have hland := unsettled_land w
      rw [phase_land]
      cases hdone : w.land.1 <;> simp only [hdone, Bool.false_eq_true, if_false, if_true] at hland ⊢ <;> omega
    · exact Nat.lt_add_of_pos_right (Nat.zero_lt_of_lt hcost)

end World

end TileOffload
