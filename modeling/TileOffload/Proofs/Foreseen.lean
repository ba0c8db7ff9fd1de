import TileOffload.Proofs.Foretold
import TileOffload.Proofs.Setup
import TileOffload.Proofs.Verdict

/-! # What the hardware of a cluster answers

What the units of a cluster ask of its hardware is answered as it would be at the start: a transfer is refused for an end
that is not mapped, and a tile gets the verdict on it. Main statement: this is so in every run of a built-in kernel,
wherever the scratchpad lies, whoever goes on and whoever raises a token. -/

namespace TileOffload

/-- The answer to a job, with the memory as it is mapped in `m`. -/
inductive Expected (engine : Engine) (L : Nat) (stuck : Bool) (m : Memory) : Job → Outcome Nat → Prop
  | moved {t : Transfer} (accepted : TransferQueue.refusal? m t = none) :
    Expected engine L stuck m (.transfer t) (.done 0)
  | refused {t : Transfer} {fault : TransferFault} (refusal : TransferQueue.refusal? m t = some fault) :
    Expected engine L stuck m (.transfer t) (.failed (.transferFailed fault))
  | computed {tile : Tile} {outcome : Outcome Nat} (verdict : Verdict engine L stuck tile outcome) :
    Expected engine L stuck m (.compute tile) outcome

/-- The jobs of an iteration are the legs of the mover, and the tile of the compute unit. -/
theorem TilePlan.mem_jobs {p : TilePlan} {role : Role} {i : Nat} {job : Job} (h : job ∈ p.jobs p.backTile role i) :
    (role = .dataMover ∧ ∃ x ∈ p.legs i, job = .transfer (p.leg x.1 x.2)) ∨
      role = .compute ∧ ∃ t < p.tiles, i = t + 1 ∧ job = .compute (p.slotTile t) := by
  cases role with
  | idle => cases h
  | compute =>
    refine Or.inr ⟨rfl, ?_⟩
    simp only [jobs] at h
    split at h
    · exact ⟨i - 1, by omega, by omega, List.mem_singleton.mp h⟩
    · cases h
  | dataMover =>
    refine Or.inl ⟨rfl, ?_⟩
    simp only [jobs, List.mem_append] at h
    rcases h with h | h <;> split at h
    · rename_i hi
      have hleg : ∀ l, l ≠ .o → (i, l) ∈ p.legs i := fun l hl => mem_legs.mpr ⟨hi, by simp [legTime, hl]⟩
      simp only [List.mem_cons, List.not_mem_nil, or_false] at h
      rcases h with rfl | rfl
      · exact ⟨_, hleg .a (fun hx => by cases hx), rfl⟩
      · exact ⟨_, hleg .b (fun hx => by cases hx), rfl⟩
    · cases h
    · refine ⟨(i - 2, .o), mem_legs.mpr ⟨by omega, ?_⟩, List.mem_singleton.mp h⟩
      simp only [legTime, if_true]
      omega
    · cases h

theorem Memory.Snax.contains_eq {m m' : Memory} {bytes : Nat} (h : m.Snax bytes) (h' : m'.Snax bytes) (addr : Word)
    (len : Nat) : m.contains addr len = m'.contains addr len := by
  rw [Memory.contains_eq_any, Memory.contains_eq_any, h.1, h'.1]

theorem Memory.Snax.refusal?_eq {m m' : Memory} {bytes : Nat} (h : m.Snax bytes) (h' : m'.Snax bytes) (t : Transfer) :
    TransferQueue.refusal? m t = TransferQueue.refusal? m' t := by
  rw [TransferQueue.refusal?, TransferQueue.refusal?, h.contains_eq h', h.contains_eq h']

theorem Expected.of_snax {engine : Engine} {L bytes : Nat} {stuck : Bool} {m m' : Memory} {job : Job}
    {outcome : Outcome Nat} (h : Expected engine L stuck m job outcome) (hm : m.Snax bytes) (hm' : m'.Snax bytes) :
    Expected engine L stuck m' job outcome := by
  cases h with
  | moved accepted => exact .moved (hm.refusal?_eq hm' _ ▸ accepted)
  | refused refusal => exact .refused (hm.refusal?_eq hm' _ ▸ refusal)
  | computed verdict => exact .computed verdict

namespace World

variable {b : Kernel.BuiltIn} {engine : Engine} {L bytes : Nat} {stuck : Bool} {topology : Topology} {w : World}

theorem attempt_transfer (topology : Topology) (engine : Engine) (L : Nat) (stuck : Bool) (unit : Nat) (t : Transfer)
    (w : World) :
    ∃ outcome w', (World.hardware topology engine).attempt unit (.transfer t) w = (some outcome, w') ∧
      Expected engine L stuck w.memory (.transfer t) outcome ∧
      w'.memory = w.memory ∧ w'.phase = w.phase ∧ w'.device = w.device := by
  cases hrefusal : TransferQueue.refusal? w.memory t with
  | none =>
    refine ⟨.done 0, { w with queue := { w.queue with
      pending := w.queue.pending ++ [t], issued := w.queue.issued + 1 } }, ?_, .moved hrefusal, rfl, rfl, rfl⟩
    simp only [Hardware.attempt, World.hardware, transfer, TransferQueue.start, hrefusal]
  | some fault =>
    refine ⟨.failed (.transferFailed fault), w, ?_, .refused hrefusal, rfl, rfl, rfl⟩
    simp only [Hardware.attempt, World.hardware, transfer, TransferQueue.start, hrefusal]

theorem settle_kept (topology : Topology) (engine : Engine) (unit : Nat) (hm : w.memory.Snax bytes) :
    ((World.hardware topology engine).settle unit w).2.memory.Snax bytes ∧
      ((World.hardware topology engine).settle unit w).2.phase = w.phase ∧
      ((World.hardware topology engine).settle unit w).2.device = w.device := by
  unfold World.hardware land
  dsimp only
  split
  · split
    · exact ⟨hm, rfl, rfl⟩
    · exact ⟨hm, rfl, rfl⟩
    · split
      · rename_i hcopy
        exact ⟨(Memory.wrote_copy hm.2 hcopy).1.snax hm, rfl, rfl⟩
      · exact ⟨hm, rfl, rfl⟩
  · exact ⟨hm, rfl, rfl⟩

/-- The engine is idle, and has yet to begin with any tile. -/
def Rested (b : Kernel.BuiltIn) (engine : Engine) (L : Nat) (stuck : Bool) (w : World) : Prop :=
  w.phase = .idle ∧ ∀ tile, w.Underway b engine L stuck tile

/-- The engine is at work for the tile of the compute unit, and idle otherwise. -/
def Attends (b : Kernel.BuiltIn) (engine : Engine) (L : Nat) (stuck : Bool) (w : World) : Phase → Prop
  | .working task _ => ∀ tile, task.job = .compute tile → w.Underway b engine L stuck tile
  | _ => w.Rested b engine L stuck

theorem Rested.attends (h : w.Rested b engine L stuck) (phase : Phase) : w.Attends b engine L stuck phase := by
  cases phase with
  | working task rest => exact fun tile _ => h.2 tile
  | checking | raising | settling | waiting | finished => exact h

theorem Attends.congr {w' : World} {phase : Phase} (h : w.Attends b engine L stuck phase) (hphase : w'.phase = w.phase)
    (hdevice : w'.device = w.device) : w'.Attends b engine L stuck phase := by
  have hrested : w.Rested b engine L stuck → w'.Rested b engine L stuck := fun h =>
    ⟨hphase.trans h.1, fun tile => (h.2 tile).congr hphase hdevice⟩
  cases phase with
  | working task rest => exact fun tile htile => (h tile htile).congr hphase hdevice
  | checking | raising | settling | waiting | finished => exact hrested h

end World

namespace Pipeline

open TilePlan

/-- A run all whose answers are foretold. -/
structure Foreseen (topology : Topology) (p : TilePlan) (b : Kernel.BuiltIn) (engine : Engine) (L : Nat) (stuck : Bool)
    (bytes : Nat) (m₀ : Memory) (s : Pipeline World) : Prop where
  plan_eq : s.plan = p
  lockstep : ∃ visits, Lockstep s visits
  roster : Roster topology s
  snax : s.world.memory.Snax bytes
  attended : ∀ C, s.workers[topology.compute]? = some C → C.failure = none → s.world.Attends b engine L stuck C.phase
  foretold : s.Foretold (Expected engine L stuck m₀) p.backTile topology

variable {topology : Topology} {p : TilePlan} {b : Kernel.BuiltIn} {engine : Engine} {L bytes : Nat} {stuck : Bool}
  {m₀ : Memory} {s t : Pipeline World}

/-- A unit in the middle of a task moves something, or it is the compute unit with a tile. -/
theorem Foreseen.job (h : Foreseen topology p b engine L stuck bytes m₀ s) (hr : ∀ role, p.Resolved p.backTile role)
    {position : Nat} {w : Worker} (hw : s.workers[position]? = some w) {task : Task} {rest : List Task}
    (hp : w.phase = .working task rest) :
    (∃ x, task.job = .transfer x ∧ position ≠ topology.compute) ∨
      ∃ t < p.tiles, w.iteration = t + 1 ∧ task.job = .compute (p.slotTile t) ∧ position = topology.compute := by
  obtain ⟨-, hrole⟩ := h.roster.placed position w hw
  obtain ⟨done, htasks⟩ := (h.roster.sound w (List.mem_of_getElem? hw)).queued task rest hp
  rw [h.plan_eq] at htasks
  have hjobs := (hr w.report.role).jobs_eq w.iteration
  rw [htasks, List.map_append, List.map_cons] at hjobs
  rw [hrole] at hjobs
  have hmem : task.job ∈ p.jobs p.backTile (topology.roleOf position) w.iteration := by
    rw [← hjobs]
    exact List.mem_append_right _ List.mem_cons_self
  rcases mem_jobs hmem with ⟨hunit, x, -, hjob⟩ | ⟨hunit, t, ht, hi, hjob⟩
  · exact Or.inl ⟨_, hjob, fun hx => topology.mover_ne_compute ((Topology.mover_of_roleOf hunit).symm.trans hx)⟩
  · exact Or.inr ⟨t, ht, hi, hjob, Topology.compute_of_roleOf hunit⟩

/-- A unit in the middle of a task is answered as foretold: at once if it moves something, and otherwise by the engine. -/
theorem Foreseen.attempted (h : Foreseen topology p b engine L stuck bytes m₀ s) (hr : ∀ role, p.Resolved p.backTile role)
    (hkernel : engine.kernel = b.kernel) (hwide : p.tileLength < addressLimit) {position : Nat} {w : Worker} {task : Task}
    {rest : List Task} (hw : s.workers[position]? = some w) (hp : w.phase = .working task rest)
    {answer : Option (Outcome Nat)} {world : World}
    (ha : (World.hardware topology engine).attempt w.report.unit task.job s.world = (answer, world)) :
    (position ≠ topology.compute ∧ (∃ outcome, answer = some outcome ∧
        Expected engine L stuck s.world.memory task.job outcome) ∧
      world.memory = s.world.memory ∧ world.phase = s.world.phase ∧ world.device = s.world.device) ∨
    position = topology.compute ∧ ∃ tile, task.job = .compute tile ∧
      World.Advanced b engine L stuck bytes tile (answer, world) := by
  have hsound := h.roster.sound w (List.mem_of_getElem? hw)
  rcases h.job hr hw hp with ⟨x, hjob, hne⟩ | ⟨t, -, -, hjob, rfl⟩ <;> rw [hjob] at ha ⊢
  · obtain ⟨outcome, w', htransfer, hexpected, hkept⟩ :=
      World.attempt_transfer topology engine L stuck w.report.unit x s.world
    rw [htransfer] at ha
    cases ha
    exact Or.inl ⟨hne, ⟨outcome, rfl, hexpected⟩, hkept⟩
  · have hattends := h.attended w hw (hsound.healthy (Or.inr ⟨_, _, hp⟩))
    rw [hp] at hattends
    have hadvanced := World.advanced hkernel hwide h.snax (hattends _ hjob)
    rw [show s.world.compute engine (p.slotTile t) = _ from ha] at hadvanced
    exact Or.inr ⟨rfl, _, rfl, hadvanced⟩

/-- While the compute unit stays as it is, so does its engine. -/
theorem Foreseen.attended_other (h : Foreseen topology p b engine L stuck bytes m₀ s)
    (hC : t.workers[topology.compute]? = s.workers[topology.compute]?) (hphase : t.world.phase = s.world.phase)
    (hdevice : t.world.device = s.world.device) :
    ∀ C, t.workers[topology.compute]? = some C → C.failure = none → t.world.Attends b engine L stuck C.phase :=
  fun C hx hhealthy => (h.attended C (hC ▸ hx) hhealthy).congr hphase hdevice

/-- A unit between two tasks may turn to anything. -/
theorem Foreseen.attended_rested (h : Foreseen topology p b engine L stuck bytes m₀ s) {position : Nat} {w : Worker}
    (hw : s.workers[position]? = some w) (w' : Worker) (hfailure : w'.failure = none → w.failure = none)
    (hphase : w.failure = none → s.world.Attends b engine L stuck w.phase → s.world.Rested b engine L stuck) :
    ∀ C, (s.workers.set position w')[topology.compute]? = some C → C.failure = none →
      s.world.Attends b engine L stuck C.phase := by
  intro C hC hhealthy
  by_cases hposition : position = topology.compute
  · subst hposition
    rw [getElem?_set_self hw] at hC
    cases hC
    have hbefore := hfailure hhealthy
    exact (hphase hbefore (h.attended w hw hbefore)).attends _
  · rw [List.getElem?_set_ne hposition] at hC
    exact h.attended C hC hhealthy

/-- What a step does to the memory and to the engine. -/
theorem Foreseen.step_world (h : Foreseen topology p b engine L stuck bytes m₀ s)
    (hr : ∀ role, p.Resolved p.backTile role) (hkernel : engine.kernel = b.kernel) (hwide : p.tileLength < addressLimit)
    {position : Nat} {w : Worker} (hw : s.workers[position]? = some w)
    (hstep : Stepped (World.hardware topology engine) s position w t) :
    t.world.memory.Snax bytes ∧
      ∀ C, t.workers[topology.compute]? = some C → C.failure = none → t.world.Attends b engine L stuck C.phase := by
  have hsound := h.roster.sound w (List.mem_of_getElem? hw)
  cases hstep with
  | checked phase =>
    refine ⟨h.snax, h.attended_rested hw _ (fun _ => hsound.healthy (Or.inl phase)) fun _ hattends => ?_⟩
    rwa [phase] at hattends
  | raised phase => exact ⟨h.snax, h.attended_rested hw _ id fun hhealthy _ => absurd hhealthy (hsound.failed phase)⟩
  | passed phase met =>
    refine ⟨h.snax, h.attended_rested hw _ id fun _ hattends => ?_⟩
    rwa [phase] at hattends
  | settled phase answer =>
    obtain ⟨hsnax, hphase, hdevice⟩ := World.settle_kept topology engine w.report.unit h.snax
    rw [answer] at hsnax hphase hdevice
    exact ⟨hsnax, h.attended_other rfl hphase hdevice⟩
  | arrived phase answer =>
    obtain ⟨hsnax, hphase, hdevice⟩ := World.settle_kept topology engine w.report.unit h.snax
    rw [answer] at hsnax hphase hdevice
    refine ⟨hsnax, fun C hC hhealthy => World.Attends.congr ?_ hphase hdevice⟩
    refine h.attended_rested hw { w with phase := .waiting } id (fun _ hattends => ?_) C hC hhealthy
    rwa [phase] at hattends
  | worked phase answer =>
    rcases h.attempted hr hkernel hwide hw phase answer with ⟨-, ⟨outcome, hnone, -⟩, -⟩ | ⟨rfl, tile, hjob, hadvanced⟩
    · cases hnone
    · cases hadvanced with
      | goesOn memory underway =>
        refine ⟨memory, fun C hC _ => ?_⟩
        obtain rfl := Option.some.inj (hw.symm.trans hC)
        rw [phase]
        intro tile' htile'
        rw [hjob] at htile'
        cases htile'
        exact underway
  | ended phase answer =>
    rcases h.attempted hr hkernel hwide hw phase answer with
      ⟨hne, -, hmemory, hphase, hdevice⟩ | ⟨rfl, tile, -, hadvanced⟩
    · exact ⟨hmemory ▸ h.snax, h.attended_other (List.getElem?_set_ne hne) hphase hdevice⟩
    · cases hadvanced with
      | failed memory verdict =>
        refine ⟨memory, fun C hC hhealthy => ?_⟩
        obtain rfl := Option.some.inj ((getElem?_set_self hw).symm.trans hC)
        cases hhealthy
      | done memory verdict idle underway =>
        exact ⟨memory, fun C _ _ => World.Rested.attends ⟨idle, underway.idle idle⟩ C.phase⟩

theorem Foreseen.answer (h : Foreseen topology p b engine L stuck bytes m₀ s) (hm₀ : m₀.Snax bytes)
    (hr : ∀ role, p.Resolved p.backTile role) (hkernel : engine.kernel = b.kernel) (hwide : p.tileLength < addressLimit)
    {position : Nat} {w : Worker} {task : Task} {rest : List Task} {outcome : Outcome Nat}
    (hw : s.workers[position]? = some w) (hp : w.phase = .working task rest)
    (ha : ((World.hardware topology engine).attempt w.report.unit task.job s.world).1 = some outcome) :
    Expected engine L stuck m₀ task.job outcome := by
  rcases h.attempted hr hkernel hwide hw hp (Prod.ext ha rfl) with
    ⟨-, ⟨outcome', hsome, hexpected⟩, -⟩ | ⟨-, tile, hjob, hadvanced⟩
  · cases hsome
    exact hexpected.of_snax h.snax hm₀
  · rw [hjob]
    cases hadvanced with
    | failed _ verdict | done _ verdict => exact .computed verdict

/-- Every answer is foretold, whoever goes on and whoever raises a token. -/
theorem Foreseen.move (h : Foreseen topology p b engine L stuck bytes m₀ s) (hm₀ : m₀.Snax bytes)
    (hr : ∀ role, p.Resolved p.backTile role) (hkernel : engine.kernel = b.kernel) (hwide : p.tileLength < addressLimit)
    {m : Move} (hm : s.move? (World.hardware topology engine) m = some t) :
    Foreseen topology p b engine L stuck bytes m₀ t := by
  obtain ⟨visits, hl⟩ := h.lockstep
  have hplan := h.plan_eq
  have hworld : t.world.memory.Snax bytes ∧
      ∀ C, t.workers[topology.compute]? = some C → C.failure = none → t.world.Attends b engine L stuck C.phase := by
    cases m with
    | raise token =>
      cases hm
      exact ⟨h.snax, h.attended⟩
    | step position =>
      obtain ⟨w, hw, hstep⟩ := stepped_of_step? hm
      exact h.step_world hr hkernel hwide hw hstep
  exact {
    plan_eq := (move?_frame hm).1.trans hplan
    lockstep := ⟨_, hl.move m hm⟩
    roster := h.roster.move hm
    snax := hworld.1
    attended := hworld.2
    foretold := h.foretold.move hl (hplan ▸ hr) (fun hw hp ha => h.answer hm₀ hr hkernel hwide hw hp ha) hm }

end Pipeline

namespace Cluster

variable {c : Cluster} {d : Dataset} {b : Kernel.BuiltIn} {config : PipelineConfig} {token : CancelToken}
  {flags : CancelFlags} {backing : Backing} {bytes : Nat} {plan : TilePlan} {personality : Personality} {m : Memory}
  {moves : List Move} {s : Pipeline World}

theorem Placed.resolved {k : Kernel} (h : c.Placed d k config backing bytes plan personality m) (role : Role) :
    plan.Resolved plan.backTile role := h.accepted.resolved (fun _ => h.backed.backingTile_eq) role

theorem foreseen_setUp (h : c.Placed d b.kernel config backing bytes plan personality m) :
    Pipeline.Foreseen c.topology plan b ⟨b.kernel, config.wait, c.clock⟩ c.latency c.stuck bytes m
      (c.setUp d b.kernel config token flags plan personality m).pipeline where
  plan_eq := rfl
  lockstep := ⟨[], Pipeline.Lockstep.create ..⟩
  roster := roster_setUp
  snax := h.snax
  attended := by
    intro C hC _
    obtain ⟨unit, rfl⟩ := mem_workers_setUp h.iterations_pos (List.mem_of_getElem? hC)
    exact ⟨rfl, fun tile => ⟨⟨rfl, h.personality_eq⟩, rfl, rfl, rfl, rfl⟩⟩
  foretold := by
    intro unit w hw
    obtain ⟨hunit, hrole⟩ := roster_setUp.placed unit w hw
    obtain ⟨unit, rfl⟩ := mem_workers_setUp h.iterations_pos (List.mem_of_getElem? hw)
    cases hunit
    have hcourse := Worker.course_create h.iterations_pos plan.backTile unit (c.topology.roleOf unit) (unit == c.topology.mover)
      (unit == c.topology.compute)
    rw [missing_unit, create_unit] at hcourse
    exact ⟨[], hcourse, fun _ _ hx => absurd hx List.not_mem_nil⟩

/-- All answers in a run of a built-in kernel are foretold when it has been set up, whoever goes on and whoever raises
    a token. -/
theorem Placed.foreseen (h : c.Placed d b.kernel config backing bytes plan personality m)
    (hmoves : Pipeline.follow? (World.hardware c.topology ⟨b.kernel, config.wait, c.clock⟩) moves
      (c.setUp d b.kernel config token flags plan personality m).pipeline = some s) :
    Pipeline.Foreseen c.topology plan b ⟨b.kernel, config.wait, c.clock⟩ c.latency c.stuck bytes m s := by
  refine (Pipeline.reached_of_follow? (fun _ _ => (none : Option Unit)) hmoves).invariant
    (P := fun s _ => Pipeline.Foreseen c.topology plan b ⟨b.kernel, config.wait, c.clock⟩ c.latency c.stuck bytes m s)
    (foreseen_setUp h) fun move hs hm => ?_
  exact hs.move h.snax h.resolved rfl h.narrow hm

end Cluster

end TileOffload
