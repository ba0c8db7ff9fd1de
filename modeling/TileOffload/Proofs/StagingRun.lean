import TileOffload.Proofs.Ending
import TileOffload.Proofs.Setup

/-! # Staging in a run

The staging invariant holds at every moment of a run of a cluster, whatever the kernel and the device do to the
work for a tile and whoever raises the token. Main statement: a tile is launched only after both of its loads
have landed, and stored only after it has been computed; the inputs in backing storage never change, and each
tile of the output there is as before the run, or it is the result. -/

namespace TileOffload

namespace Pipeline

/-- What a move does to the tiles, if anything: a transfer is started or lands, the start register is written,
    or a computation ends well. -/
def stagingEvent? (topology : Topology) (engine : Engine) (s : Pipeline World) : Move → Option StagingEvent
  | .raise _ => none
  | .step position =>
    match s.workers[position]? with
    | none => none
    | some w =>
      match w.phase with
      | .working ⟨.transfer x, _⟩ _ => some (.issued x)
      | .working ⟨.compute tile, _⟩ _ =>
        match s.world.phase, (s.world.compute engine tile).1 with
        | .launching, _ => some (.launched tile)
        | _, some (.done _) => some (.computed tile)
        | _, _ => none
      | .settling =>
        if w.report.unit = topology.mover then
          match s.world.landing with
          | some (x :: _) =>
            match s.world.memory.copy x.dst x.src x.len with
            | .ok _ => some (.landed x)
            | .error _ => none
          | _ => none
        else none
      | _ => none

variable {topology : Topology} {engine : Engine} {p : TilePlan} {d : Dataset} {k : Kernel} {b : Kernel.BuiltIn}
  {bytes : Nat} {m₀ : Memory} {s t : Pipeline World} {log : List StagingEvent}

/-- The staging invariant of a pipeline. -/
structure Held (topology : Topology) (p : TilePlan) (d : Dataset) (k : Kernel) (b : Kernel.BuiltIn) (bytes : Nat)
    (m₀ : Memory) (s : Pipeline World) (log : List StagingEvent) : Prop where
  plan_eq : s.plan = p
  roster : Roster topology s
  lockstep : ∃ visits, Lockstep s visits
  staged : ∃ M C, s.workers[topology.mover]? = some M ∧ s.workers[topology.compute]? = some C ∧
    p.Staged d k b bytes m₀ M C s.isRaised s.world log

theorem Held.team (h : Held topology p d k b bytes m₀ s log) {M C : Worker} (hM : s.workers[topology.mover]? = some M)
    (hC : s.workers[topology.compute]? = some C) : p.Team M C s.isRaised := by
  obtain ⟨visits, hl⟩ := h.lockstep
  have hM' := List.mem_of_getElem? hM
  have hC' := List.mem_of_getElem? hC
  have hroleM := (h.roster.placed _ M hM).2
  have hroleC := (h.roster.placed _ C hC).2
  rw [Topology.roleOf, if_pos rfl] at hroleM
  rw [Topology.roleOf, if_neg (Ne.symm topology.mover_ne_compute), if_pos rfl] at hroleC
  have hplan := h.plan_eq
  subst hplan
  exact ⟨hl.met M hM' C hC', hl.met C hC' M hM', hroleM, hroleC, h.roster.sound M hM', h.roster.sound C hC'⟩

theorem Held.last (hs : p.Sited bytes) (h : Held topology p d k b bytes m₀ s log) (hfinished : s.isFinished = true)
    {position : Nat} {w : Worker} (hw : s.workers[position]? = some w) : w.iteration = p.tiles + 2 := by
  obtain ⟨visits, hlockstep⟩ := h.lockstep
  have hmem := List.mem_of_getElem? hw
  rw [(hlockstep.finished w hmem).mp (phase_of_isFinished hfinished hmem), h.plan_eq, hs.iterations_eq]

theorem Held.not_stuck (h : Held topology p d k b bytes m₀ s log) (hfinished : s.isFinished = false) :
    ∃ position t, s.step? (World.hardware topology engine) position = some t := by
  obtain ⟨visits, hlockstep⟩ := h.lockstep
  exact hlockstep.not_stuck hfinished

theorem put_self {position : Nat} {w : Worker} (hw : s.workers[position]? = some w) (w' : Worker) (world : World) :
    (s.put position w' world).workers[position]? = some w' := getElem?_set_self hw

theorem put_other {i j : Nat} (hne : i ≠ j) (w' : Worker) (world : World) :
    (s.put i w' world).workers[j]? = s.workers[j]? := List.getElem?_set_ne hne

theorem put_same {position : Nat} {w : Worker} (hw : s.workers[position]? = some w) (world : World) :
    s.put position w world = { s with world } := by
  simp only [put, set_self hw]

/-- What a step of the mover is: none of its transfers is refused, and none fails to land. -/
theorem Held.mover_step (hs : p.Sited bytes) (hf : d.Fits p) (h : Held topology p d k b bytes m₀ s log) {M C : Worker}
    (hM : s.workers[topology.mover]? = some M) (hC : s.workers[topology.compute]? = some C)
    (hstaged : p.Staged d k b bytes m₀ M C s.isRaised s.world log)
    (hstep : Stepped (World.hardware topology engine) s topology.mover M t) :
    ∃ M' world, t = s.put topology.mover M' world ∧
      p.MoverStep M s.isRaised s.world M' world (stagingEvent? topology engine s (.step topology.mover)) := by
  have team := h.team hM hC
  have hunit : M.report.unit = topology.mover := (h.roster.placed _ M hM).1
  have hplan := h.plan_eq
  subst hplan
  cases hstep with
  | checked phase =>
    simp only [stagingEvent?, hM, phase]
    exact ⟨_, _, rfl, .checked phase⟩
  | @worked task rest world phase answer =>
    obtain ⟨x, hjob, htransfer, -⟩ := hstaged.mover_started hs team phase
    simp [hjob, Hardware.attempt, World.hardware, htransfer] at answer
  | @ended task rest outcome world phase answer =>
    obtain ⟨x, hjob, htransfer, -⟩ := hstaged.mover_started hs team phase
    obtain ⟨job, completes⟩ := task
    cases hjob
    simp only [Hardware.attempt, World.hardware, htransfer, Prod.mk.injEq, Option.some.injEq] at answer
    obtain ⟨rfl, rfl⟩ := answer
    simp only [stagingEvent?, hM, phase]
    exact ⟨_, _, rfl, .started phase rfl⟩
  | raised phase => exact absurd phase hstaged.moving.calm
  | @settled world phase answer =>
    simp only [World.hardware, hunit, if_true] at answer
    simp only [stagingEvent?, hM, phase, hunit, if_true]
    refine ⟨M, world, (put_same hM _).symm, ?_⟩
    cases hl : s.world.landing with
    | none =>
      simp only [World.land, hl, Prod.mk.injEq, true_and] at answer
      exact answer ▸ .took phase hl
    | some queue =>
      cases queue with
      | nil => simp [World.land, hl] at answer
      | cons x rest =>
        obtain ⟨m, hcopy, hland, -⟩ := hstaged.mover_landed hs hf team phase hl
        rw [hland, Prod.mk.injEq] at answer
        simp only [hcopy]
        exact answer.2 ▸ .landed phase hl hcopy
  | @arrived world phase answer =>
    simp only [World.hardware, hunit, if_true] at answer
    simp only [stagingEvent?, hM, phase, hunit, if_true]
    refine ⟨_, world, rfl, ?_⟩
    cases hl : s.world.landing with
    | none => simp [World.land, hl] at answer
    | some queue =>
      cases queue with
      | nil =>
        simp only [World.land, hl, Prod.mk.injEq, true_and] at answer
        exact answer ▸ .arrived phase hl
      | cons x rest =>
        obtain ⟨m, -, hland, -⟩ := hstaged.mover_landed hs hf team phase hl
        simp [hland] at answer
  | passed phase met =>
    simp only [stagingEvent?, hM, phase]
    exact ⟨_, _, rfl, .passed phase⟩

theorem Held.step_mover (hs : p.Sited bytes) (hf : d.Fits p) (h : Held topology p d k b bytes m₀ s log) {M C : Worker}
    (hM : s.workers[topology.mover]? = some M) (hC : s.workers[topology.compute]? = some C)
    (hstaged : p.Staged d k b bytes m₀ M C s.isRaised s.world log)
    (hstep : Stepped (World.hardware topology engine) s topology.mover M t) :
    ∃ M', t.workers[topology.mover]? = some M' ∧ t.workers[topology.compute]? = some C ∧
      p.Staged d k b bytes m₀ M' C t.isRaised t.world
        (log ++ (stagingEvent? topology engine s (.step topology.mover)).toList) := by
  obtain ⟨M', world, rfl, hmover⟩ := h.mover_step hs hf hM hC hstaged hstep
  exact ⟨M', put_self hM _ _, (put_other topology.mover_ne_compute M' world).trans hC,
    hstaged.mover_step hs hf (h.team hM hC) hmover⟩

/-- At the write to the start register no computation ends well. -/
theorem not_done_launching {w w' : World} {tile : Tile} (hw : w.phase = .launching) {polls : Nat}
    (h : w.compute engine tile = (some (.done polls), w')) : False := by
  simp only [World.compute, hw] at h
  split at h <;> cases h

theorem Held.step_compute (hs : p.Sited bytes) (hf : d.Fits p) (hk : k.Follows b) (hkernel : engine.kernel = k)
    (h : Held topology p d k b bytes m₀ s log) {M C : Worker}
    (hM : s.workers[topology.mover]? = some M) (hC : s.workers[topology.compute]? = some C)
    (hstaged : p.Staged d k b bytes m₀ M C s.isRaised s.world log)
    (hstep : Stepped (World.hardware topology engine) s topology.compute C t) :
    ∃ C', t.workers[topology.mover]? = some M ∧ t.workers[topology.compute]? = some C' ∧
      p.Staged d k b bytes m₀ M C' t.isRaised t.world
        (log ++ (stagingEvent? topology engine s (.step topology.compute)).toList) := by
  have team := h.team hM hC
  have hown := h.roster.own
  have hplan := h.plan_eq
  subst hplan
  have hother : ∀ (s' : Pipeline World), s'.workers = s.workers → ∀ (C' : Worker) (world : World),
      (s'.put topology.compute C' world).workers[topology.mover]? = some M := by
    intro s' hs' C' world
    rw [put_other topology.mover_ne_compute.symm, hs', hM]
  have hunit : ¬C.report.unit = topology.mover := by
    rw [(h.roster.placed _ C hC).1]
    exact topology.mover_ne_compute.symm
  cases hstep with
  | checked phase =>
    refine ⟨_, hother s rfl _ _, put_self hC _ _, ?_⟩
    simp only [stagingEvent?, hC, phase, Option.toList_none, List.append_nil]
    exact hstaged.compute_checked hs team phase
  | @worked task rest world phase answer =>
    obtain ⟨tile, ht, hi, rfl, rfl⟩ := team.working hs phase
    have hgo := fun log' (h' : s.plan.Staged d k b bytes m₀ M C s.isRaised s.world log') =>
      h'.compute_goesOn hs hf hk team phase hi ht hkernel answer
    have hanswer : (s.world.compute engine (s.plan.slotTile tile)).1 = none := congrArg Prod.fst answer
    refine ⟨C, hM, hC, ?_⟩
    simp only [stagingEvent?, hC, phase, hanswer]
    split
    · exact hgo _ (hstaged.note (hstaged.launch_due hs team phase hi ht))
    · rename_i hnone _
      cases hnone
    · rw [Option.toList_none, List.append_nil]
      exact hgo _ hstaged
  | @ended task rest outcome world phase answer =>
    obtain ⟨tile, ht, hi, rfl, rfl⟩ := team.working hs phase
    have hend := fun log' (h' : s.plan.Staged d k b bytes m₀ M C s.isRaised s.world log') =>
      h'.compute_ended hs hf hk team phase hi ht hkernel answer
    have hanswer : (s.world.compute engine (s.plan.slotTile tile)).1 = some outcome := congrArg Prod.fst answer
    refine ⟨_, hother s rfl _ _, put_self hC _ _, ?_⟩
    simp only [stagingEvent?, hC, phase, hanswer]
    split
    · rename_i hlaunching
      refine hend _ (hstaged.note (hstaged.launch_due hs team phase hi ht)) fun polls hx => ?_
      subst hx
      exact absurd answer (not_done_launching hlaunching)
    · exact hend _ (hstaged.note trivial) fun _ _ => List.mem_append_right _ List.mem_cons_self
    · rename_i hnone
      rw [Option.toList_none, List.append_nil]
      exact hend _ hstaged fun polls hx => absurd (congrArg some hx) (hnone polls)
  | raised phase =>
    refine ⟨_, hother { s with flags := s.flags.raise s.token } rfl _ _,
      put_self (s := { s with flags := s.flags.raise s.token }) hC _ _, ?_⟩
    simp only [stagingEvent?, hC, phase, Option.toList_none, List.append_nil]
    exact hstaged.compute_raised team phase (CancelFlags.isCancelled_raise hown)
  | @settled world phase answer => simp [World.hardware, hunit] at answer
  | @arrived world phase answer =>
    simp only [World.hardware, hunit, if_false, Prod.mk.injEq, true_and] at answer
    refine ⟨_, hother s rfl _ _, put_self hC _ _, ?_⟩
    simp only [stagingEvent?, hC, phase, hunit, if_false, Option.toList_none, List.append_nil]
    exact answer ▸ hstaged.compute_arrived team phase
  | passed phase met =>
    refine ⟨_, hother s rfl _ _, put_self hC _ _, ?_⟩
    simp only [stagingEvent?, hC, phase, Option.toList_none, List.append_nil]
    exact hstaged.compute_passed phase

theorem Held.no_task (h : Held topology p d k b bytes m₀ s log) {position : Nat} {w : Worker}
    (hw : s.workers[position]? = some w) (hmover : position ≠ topology.mover) (hcompute : position ≠ topology.compute)
    (task : Task) (rest : List Task) : w.phase ≠ .working task rest := by
  intro hx
  have hrole := (h.roster.placed position w hw).2
  rw [Topology.roleOf, if_neg hmover, if_neg hcompute] at hrole
  obtain ⟨done, htasks⟩ := (h.roster.sound w (List.mem_of_getElem? hw)).queued task rest hx
  rw [hrole, TilePlan.tasks_idle] at htasks
  simp at htasks

/-- A step of a unit without work touches nothing that the others share but the token. -/
theorem Held.step_idle (h : Held topology p d k b bytes m₀ s log) {position : Nat} {w M C : Worker}
    (hw : s.workers[position]? = some w) (hmover : position ≠ topology.mover) (hcompute : position ≠ topology.compute)
    (hM : s.workers[topology.mover]? = some M) (hC : s.workers[topology.compute]? = some C)
    (hstaged : p.Staged d k b bytes m₀ M C s.isRaised s.world log)
    (hstep : Stepped (World.hardware topology engine) s position w t) :
    t.workers[topology.mover]? = some M ∧ t.workers[topology.compute]? = some C ∧
      p.Staged d k b bytes m₀ M C t.isRaised t.world
        (log ++ (stagingEvent? topology engine s (.step position)).toList) := by
  have hunit := (h.roster.placed position w hw).1
  have hnotask := h.no_task hw hmover hcompute
  have hnotmover : ¬w.report.unit = topology.mover := hunit ▸ hmover
  have hkept : ∀ (s' : Pipeline World), s'.workers = s.workers → ∀ (w' : Worker) (world : World),
      (s'.put position w' world).workers[topology.mover]? = some M ∧
        (s'.put position w' world).workers[topology.compute]? = some C := by
    intro s' hs' w' world
    rw [put_other hmover, put_other hcompute, hs']
    exact ⟨hM, hC⟩
  have hevent : stagingEvent? topology engine s (.step position) = none := by
    simp only [stagingEvent?, hw, hnotmover, if_false]
    cases hp : w.phase with
    | working task rest => exact absurd hp (hnotask task rest)
    | _ => rfl
  rw [hevent, Option.toList_none, List.append_nil]
  cases hstep with
  | checked phase => exact ⟨(hkept s rfl _ _).1, (hkept s rfl _ _).2, hstaged⟩
  | worked phase answer => exact absurd phase (hnotask _ _)
  | ended phase answer => exact absurd phase (hnotask _ _)
  | raised phase =>
    have hkept' := hkept { s with flags := s.flags.raise s.token } rfl { w with phase := .settling } s.world
    exact ⟨hkept'.1, hkept'.2, hstaged.raise CancelFlags.isCancelled_mono⟩
  | settled phase answer => simp [World.hardware, hnotmover] at answer
  | @arrived world phase answer =>
    simp only [World.hardware, hnotmover, if_false, Prod.mk.injEq, true_and] at answer
    exact ⟨(hkept s rfl _ _).1, (hkept s rfl _ _).2, answer ▸ hstaged⟩
  | passed phase met => exact ⟨(hkept s rfl _ _).1, (hkept s rfl _ _).2, hstaged⟩

theorem Held.move (hs : p.Sited bytes) (hf : d.Fits p) (hk : k.Follows b) (hkernel : engine.kernel = k)
    (h : Held topology p d k b bytes m₀ s log) (m : Move) (hm : s.move? (World.hardware topology engine) m = some t) :
    Held topology p d k b bytes m₀ t (log ++ (stagingEvent? topology engine s m).toList) := by
  obtain ⟨visits, hlockstep⟩ := h.lockstep
  refine ⟨(move?_frame hm).1.trans h.plan_eq, h.roster.move hm, ⟨_, hlockstep.move m hm⟩, ?_⟩
  obtain ⟨M, C, hM, hC, hstaged⟩ := h.staged
  cases m with
  | raise token =>
    cases hm
    rw [stagingEvent?, Option.toList_none, List.append_nil]
    exact ⟨M, C, hM, hC, hstaged.raise CancelFlags.isCancelled_mono⟩
  | step position =>
    obtain ⟨w, hw, hstep⟩ := stepped_of_step? hm
    by_cases hmover : position = topology.mover
    · subst hmover
      obtain rfl := Option.some.inj (hw.symm.trans hM)
      obtain ⟨M', hresult⟩ := h.step_mover hs hf hM hC hstaged hstep
      exact ⟨M', C, hresult⟩
    by_cases hcompute : position = topology.compute
    · subst hcompute
      obtain rfl := Option.some.inj (hw.symm.trans hC)
      obtain ⟨C', hresult⟩ := h.step_compute hs hf hk hkernel hM hC hstaged hstep
      exact ⟨M, C', hresult⟩
    exact ⟨M, C, h.step_idle hw hmover hcompute hM hC hstaged hstep⟩

section Run
variable {c : Cluster} {config : PipelineConfig} {token : CancelToken} {flags : CancelFlags} {backing : Backing}
  {personality : Personality} {m : Memory}

theorem held_setUp (h : c.Placed d k config backing bytes p personality m) (ha : d.a.length = d.length)
    (hb : d.b.length = d.length) :
    Held c.topology p d k b bytes m (c.setUp d k config token flags p personality m).pipeline [] := by
  refine ⟨rfl, Cluster.roster_setUp, ⟨[], Lockstep.create _ _ _ _ _ _ _⟩, ?_⟩
  exact ⟨_, _, (Cluster.workers_setUp h.iterations_pos c.topology.mover_lt).trans (congrArg some (Cluster.create_mover _)),
    (Cluster.workers_setUp h.iterations_pos c.topology.compute_lt).trans (congrArg some (Cluster.create_compute _)),
    Cluster.staged_setUp h ha hb _⟩

theorem held_of_follow? (hk : k.Follows b) (h : c.Placed d k config backing bytes p personality m)
    (ha : d.a.length = d.length) (hb : d.b.length = d.length)
    (hin : ∀ l, Chip.inTcdm (p.region l).addr (p.region l).len = true) {moves : List Move}
    (hmoves : follow? (World.hardware c.topology ⟨k, config.wait, c.clock⟩) moves
      (c.setUp d k config token flags p personality m).pipeline = some s) :
    Held c.topology p d k b bytes m s (history (World.hardware c.topology ⟨k, config.wait, c.clock⟩)
      (stagingEvent? c.topology ⟨k, config.wait, c.clock⟩) moves
      (c.setUp d k config token flags p personality m).pipeline) :=
  (reached_of_follow? _ hmoves).invariant (held_setUp h ha hb) fun m hheld hm =>
    hheld.move (h.sited hin) (h.fits ha hb) hk rfl m hm

end Run

end Pipeline

namespace Cluster

/-- Staging safety of every run, also of one that fails or is stopped. The kernel's transactions are those of a
    built-in kernel, but it may fail or panic on any tile; the device may be slow or stuck; tokens may be raised
    at any moment, and the units may go on in any order. Then no tile is launched before both of its loads have
    landed, and no store is started before the tile has been computed; both input vectors stay as they are in
    backing storage, and each tile of the output vector is as it was before the run, or it is the result. -/
theorem run_stages_safely {c : Cluster} {d : Dataset} {k : Kernel} {b : Kernel.BuiltIn} {config : PipelineConfig}
    {token : CancelToken} {flags : CancelFlags} {r : Run} {moves : List Move} {s : Pipeline World} (hk : k.Follows b)
    (ha : d.a.length = d.length) (hb : d.b.length = d.length) (hr : c.prepare d k config token flags = .ok r)
    (hin : ∀ l, Chip.inTcdm (r.pipeline.plan.region l).addr (r.pipeline.plan.region l).len = true)
    (hmoves : Pipeline.follow? r.hardware moves r.pipeline = some s) :
    r.pipeline.plan.InOrder
      (Pipeline.history r.hardware (Pipeline.stagingEvent? r.topology r.engine) moves r.pipeline) ∧
    s.world.memory.readWords r.pipeline.plan.backing.a d.length = .ok d.a ∧
    s.world.memory.readWords r.pipeline.plan.backing.b d.length = .ok d.b ∧
    ∀ t < r.pipeline.plan.tiles, ∃ tile, r.pipeline.plan.backingTile t = .ok tile ∧
      (s.world.memory.readWords tile.o tile.elements = r.pipeline.world.memory.readWords tile.o tile.elements ∨
        s.world.memory.readWords tile.o tile.elements =
          .ok (((k.golden d.a d.b).drop (t * tile.elements)).take tile.elements)) := by
  obtain ⟨backing, bytes, plan, personality, m, hplaced, rfl⟩ := prepare_eq_ok.mp hr
  have hheld := Pipeline.held_of_follow? hk hplaced ha hb hin hmoves
  have hs := hplaced.sited hin
  have hf := hplaced.fits ha hb
  obtain ⟨M, C, -, -, hstaged⟩ := hheld.staged
  have hsnax := hstaged.stock.snax
  refine ⟨hstaged.order, hplaced.readWords_vector hsnax ha (hstaged.stock.inputs .a nofun),
    hplaced.readWords_vector hsnax hb (hstaged.stock.inputs .b nofun), fun t ht => ⟨_, hs.backingTile_eq ht, ?_⟩⟩
  have haligned := hplaced.backWord_aligned hs ht .o
  have hmaps := fun {m' : Memory} (hm : m'.Snax bytes) => hs.maps_back hm ht .o
  rcases hstaged.stock.outputs t ht with hholds | hagree
  · refine Or.inr ?_
    have hread := Memory.readWords_of_holds hsnax.2 hholds haligned
    rw [hf.length_words ht] at hread
    exact hread (hmaps hsnax)
  · refine Or.inl ?_
    rw [hs.span_back ht, show plan.tileBytes = Bytes.perWord * plan.tileLength from Nat.mul_comm _ _] at hagree
    have hsnax₀ := (hplaced.inputs ha hb).1
    exact Memory.readWords_congr hsnax₀.2 hsnax.2 hagree haligned (hmaps hsnax₀) (hmaps hsnax)

/-- The multiply-accumulate kernel, but it panics on the second tile. -/
def faltering : Kernel :=
  { Kernel.mac with describe := fun tile => if tile.index = 1 then .panicked else Kernel.mac.describe tile }

theorem faltering_follows : faltering.Follows .mac := by
  refine ⟨rfl, rfl, fun {tile desc} h => ?_⟩
  simp only [faltering] at h
  split at h
  · cases h
  · exact h

/-- The reference dataset on the chip, in five tiles, the second of which ends the run: some schedule takes all units to
    their end, and whatever schedule they take and whenever the token is raised, the tiles are moved and computed in
    order and the input is as it was. -/
theorem faltering_stages_safely :
    ∃ r : Run, (make .snax .tcdm).prepare .reference faltering (.tiled 4) ⟨0, []⟩ ⟨#[false]⟩ = .ok r ∧
      r.pipeline.plan.tiles = 5 ∧
      (∃ (positions : List Nat) (s : Pipeline World),
        Pipeline.follow? r.hardware (positions.map Move.step) r.pipeline = some s ∧ s.isFinished = true) ∧
      ∀ moves s, Pipeline.follow? r.hardware moves r.pipeline = some s →
        r.pipeline.plan.InOrder
          (Pipeline.history r.hardware (Pipeline.stagingEvent? r.topology r.engine) moves r.pipeline) ∧
        s.world.memory.readWords r.pipeline.plan.backing.a 20 = .ok Dataset.reference.a := by
  have hplan : ∃ plan, TilePlan.make 20 (.tiled 4) .tcdm ⟨0x80000000, 0x80000050, 0x800000A0⟩ = .ok plan ∧
      plan.tiles = 5 ∧ ∀ l, Chip.inTcdm (plan.region l).addr (plan.region l).len = true :=
    ⟨_, rfl, rfl, fun l => by cases l <;> rfl⟩
  obtain ⟨plan, hplan, htiles, hin⟩ := hplan
  have hpersonality : Personality.ofMap? faltering.map = some .mac := rfl
  obtain ⟨m, hplaced⟩ := exists_placed (c := make .snax .tcdm) (d := .reference) (k := faltering) (by rfl) hplan hpersonality
    rfl rfl
  have hr : (make .snax .tcdm).prepare .reference faltering (.tiled 4) ⟨0, []⟩ ⟨#[false]⟩ = .ok _ :=
    prepare_eq_ok.mpr ⟨_, _, _, _, m, hplaced, rfl⟩
  have hlockstep : Pipeline.Lockstep
      ((make .snax .tcdm).setUp .reference faltering (.tiled 4) ⟨0, []⟩ ⟨#[false]⟩ plan .mac m).pipeline [] :=
    .create _ _ _ _ _ _ _
  refine ⟨_, hr, htiles, ?_, fun moves s hmoves => ?_⟩
  · exact hlockstep.exists_finished (World.hardware_tiring faltering_follows rfl .snax) (Nat.succ_pos _)
  · obtain ⟨horder, ha, -⟩ := run_stages_safely faltering_follows rfl rfl hr hin hmoves
    exact ⟨horder, ha⟩

end Cluster

end TileOffload
