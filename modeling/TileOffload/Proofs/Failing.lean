import TileOffload.Proofs.Containment
import TileOffload.Proofs.Doomed
import TileOffload.Proofs.Progress

/-! # Failing runs

A run whose compute unit fails on one tile, and nobody outside raises a token. The other units stop once they see
the token that the compute unit raises: the mover at the latest before it would store the tile. Main statement: in
the end the run has the compute unit's error, and it is known of every tile but one whether its results are in
backing storage. -/

namespace TileOffload

/-- A unit whose only failure is that it was stopped. -/
structure Worker.Bystander (w : Worker) : Prop where
  calm : w.phase ≠ .raising
  stopped : ∀ e, w.failure = some e → e.isCancelled = true

namespace Worker

variable {w : Worker} {p : TilePlan}

theorem Bystander.proceed (h : w.Bystander) (tasks : List Task) : (w.proceed tasks).Bystander :=
  ⟨w.proceed_ne_raising tasks, by rw [(proceed_kept w tasks).2.2]; exact h.stopped⟩

theorem Bystander.checked (h : w.Bystander) (raised : Bool) : (w.checked p raised).Bystander := by
  unfold Worker.checked
  split
  · refine ⟨nofun, fun e he => ?_⟩
    obtain rfl := Option.some.inj he
    rfl
  · exact h.proceed _

theorem Bystander.record (h : w.Bystander) (completes : Option (Stage × Nat)) (polls : Nat) :
    (w.record completes polls).Bystander := by
  obtain ⟨-, -, -, hfailure, hphase⟩ := record_kept w completes polls
  refine ⟨?_, ?_⟩
  · rw [hphase]
    exact h.calm
  · rw [hfailure]
    exact h.stopped

theorem Bystander.arrived (h : w.Bystander) : Bystander { w with phase := .waiting } := ⟨nofun, h.stopped⟩

theorem Bystander.passed (h : w.Bystander) : (w.passed p).Bystander := ⟨w.passed_ne_raising p, h.stopped⟩

end Worker

namespace TilePlan

variable {p : TilePlan} {d : Dataset} {k : Kernel} {b : Kernel.BuiltIn} {bytes L n : Nat} {e : Error}
  {P : Nat → World → Prop} {m m' m₀ : Memory} {M C M' C' w w' : Worker} {raised raised' : Bool} {world world' : World}
  {log : List StagingEvent} {event : Option StagingEvent} {engine : Engine}

theorem MoverStep.bystander (h : M.Bystander) (hstep : p.MoverStep M raised world M' world' event) : M'.Bystander := by
  cases hstep with
  | checked phase => exact h.checked raised
  | @started task rest x phase job => exact (h.record task.completes 0).proceed rest
  | took phase landing | landed phase landing copied => exact h
  | arrived phase landing => exact h.arrived
  | passed phase => exact h.passed

theorem IdleStep.bystander (h : w.Bystander) (hstep : p.IdleStep w raised w' raised') :
    w'.Bystander ∧ raised' = raised := by
  cases hstep with
  | checked phase => exact ⟨h.checked raised, rfl⟩
  | raised phase => exact absurd phase h.calm
  | arrived phase => exact ⟨h.arrived, rfl⟩
  | passed phase => exact ⟨h.passed, rfl⟩

/-! ### The compute unit -/

/-- The compute unit up to its failure on tile `n`, and after it. -/
structure Breaking (p : TilePlan) (n : Nat) (e : Error) (P : Nat → World → Prop) (C : Worker) (raised : Bool)
    (w : World) : Prop where
  well : C.failure = none → raised = false ∧ C.through p ≤ n ∧ P (C.through p) w
  broken : ∀ e', C.failure = some e' → e' = e ∧ n < C.iteration
  raising : C.phase = .raising → C.iteration = n + 1

/-- A part of the work for a tile goes on, or it is the last one of a tile that is served, or the failure. -/
theorem Breaking.answer (hdoomed : Doomed p d k b bytes engine C.report.unit L n e P)
    (hstaged : p.Staged d k b bytes m₀ M C raised world log) (h : p.Breaking n e P C raised world)
    (team : p.Team M C raised) {t : Nat} {task : Task} (hp : C.phase = .working task []) (ht : t < p.tiles)
    (hi : C.iteration = t + 1) {answer : Option (Outcome Nat)}
    (hstep : world.compute engine (p.slotTile t) = (answer, world')) :
    raised = false ∧ t ≤ n ∧ ((answer = none ∧ P t world' ∧ world'.phase.left L < world.phase.left L) ∨
      (∃ polls, answer = some (.done polls) ∧ P (t + 1) world' ∧ t < n) ∨
      ∃ outcome, answer = some outcome ∧ t = n ∧ outcome.error? C.report.unit C.iteration = some e) := by
  obtain ⟨hlow, hle, hP⟩ := h.well (team.soundC.healthy (Or.inr ⟨task, [], hp⟩))
  rw [Worker.through_working hp ht hi] at hle hP
  have hengaged := hstaged.driving.engaged task [] hp
  rw [show C.iteration - 1 = t by omega] at hengaged
  have hsnax := hstaged.stock.snax
  have hdriven := hstaged.driving.driven
  refine ⟨hlow, hle, ?_⟩
  rcases Nat.lt_or_eq_of_le hle with hlt | rfl
  · rcases hdoomed.serves hlt hsnax hdriven hengaged hP with ⟨w', hgoes, hP', hless⟩ | ⟨polls, w', hdone, hP'⟩
    · obtain ⟨rfl, rfl⟩ := Prod.mk.inj (hgoes.symm.trans hstep)
      exact Or.inl ⟨rfl, hP', hless⟩
    · obtain ⟨rfl, rfl⟩ := Prod.mk.inj (hdone.symm.trans hstep)
      exact Or.inr (Or.inl ⟨polls, rfl, hP', hlt⟩)
  · rcases hdoomed.fails hsnax hdriven hengaged hP with ⟨w', hgoes, hP', hless⟩ | ⟨outcome, w', hfails, herror⟩
    · obtain ⟨rfl, rfl⟩ := Prod.mk.inj (hgoes.symm.trans hstep)
      exact Or.inl ⟨rfl, hP', hless⟩
    · obtain ⟨rfl, rfl⟩ := Prod.mk.inj (hfails.symm.trans hstep)
      exact Or.inr (Or.inr ⟨outcome, rfl, rfl, hi ▸ herror⟩)

theorem Breaking.step (hs : p.Sited bytes) (hdoomed : Doomed p d k b bytes engine C.report.unit L n e P)
    (hn : n < p.tiles) (hstaged : p.Staged d k b bytes m₀ M C raised world log) (team : p.Team M C raised)
    (h : p.Breaking n e P C raised world) (hstep : p.ComputeStep engine C raised world C' world' raised') :
    p.Breaking n e P C' raised' world' := by
  cases hstep with
  | checked phase =>
    obtain ⟨hlow, hle, hP⟩ := h.well (team.soundC.healthy (Or.inl phase))
    subst hlow
    have hthrough := Worker.through_checked hs team.computer phase
    have hfailure : (C.checked p false).failure = none := by
      rw [Worker.checked, if_neg (by decide), (Worker.proceed_kept _ _).2.2]
      exact team.soundC.healthy (Or.inl phase)
    have hcalm : (C.checked p false).phase ≠ .raising := by
      rw [Worker.checked, if_neg (by decide)]
      exact C.proceed_ne_raising _
    refine ⟨fun _ => ⟨rfl, by rw [hthrough]; exact hle, by rw [hthrough]; exact hP⟩, fun e' he => ?_,
      fun hx => absurd hx hcalm⟩
    rw [hfailure] at he
    cases he
  | worked phase tile iteration answer =>
    obtain ⟨hlow, hle, ⟨-, hP, -⟩ | ⟨polls, ⟨⟩, -⟩ | ⟨outcome, ⟨⟩, -⟩⟩ :=
      h.answer hdoomed hstaged team phase tile iteration answer
    refine ⟨fun _ => ?_, h.broken, h.raising⟩
    rw [Worker.through_working phase tile iteration]
    exact ⟨hlow, hle, hP⟩
  | @ended t task outcome w' phase tile iteration answer =>
    obtain ⟨hlow, -, ⟨⟨⟩, -⟩ | ⟨polls, hdone, hP, hlt⟩ | ⟨outcome, hfails, rfl, herror⟩⟩ :=
      h.answer hdoomed hstaged team phase tile iteration answer
    · obtain rfl := Option.some.inj hdone
      have hthrough := Worker.through_done tile iteration task polls
      have hfailure : (C.ended task [] (.done polls)).failure = none :=
        (Worker.record_kept C task.completes polls).2.2.2.1.trans (team.soundC.healthy (Or.inr ⟨task, [], phase⟩))
      refine ⟨fun _ => ⟨hlow, by rw [hthrough]; exact hlt, by rw [hthrough]; exact hP⟩, fun e' he => ?_,
        fun hx => by cases hx⟩
      rw [hfailure] at he
      cases he
    · obtain rfl := Option.some.inj hfails
      rw [Worker.ended_of_error herror]
      refine ⟨(fun hx => by cases hx), fun e' he => ⟨(Option.some.inj he).symm, ?_⟩, fun _ => iteration⟩
      exact Nat.lt_of_lt_of_eq (Nat.lt_succ_self t) iteration.symm
  | raised phase => exact ⟨fun hx => absurd hx (team.soundC.failed phase), h.broken, fun hx => by cases hx⟩
  | arrived phase =>
    refine ⟨fun hx => ?_, h.broken, fun hx => by cases hx⟩
    rw [Worker.through_arrived phase]
    exact h.well hx
  | passed phase =>
    refine ⟨fun hx => ?_, fun e' he => ⟨(h.broken e' he).1, Nat.lt_succ_of_lt (h.broken e' he).2⟩,
      fun hx => absurd hx (C.passed_ne_raising p)⟩
    rw [Worker.through_passed phase hx]
    exact h.well hx

theorem Breaking.of_world (hdoomed : Doomed p d k b bytes engine C.report.unit L n e P)
    (h : p.Breaking n e P C raised world) (hphase : world'.phase = world.phase) (hdevice : world'.device = world.device) :
    p.Breaking n e P C raised world' := by
  refine ⟨fun hx => ?_, h.broken, h.raising⟩
  obtain ⟨hlow, hle, hP⟩ := h.well hx
  exact ⟨hlow, hle, hdoomed.congr hP hphase hdevice⟩

theorem Breaking.works (hdoomed : Doomed p d k b bytes engine C.report.unit L n e P)
    (hstaged : p.Staged d k b bytes m₀ M C raised world log) (h : p.Breaking n e P C raised world)
    (team : p.Team M C raised) : p.Works engine L C world := by
  intro t task w' hp ht hi answer
  obtain ⟨-, -, ⟨-, -, hless⟩ | ⟨polls, ⟨⟩, -⟩ | ⟨outcome, ⟨⟩, -⟩⟩ := h.answer hdoomed hstaged team hp ht hi answer
  exact hless

theorem Breaking.failed (h : p.Breaking n e P C raised world) (hn : n < p.tiles) (hi : C.hasArrived (n + 1) = true) :
    C.failure = some e := by
  cases hfailure : C.failure with
  | some e' => rw [(h.broken e' hfailure).1]
  | none =>
    obtain ⟨-, hle, -⟩ := h.well hfailure
    rcases Pipeline.hasArrived_iff.mp hi with hi | ⟨hi, hp⟩
    · unfold Worker.through at hle
      split at hle <;> omega
    · simp only [Worker.through, hp] at hle
      omega

theorem Breaking.raised_of_arrived (h : p.Breaking n e P C raised world) (hn : n < p.tiles) (team : p.Team M C raised)
    (hi : C.hasArrived (n + 1) = true) : raised = true := by
  have hfailure := h.failed hn hi
  refine (team.soundC.told (by simp [hfailure])).resolve_left fun hp => ?_
  have hlt := lt_of_hasArrived hi (by simp [hp])
  have := h.raising hp
  omega

theorem Breaking.lt_of_raised (h : p.Breaking n e P C raised world) (hr : raised = true) : n < C.iteration := by
  cases hfailure : C.failure with
  | some e' => exact (h.broken e' hfailure).2
  | none =>
    obtain ⟨hlow, -, -⟩ := h.well hfailure
    rw [hr] at hlow
    cases hlow

/-! ### The mover -/

/-- How far the mover comes before it is stopped, and what it has stored by then. -/
structure Storing (p : TilePlan) (d : Dataset) (k : Kernel) (n : Nat) (m₀ : Memory) (M : Worker) (m : Memory) :
    Prop where
  going : M.failure = none → M.iteration ≤ n + 1 ∨ M.iteration = n + 2 ∧ M.phase = .checking
  stopped : M.failure ≠ none → n < M.iteration
  secured : ∀ t < p.tiles, t + 1 < n → M.hasArrived (t + 2) = true → m.Holds (p.backWord t .o).toNat (p.words d k t .o)
  untouched : ∀ t < p.tiles, n ≤ t → m.AgreeOn m₀ ((p.backTile t).span .o)

theorem Storing.wrote (hs : p.Sited bytes) (hf : d.Fits p) (h : p.Storing d k n m₀ M m) {s : Span} (hw : m.Wrote m' s)
    (hapart : ∀ t < p.tiles, n ≤ t ∨ M.hasArrived (t + 2) = true → ((p.backTile t).span .o).Apart s) :
    p.Storing d k n m₀ M m' := by
  refine ⟨h.going, h.stopped, fun t ht hlt ha => hw.holds (h.secured t ht hlt ha) ?_, fun t ht hle => ?_⟩
  · rw [span_words hf ht, ← hs.span_back ht]
    exact hapart t ht (Or.inr ha)
  · exact (hw.apart _ (hapart t ht (Or.inl hle))).trans (h.untouched t ht hle)

/-- The mover in another phase of the same iteration, not at the barrier before or after. -/
theorem Storing.turn (h : p.Storing d k n m₀ M m) (hi : M'.iteration = M.iteration) (hp : M.phase ≠ .waiting)
    (hp' : M'.phase ≠ .waiting) (hgoing : M'.failure = none → M.iteration ≤ n + 1)
    (hstopped : M'.failure ≠ none → n < M.iteration) : p.Storing d k n m₀ M' m := by
  have hcongr : ∀ i, M'.hasArrived i = M.hasArrived i := hasArrived_congr hi (by simp [hp, hp'])
  refine ⟨fun hx => Or.inl (hi ▸ hgoing hx), fun hx => hi ▸ hstopped hx, fun t ht hlt ha => ?_, h.untouched⟩
  rw [hcongr] at ha
  exact h.secured t ht hlt ha

theorem Storing.step (hs : p.Sited bytes) (hf : d.Fits p) (hn : n < p.tiles)
    (hstaged : p.Staged d k b bytes m₀ M C raised world log) (team : p.Team M C raised)
    (hbreaking : p.Breaking n e P C raised world) (h : p.Storing d k n m₀ M world.memory)
    (hstep : p.MoverStep M raised world M' world' event) : p.Storing d k n m₀ M' world'.memory := by
  cases hstep with
  | checked phase =>
    have hnone := team.soundM.healthy (Or.inl phase)
    have hwait : M.phase ≠ .waiting := by simp [phase]
    unfold Worker.checked
    split
    · rename_i hr
      refine h.turn rfl hwait nofun nofun fun _ => ?_
      exact lt_of_hasArrived (team.behind n (hbreaking.lt_of_raised hr)) hwait
    · rename_i hr
      have hkept := Worker.proceed_kept M (p.tasks M.report.role M.iteration)
      refine h.turn hkept.2.1 hwait (Pipeline.busy_proceed M _).1 (fun _ => ?_) fun hx => absurd (hkept.2.2.trans hnone) hx
      -- Past the barrier at which the compute unit has failed the token would be raised.
      refine (h.going hnone).resolve_right fun ⟨hi, _⟩ => hr ?_
      exact hbreaking.raised_of_arrived hn team (team.ahead (n + 1) (by omega))
  | @started task rest x phase job =>
    have hnone := team.soundM.healthy (Or.inr ⟨task, rest, phase⟩)
    have hwait : M.phase ≠ .waiting := by simp [phase]
    obtain ⟨-, -, hiter, hfailure, -⟩ := Worker.record_kept M task.completes 0
    obtain ⟨-, hiter', hfailure'⟩ := Worker.proceed_kept (M.record task.completes 0) rest
    refine h.turn (hiter'.trans hiter) hwait (Pipeline.busy_proceed _ _).1 (fun _ => ?_)
      fun hx => absurd (hfailure'.trans (hfailure.trans hnone)) hx
    refine (h.going hnone).resolve_right fun ⟨_, hx⟩ => ?_
    rw [phase] at hx
    cases hx
  | took phase landing => exact h
  | landed phase landing copied =>
    obtain ⟨hnone, t, l, rfl, ht, hi⟩ := hstaged.moving.next_leg phase landing
    obtain ⟨m, -, hcopy, hwrote, -⟩ := World.land_leg hs hstaged.stock.snax ht landing
    obtain rfl := Except.ok.inj (hcopy.symm.trans copied)
    refine h.wrote hs hf hwrote fun u hu hcase => back_apart_leg hs ht hu fun hl hut => ?_
    subst hl hut
    have hi' : M.iteration = u + 2 := hi
    rcases hcase with hle | ha
    · rcases h.going hnone with hx | ⟨-, hx⟩
      · omega
      · rw [phase] at hx
        cases hx
    · have := lt_of_hasArrived ha (by simp [phase])
      omega
  | arrived phase landing =>
    refine ⟨fun hx => Or.inl ?_, h.stopped, fun t ht hlt ha => ?_, h.untouched⟩
    · refine (h.going hx).resolve_right fun ⟨_, hx⟩ => ?_
      rw [phase] at hx
      cases hx
    · rcases hasArrived_waiting ha with ha | hi
      · exact h.secured t ht hlt ha
      · have hnone : M.failure = none := Classical.byContradiction fun hx => by
          have := h.stopped hx
          omega
        exact (hstaged.moving.all_landed phase landing hnone (t, .o) (mem_legs.mpr ⟨ht, hi⟩)).1
  | passed phase =>
    have hlast := hs.iterations_eq
    refine ⟨fun hx => ?_, fun hx => Nat.lt_succ_of_lt (h.stopped hx), fun t ht hlt ha => ?_, h.untouched⟩
    · have hnone : M.failure = none := hx
      rw [Pipeline.iteration_passed]
      rcases h.going hnone with hle | ⟨-, hp⟩
      · rcases Nat.lt_or_eq_of_le hle with hlt | hi
        · exact Or.inl hlt
        · refine Or.inr ⟨by omega, ?_⟩
          rw [Worker.passed, hnone, if_neg (by omega)]
          rfl
      · rw [phase] at hp
        cases hp
    · rw [hasArrived_passed phase] at ha
      exact h.secured t ht hlt ha

end TilePlan

/-! ### The whole run -/

namespace Pipeline

variable {topology : Topology} {engine : Engine} {p : TilePlan} {d : Dataset} {k : Kernel} {b : Kernel.BuiltIn}
  {bytes L n : Nat} {e : Error} {P : Nat → World → Prop} {m₀ : Memory} {s t : Pipeline World} {position : Nat}

/-- A run at any moment whose compute unit fails on tile `n` with the error `e`. -/
structure Failing (topology : Topology) (p : TilePlan) (d : Dataset) (k : Kernel) (b : Kernel.BuiltIn) (bytes : Nat)
    (m₀ : Memory) (n : Nat) (e : Error) (P : Nat → World → Prop) (s : Pipeline World) : Prop where
  held : ∃ log, Held topology p d k b bytes m₀ s log
  bystanders : ∀ (i : Nat) (w : Worker), s.workers[i]? = some w → i ≠ topology.compute → w.Bystander
  breaking : ∀ C, s.workers[topology.compute]? = some C → p.Breaking n e P C s.isRaised s.world
  storing : ∀ M, s.workers[topology.mover]? = some M → p.Storing d k n m₀ M s.world.memory

theorem Failing.bystanders_set (h : Failing topology p d k b bytes m₀ n e P s) {w' : Worker}
    (hw : position ≠ topology.compute → w'.Bystander) (hworkers : t.workers = s.workers.set position w') (i : Nat)
    (w : Worker) (hi : t.workers[i]? = some w) (hne : i ≠ topology.compute) : w.Bystander := by
  rw [hworkers, List.getElem?_set] at hi
  split at hi
  · rename_i hsame
    subst hsame
    split at hi
    · cases hi
      exact hw hne
    · cases hi
  · exact h.bystanders i w hi hne

theorem Failing.step (hs : p.Sited bytes) (hf : d.Fits p) (hk : k.Follows b) (hkernel : engine.kernel = k)
    (hdoomed : Doomed p d k b bytes engine topology.compute L n e P) (hn : n < p.tiles)
    (h : Failing topology p d k b bytes m₀ n e P s)
    (hstep : s.step? (World.hardware topology engine) position = some t) :
    Failing topology p d k b bytes m₀ n e P t ∧ t.stepsLeft p L < s.stepsLeft p L := by
  obtain ⟨log, held⟩ := h.held
  obtain ⟨M, C, hM, hC, hstaged⟩ := held.staged
  have team := held.team hM hC
  have hbreaking := h.breaking C hC
  have hstoring := h.storing M hM
  have hdoomedC : Doomed p d k b bytes engine C.report.unit L n e P := by
    rw [(held.roster.placed _ C hC).1]
    exact hdoomed
  have held' : Held topology p d k b bytes m₀ t _ := held.move hs hf hk hkernel (.step position) hstep
  have hfewer := held.fewer hs hf hk hkernel (fun C' hC' => by
    obtain rfl := Option.some.inj (hC.symm.trans hC')
    exact hbreaking.works hdoomedC hstaged team) hstep
  refine ⟨?_, hfewer⟩
  obtain ⟨w, hw, hstep⟩ := stepped_of_step? hstep
  by_cases hmover : position = topology.mover
  · subst hmover
    obtain rfl := Option.some.inj (hw.symm.trans hM)
    obtain ⟨M', world, rfl, hmoved⟩ := held.mover_step hs hf hM hC hstaged hstep
    refine ⟨⟨_, held'⟩, h.bystanders_set (fun hne => hmoved.bystander (h.bystanders _ w hw hne)) rfl, fun C' hx => ?_,
      fun M hx => ?_⟩
    · rw [put_other topology.mover_ne_compute, hC] at hx
      cases hx
      exact hbreaking.of_world hdoomedC hmoved.kept.1 hmoved.kept.2
    · rw [put_self hM] at hx
      cases hx
      exact hstoring.step hs hf hn hstaged team hbreaking hmoved
  by_cases hcompute : position = topology.compute
  · subst hcompute
    obtain rfl := Option.some.inj (hw.symm.trans hC)
    obtain ⟨C', hworkers, hcomputed⟩ := held.compute_step hs hM hC hstep
    refine ⟨⟨_, held'⟩, h.bystanders_set (fun hne => absurd rfl hne) hworkers, fun C hx => ?_, fun M' hx => ?_⟩
    · rw [hworkers, getElem?_set_self hC] at hx
      cases hx
      exact hbreaking.step hs hdoomedC hn hstaged team hcomputed
    · rw [hworkers, List.getElem?_set_ne hmover, hM] at hx
      cases hx
      obtain ⟨-, -, tile, hwrote⟩ := hstaged.compute_kept hs hf hk team hkernel hcomputed
      exact hstoring.wrote hs hf hwrote fun u hu _ => (hs.slot_apart_back tile .o hu .o).symm
  obtain ⟨w', hworkers, hworld, hidle⟩ := held.idle_step hw hmover hcompute hstep
  obtain ⟨hbystander, hlow⟩ := hidle.bystander (h.bystanders _ w hw hcompute)
  refine ⟨⟨_, held'⟩, h.bystanders_set (fun _ => hbystander) hworkers, fun C' hx => ?_, fun M' hx => ?_⟩
  · rw [hworkers, List.getElem?_set_ne hcompute, hC] at hx
    cases hx
    rw [hlow, hworld]
    exact hbreaking
  · rw [hworkers, List.getElem?_set_ne hmover, hM] at hx
    cases hx
    rw [hworld]
    exact hstoring

theorem Failing.not_stuck (h : Failing topology p d k b bytes m₀ n e P s) (hfinished : s.isFinished = false) :
    ∃ position t, s.step? (World.hardware topology engine) position = some t := by
  obtain ⟨log, held⟩ := h.held
  exact held.not_stuck hfinished

theorem Failing.failure? (hs : p.Sited bytes) (h : Failing topology p d k b bytes m₀ n e P s) (hn : n < p.tiles)
    (he : e.isCancelled = false) (hfinished : s.isFinished = true) : Run.failure? s.results = some e := by
  obtain ⟨log, held⟩ := h.held
  obtain ⟨M, C, hM, hC, -⟩ := held.staged
  have hlast := held.last hs hfinished hC
  have hfailed := (h.breaking C hC).failed hn (hasArrived_iff.mpr (Or.inl (by omega)))
  have hresult := List.mem_of_getElem? (results_eq_error.mpr ⟨C, hC, hfailed⟩)
  obtain ⟨e', hfailure, hcause⟩ := Run.failure?_of_cause hresult he
  obtain ⟨i, hi⟩ := List.mem_iff_getElem?.mp (Run.mem_of_failure? hfailure)
  obtain ⟨w, hw, he'⟩ := results_eq_error.mp hi
  by_cases hcompute : i = topology.compute
  · subst hcompute
    rw [hfailure, ((h.breaking w hw).broken e' he').1]
  · rw [(h.bystanders i w hw hcompute).stopped e' he'] at hcause
    cases hcause

/-- In the end the results of the tiles before the one before tile `n` are in backing storage, those of tile `n` and
    the ones after it are not, and those of the tile before it are there as a whole or not at all. -/
theorem Failing.output (hs : p.Sited bytes) (h : Failing topology p d k b bytes m₀ n e P s)
    (hfinished : s.isFinished = true) :
    s.world.memory.Snax bytes ∧ ∀ t < p.tiles,
      (t + 1 < n → s.world.memory.Holds (p.backWord t .o).toNat (p.words d k t .o)) ∧
      (n ≤ t → s.world.memory.AgreeOn m₀ ((p.backTile t).span .o)) ∧
      (s.world.memory.Holds (p.backWord t .o).toNat (p.words d k t .o) ∨
        s.world.memory.AgreeOn m₀ ((p.backTile t).span .o)) := by
  obtain ⟨log, held⟩ := h.held
  obtain ⟨M, C, hM, -, hstaged⟩ := held.staged
  have hlast := held.last hs hfinished hM
  have hstoring := h.storing M hM
  refine ⟨hstaged.stock.snax, fun t ht => ⟨fun hlt => ?_, hstoring.untouched t ht, hstaged.stock.outputs t ht⟩⟩
  exact hstoring.secured t ht hlt (hasArrived_iff.mpr (Or.inl (by omega)))

end Pipeline

end TileOffload
