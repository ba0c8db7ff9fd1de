import TileOffload.Proofs.Steps

/-! # Lockstep

The units of a pipeline meet at a barrier after every iteration, whatever becomes of their work. Main
statement: each comes to exactly as many barriers as the plan has iterations, no two are further apart than
one barrier, and there is always a unit that can go on until all are through. -/

namespace TileOffload

namespace Pipeline

variable {σ : Type} {hardware : Hardware σ} {s t : Pipeline σ}

/-- The position of the unit that comes to the barrier with a move. -/
def arrival (hardware : Hardware σ) (s : Pipeline σ) : Move → Option Nat
  | .raise _ => none
  | .step position =>
    match s.workers[position]? with
    | none => none
    | some w =>
      if w.phase = .settling ∧ (hardware.settle w.report.unit s.world).1 = true then some position else none

/-- A unit is neither at a barrier nor through. -/
def Busy (w : Worker) : Prop := w.phase ≠ .waiting ∧ w.phase ≠ .finished

/-- The barriers a unit has come to. -/
def calls (w : Worker) : Nat := w.iteration + if w.phase = .waiting then 1 else 0

/-- How a step of the worker `w` moves it with respect to the barriers. -/
inductive Progress (s : Pipeline σ) (w : Worker) : Worker → Prop
  | work {w' : Worker} (iteration : w'.iteration = w.iteration) (barriers : w'.report.barriers = w.report.barriers)
      (busy : Busy w) (busy' : Busy w') : Progress s w w'
  | arrive (phase : w.phase = .settling) : Progress s w { w with phase := .waiting }
  | pass (phase : w.phase = .waiting) (met : ∀ v ∈ s.workers, v.hasArrived w.iteration = true) :
    Progress s w (w.passed s.plan)

theorem busy_proceed (w : Worker) (tasks : List Task) : Busy (w.proceed tasks) := by
  cases tasks <;> exact ⟨nofun, nofun⟩

theorem checked_progress {w : Worker} (raised : Bool) (h : w.phase = .checking) :
    Progress s w (w.checked s.plan raised) := by
  have hb : Busy w := by simp [Busy, h]
  unfold Worker.checked
  split
  · exact .work rfl rfl hb ⟨nofun, nofun⟩
  · refine .work ?_ ?_ hb (busy_proceed _ _) <;> unfold Worker.proceed <;> split <;> rfl

theorem ended_progress {w : Worker} {task : Task} {rest : List Task} (outcome : Outcome Nat)
    (h : w.phase = .working task rest) : Progress s w (w.ended task rest outcome) := by
  have hb : Busy w := by simp [Busy, h]
  cases outcome with
  | done polls =>
    refine .work ?_ ?_ hb (busy_proceed _ _) <;> simp only [Worker.ended, Worker.proceed, Worker.record] <;>
      split <;> split <;> rfl
  | failed e => exact .work rfl rfl hb ⟨nofun, nofun⟩
  | panicked => exact .work rfl rfl hb ⟨nofun, nofun⟩

/-- Every step moves one worker, and it is noted exactly when the unit comes to a barrier with it. -/
theorem Stepped.progress {position : Nat} {w : Worker} (hw : s.workers[position]? = some w)
    (h : Stepped hardware s position w t) :
    t.plan = s.plan ∧ ∃ w', Progress s w w' ∧ t.workers = s.workers.set position w' ∧
      arrival hardware s (.step position) =
        if w.phase = .settling ∧ w'.phase = .waiting then some position else none := by
  cases h with
  | checked phase =>
    exact ⟨rfl, _, checked_progress _ phase, rfl, by simp [arrival, hw, phase]⟩
  | worked phase answer =>
    exact ⟨rfl, w, .work rfl rfl (by simp [Busy, phase]) (by simp [Busy, phase]), (set_self hw).symm,
      by simp [arrival, hw, phase]⟩
  | ended phase answer =>
    exact ⟨rfl, _, ended_progress _ phase, rfl, by simp [arrival, hw, phase]⟩
  | raised phase =>
    exact ⟨rfl, { w with phase := .settling }, .work rfl rfl (by simp [Busy, phase]) ⟨nofun, nofun⟩, rfl,
      by simp [arrival, hw, phase]⟩
  | settled phase answer =>
    exact ⟨rfl, w, .work rfl rfl (by simp [Busy, phase]) (by simp [Busy, phase]), (set_self hw).symm,
      by simp [arrival, hw, phase, answer]⟩
  | arrived phase answer =>
    exact ⟨rfl, _, .arrive phase, rfl, by simp [arrival, hw, phase, answer]⟩
  | passed phase met =>
    exact ⟨rfl, _, .pass phase met, rfl, by simp [arrival, hw, phase]⟩

/-- The units keep step: whoever has left a barrier leaves behind only units that have come to it, and the
    barriers noted in `log` are those that each unit has come to. -/
structure Lockstep (s : Pipeline σ) (log : List Nat) : Prop where
  met : ∀ v ∈ s.workers, ∀ w ∈ s.workers, ∀ i < v.iteration, w.hasArrived i = true
  barriers : ∀ w ∈ s.workers, w.report.barriers = w.iteration
  bounded : ∀ w ∈ s.workers, w.iteration ≤ s.plan.iterations
  finished : ∀ w ∈ s.workers, w.phase = .finished ↔ w.iteration = s.plan.iterations
  noted : ∀ i w, s.workers[i]? = some w → log.count i = calls w

theorem hasArrived_iff {w : Worker} {i : Nat} :
    w.hasArrived i = true ↔ i < w.iteration ∨ w.iteration = i ∧ w.phase = .waiting := by
  simp [Worker.hasArrived]

theorem iteration_passed (w : Worker) (plan : TilePlan) : (w.passed plan).iteration = w.iteration + 1 := rfl

theorem barriers_passed (w : Worker) (plan : TilePlan) :
    (w.passed plan).report.barriers = w.report.barriers + 1 := rfl

theorem phase_passed {w : Worker} {plan : TilePlan} :
    (w.passed plan).phase ≠ .waiting ∧ ((w.passed plan).phase = .finished ↔ plan.iterations ≤ w.iteration + 1) := by
  unfold Worker.passed
  by_cases h : plan.iterations ≤ w.iteration + 1
  · simp [h]
  · simp only [h, if_false, iff_false]
    split <;> exact ⟨nofun, nofun⟩

theorem Progress.hasArrived {w w' : Worker} (h : Progress s w w') {i : Nat} (hi : w.hasArrived i = true) :
    w'.hasArrived i = true := by
  rw [hasArrived_iff] at hi ⊢
  cases h with
  | work iteration barriers busy busy' =>
    rcases hi with hi | ⟨-, hi⟩
    · exact Or.inl (iteration ▸ hi)
    · exact absurd hi busy.1
  | arrive phase =>
    rcases hi with hi | ⟨hi, -⟩
    · exact Or.inl hi
    · exact Or.inr ⟨hi, rfl⟩
  | pass phase met =>
    rw [iteration_passed]
    omega

theorem Progress.met {w w' : Worker} (h : Progress s w w')
    (hm : ∀ v ∈ s.workers, ∀ i < w.iteration, v.hasArrived i = true) {i : Nat} (hi : i < w'.iteration) :
    ∀ v ∈ s.workers, v.hasArrived i = true := by
  intro v hv
  cases h with
  | work iteration barriers busy busy' => exact hm v hv i (iteration ▸ hi)
  | arrive phase => exact hm v hv i hi
  | pass phase met =>
    rw [iteration_passed] at hi
    rcases Nat.lt_succ_iff_lt_or_eq.mp hi with hi | rfl
    · exact hm v hv i hi
    · exact met v hv

theorem Lockstep.step {log : List Nat} (h : Lockstep s log) {position : Nat} {w w' : Worker}
    (hw : s.workers[position]? = some w) (hp : Progress s w w') (hplan : t.plan = s.plan)
    (hworkers : t.workers = s.workers.set position w') :
    Lockstep t (log ++ (if w.phase = .settling ∧ w'.phase = .waiting then some position else none).toList) := by
  have hmem := List.mem_of_getElem? hw
  have split_mem : ∀ {v}, v ∈ t.workers → v ∈ s.workers ∨ v = w' := fun {v} hv =>
    List.mem_or_eq_of_mem_set (hworkers ▸ hv)
  have hkeep : w'.report.barriers = w'.iteration ∧ w'.iteration ≤ s.plan.iterations ∧
      (w'.phase = .finished ↔ w'.iteration = s.plan.iterations) := by
    have hb := h.barriers w hmem
    have hle := h.bounded w hmem
    have hf := h.finished w hmem
    cases hp with
    | work iteration barriers busy busy' =>
      refine ⟨by omega, by omega, ?_⟩
      rw [iteration, ← hf]
      exact ⟨fun hx => absurd hx busy'.2, fun hx => absurd hx busy.2⟩
    | arrive phase =>
      refine ⟨hb, hle, ?_⟩
      simp only [phase, reduceCtorEq, false_iff] at hf ⊢
      exact hf
    | pass phase met =>
      simp only [phase, reduceCtorEq, false_iff] at hf
      rw [barriers_passed, iteration_passed, phase_passed.2]
      exact ⟨by omega, by omega, by omega⟩
  refine ⟨?_, ?_, ?_, ?_, ?_⟩
  · intro v hv u hu i hi
    -- Before the step all units had come to barrier `i`, and nobody goes back.
    have hbefore : ∀ x ∈ s.workers, x.hasArrived i = true := by
      rcases split_mem hv with hv | rfl
      · exact fun x hx => h.met v hv x hx i hi
      · exact hp.met (fun x hx => h.met w hmem x hx) hi
    rcases split_mem hu with hu | rfl
    · exact hbefore u hu
    · exact hp.hasArrived (hbefore w hmem)
  · intro v hv
    rcases split_mem hv with hv | rfl
    · exact h.barriers v hv
    · exact hkeep.1
  · intro v hv
    rw [hplan]
    rcases split_mem hv with hv | rfl
    · exact h.bounded v hv
    · exact hkeep.2.1
  · intro v hv
    rw [hplan]
    rcases split_mem hv with hv | rfl
    · exact h.finished v hv
    · exact hkeep.2.2
  · intro i v hv
    rw [hworkers, List.getElem?_set] at hv
    rw [List.count_append]
    by_cases hi : position = i
    · subst hi
      rw [if_pos rfl] at hv
      have hlt : position < s.workers.length := (List.getElem?_eq_some_iff.mp hw).1
      rw [if_pos hlt] at hv
      cases hv
      rw [h.noted position w hw]
      cases hp with
      | work iteration barriers busy busy' => simp [calls, iteration, busy.1, busy'.1]
      | arrive phase => simp [calls, phase]
      | pass phase met => simp [calls, phase, phase_passed.1, iteration_passed]
    · rw [if_neg hi] at hv
      rw [h.noted i v hv]
      split <;> simp [hi]

theorem Lockstep.move {log : List Nat} (h : Lockstep s log) (m : Move) (hm : s.move? hardware m = some t) :
    Lockstep t (log ++ (arrival hardware s m).toList) := by
  cases m with
  | raise token =>
    cases hm
    rw [arrival, Option.toList_none, List.append_nil]
    exact ⟨h.met, h.barriers, h.bounded, h.finished, h.noted⟩
  | step position =>
    obtain ⟨w, hw, hstep⟩ := stepped_of_step? hm
    obtain ⟨hplan, w', hp, hworkers, hnote⟩ := hstep.progress hw
    rw [hnote]
    exact h.step hw hp hplan hworkers

theorem Lockstep.create (plan : TilePlan) (topology : Topology) (units : List Nat) (hardware : Hardware σ)
    (token : CancelToken) (flags : CancelFlags) (world : σ) :
    Lockstep (.create plan topology units hardware token flags world) [] := by
  have fresh : ∀ w ∈ (Pipeline.create plan topology units hardware token flags world).workers,
      w.iteration = 0 ∧ w.report.barriers = 0 ∧ w.phase ≠ .waiting ∧ (w.phase = .finished ↔ plan.iterations = 0) := by
    intro w hw
    simp only [Pipeline.create, List.mem_map] at hw
    obtain ⟨u, -, rfl⟩ := hw
    obtain ⟨hreport, hiteration, -⟩ := Worker.entered_kept
      (.create u (topology.roleOf u) (hardware.hasTransfers u) (hardware.hasDevice u)) plan
    rw [hreport, hiteration]
    refine ⟨rfl, rfl, ?_⟩
    unfold Worker.entered
    split
    · rename_i hzero
      exact ⟨by simp, fun _ => hzero, fun _ => rfl⟩
    · rename_i hzero
      rcases Worker.phase_create u (topology.roleOf u) (hardware.hasTransfers u) (hardware.hasDevice u) with hp | hp <;>
        simp [hp, hzero]
  refine ⟨fun v hv _ _ i hi => ?_, fun w hw => ?_, fun w hw => ?_, fun w hw => ?_, fun i w hw => ?_⟩
  · have := (fresh v hv).1
    omega
  · rw [(fresh w hw).1, (fresh w hw).2.1]
  · rw [(fresh w hw).1]
    exact Nat.zero_le _
  · rw [(fresh w hw).1, (fresh w hw).2.2.2]
    exact eq_comm
  · have hf := fresh w (List.mem_of_getElem? hw)
    simp [calls, hf.1, hf.2.2.1]

theorem Lockstep.lt_iterations {visits : List Nat} (h : Lockstep s visits) {position : Nat} {w : Worker}
    (hw : s.workers[position]? = some w) (hp : w.phase = .waiting) : w.iteration < s.plan.iterations := by
  have hmem := List.mem_of_getElem? hw
  have hne : w.iteration ≠ s.plan.iterations := by
    intro hx
    have hfinished := (h.finished w hmem).mpr hx
    rw [hp] at hfinished
    cases hfinished
  have := h.bounded w hmem
  omega

/-- As long as a unit is not through, some unit can take a step: one that does not wait, or else one that
    has come to no more barriers than any other. -/
theorem Lockstep.not_stuck {log : List Nat} (h : Lockstep s log) (hn : s.isFinished = false) :
    ∃ position t, s.step? hardware position = some t := by
  suffices wait : ∀ (n position : Nat) (w : Worker), s.workers[position]? = some w → w.iteration = n →
      w.phase ≠ .finished → ∃ position t, s.step? hardware position = some t by
    simp only [isFinished, List.all_eq_false, Worker.isFinished, beq_iff_eq] at hn
    obtain ⟨w, hw, hphase⟩ := hn
    obtain ⟨position, hposition⟩ := List.mem_iff_getElem?.mp hw
    exact wait w.iteration position w hposition rfl hphase
  intro n
  -- On the iteration of a unit that is not through: who waits does so for a unit of an earlier iteration, or for one
  -- that can go on.
  induction n using Nat.strongRecOn with
  | _ n ih =>
    intro position w hw hn hf
    by_cases hmet : ∀ v ∈ s.workers, v.hasArrived w.iteration = true
    · exact ⟨position, step?_isSome hw hf fun _ => hmet⟩
    by_cases hwait : w.phase = .waiting
    · -- Someone is missing at the barrier of `w`; that unit is an iteration behind, or does not wait.
      simp only [Classical.not_forall] at hmet
      obtain ⟨v, hv, hmissing⟩ := hmet
      obtain ⟨q, hq⟩ := List.mem_iff_getElem?.mp hv
      rw [hasArrived_iff, not_or] at hmissing
      have hfin : v.phase ≠ .finished := by
        intro hx
        have hbound := h.bounded w (List.mem_of_getElem? hw)
        have hlast := (h.finished v hv).mp hx
        exact hf ((h.finished w (List.mem_of_getElem? hw)).mpr (by omega))
      rcases Nat.lt_or_ge v.iteration w.iteration with hlt | hge
      · exact ih v.iteration (by omega) q v hq rfl hfin
      · exact ⟨q, step?_isSome hq hfin fun hx => absurd ⟨by omega, hx⟩ hmissing.2⟩
    · exact ⟨position, step?_isSome hw hf fun hx => absurd hx hwait⟩

theorem reached_lockstep {plan : TilePlan} {topology : Topology} {units : List Nat} {token : CancelToken}
    {flags : CancelFlags} {world : σ} {log : List Nat}
    (h : Reached hardware (arrival hardware) (.create plan topology units hardware token flags world) s log) :
    Lockstep s log :=
  h.invariant (Lockstep.create plan topology units hardware token flags world) fun m hl hm => hl.move m hm

/-- Whatever the hardware answers and whoever raises a token, in whichever order the units go on: no unit
    comes to more barriers than the plan has iterations, and one that is through has come to, and passed, as
    many; two units are never further apart than one barrier; and while a unit is not through, some unit can
    go on. -/
theorem lockstep_no_deadlock (plan : TilePlan) (topology : Topology) (hardware : Hardware σ) (token : CancelToken)
    (flags : CancelFlags) (world : σ) (moves : List Move)
    (h : follow? hardware moves
      (.create plan topology (List.range topology.units) hardware token flags world) = some s) :
    (∀ unit w, s.workers[unit]? = some w →
      (history hardware (arrival hardware) moves
        (.create plan topology (List.range topology.units) hardware token flags world)).count unit ≤ plan.iterations ∧
      (w.isFinished = true →
        (history hardware (arrival hardware) moves
          (.create plan topology (List.range topology.units) hardware token flags world)).count unit = plan.iterations ∧
        w.report.barriers = plan.iterations)) ∧
    (∀ v ∈ s.workers, ∀ w ∈ s.workers, v.report.barriers ≤ w.report.barriers + 1) ∧
    (s.isFinished = false → ∃ unit t, s.step? hardware unit = some t) := by
  have hreached := reached_of_follow? (arrival hardware) h
  have hl := reached_lockstep hreached
  have hplan : s.plan = plan := hreached.frame.1
  refine ⟨fun unit w hw => ?_, fun v hv w hw => ?_, hl.not_stuck⟩
  · have hmem := List.mem_of_getElem? hw
    have hle := hl.bounded w hmem
    have hfin := hl.finished w hmem
    rw [hl.noted unit w hw, calls, hl.barriers w hmem]
    rw [hplan] at hle hfin
    refine ⟨?_, fun hf => ?_⟩
    · split
      · rename_i hwait
        rw [hwait] at hfin
        simp only [reduceCtorEq, false_iff] at hfin
        omega
      · omega
    · simp only [Worker.isFinished, beq_iff_eq] at hf
      simp [hf, hfin.mp hf]
  · rw [hl.barriers v hv, hl.barriers w hw]
    rcases Nat.eq_zero_or_pos v.iteration with h0 | hpos
    · omega
    · have := hasArrived_iff.mp (hl.met v hv w hw (v.iteration - 1) (by omega))
      omega

/-- Hardware that panics at every transfer and computes every tile in one poll. -/
def panicking : Hardware Unit where
  hasTransfers _ := true
  hasDevice _ := true
  transfer _ _ _ := (some .panicked, ())
  compute _ _ _ := (some (.done 1), ())
  settle _ _ := (true, ())

/-- Two units with that hardware before their first step; unit 1 is the mover. -/
def panickingStart (plan : TilePlan) : Pipeline Unit :=
  .create plan ⟨2, 1, 0, Nat.one_lt_two, Nat.zero_lt_two, Nat.one_ne_zero⟩ (List.range 2) panicking ⟨0, []⟩ ⟨#[false]⟩ ()

/-- The moves of both units, one after another, until both are through. -/
def panickingMoves : List Move :=
  [0, 0, 1, 1, 1, 1, 1, 1, 0, 0, 0, 0, 0, 1, 1, 1, 1, 0, 0, 0, 1].map .step

/-- A mover that panics at its first transfer is seen by the other unit one iteration later, and both still
    come to all four barriers. -/
theorem panicking_mover_keeps_step :
    ∃ (plan : TilePlan) (s : Pipeline Unit),
      TilePlan.make 8 (.tiled 4) .tcdm ⟨Chip.backingBase, Chip.backingBase + 32, Chip.backingBase + 64⟩ = .ok plan ∧
      plan.iterations = 4 ∧ follow? panicking panickingMoves (panickingStart plan) = some s ∧
      s.results = [.error (.cancelled 1), .error (.deviceFault (.panicked 1 0))] ∧
      ∀ (unit : Nat) (w : Worker), s.workers[unit]? = some w → w.report.barriers = plan.iterations := by
  have barriers : ∀ {plan : TilePlan} {s : Pipeline Unit},
      follow? panicking panickingMoves (panickingStart plan) = some s → s.isFinished = true →
      ∀ (unit : Nat) (w : Worker), s.workers[unit]? = some w → w.report.barriers = plan.iterations := by
    intro plan s hrun hfinished unit w hw
    have hlockstep := lockstep_no_deadlock plan _ panicking _ _ _ panickingMoves hrun
    exact ((hlockstep.1 unit w hw).2 (List.all_eq_true.mp hfinished w (List.mem_of_getElem? hw))).2
  exact ⟨_, _, rfl, rfl, rfl, rfl, barriers rfl rfl⟩

end Pipeline

end TileOffload
