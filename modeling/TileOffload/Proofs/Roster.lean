import TileOffload.Proofs.Steps

/-! # Units and their tasks

A unit keeps its place and its role. While it works it has not failed and is at one of the tasks that its
role has in its iteration; once it has failed it is about to raise the token, or the token is raised. -/

namespace TileOffload

namespace CancelFlags

theorem size_raise (f : CancelFlags) (t : CancelToken) : (f.raise t).raised.size = f.raised.size := by
  simp [raise]

theorem isRaised_raise {f : CancelFlags} {t : CancelToken} {flag : Nat} (h : f.isRaised flag = true) :
    (f.raise t).isRaised flag = true := by
  simp only [isRaised, raise, Array.getD_eq_getD_getElem?, Array.getElem?_setIfInBounds] at h ⊢
  split
  · rename_i heq
    subst heq
    by_cases hlt : t.own < f.raised.size
    · simp [hlt]
    · simp [Array.getElem?_eq_none (Nat.le_of_not_lt hlt)] at h
  · exact h

theorem isCancelled_mono {f : CancelFlags} {t u : CancelToken} (h : f.isCancelled t = true) :
    (f.raise u).isCancelled t = true := by
  simp only [isCancelled, Bool.or_eq_true, List.any_eq_true] at h ⊢
  rcases h with h | ⟨flag, hflag, h⟩
  · exact Or.inl (isRaised_raise h)
  · exact Or.inr ⟨flag, hflag, isRaised_raise h⟩

theorem isCancelled_raise {f : CancelFlags} {t : CancelToken} (h : t.own < f.raised.size) :
    (f.raise t).isCancelled t = true := by
  simp [isCancelled, isRaised, raise, h]

theorem isRaised_push (f : CancelFlags) (flag : Nat) : isRaised ⟨f.raised.push false⟩ flag = f.isRaised flag := by
  simp only [isRaised, Array.getD_eq_getD_getElem?, Array.getElem?_push]
  split
  · rename_i h
    simp [h]
  · rfl

/-- A token made below another is raised exactly when that one is. -/
theorem isCancelled_child {f : CancelFlags} {t : CancelToken} :
    (f.child t).2.isCancelled (f.child t).1 = f.isCancelled t := by
  simp only [isCancelled, child, List.any_cons]
  rw [isRaised_push, isRaised_push, funext (isRaised_push f)]
  simp [isRaised]

end CancelFlags

namespace Topology

theorem roleOf_mover (t : Topology) : t.roleOf t.mover = .dataMover := if_pos rfl

theorem roleOf_compute (t : Topology) : t.roleOf t.compute = .compute := by
  rw [roleOf, if_neg t.mover_ne_compute.symm, if_pos rfl]

theorem mover_of_roleOf {t : Topology} {unit : Nat} (h : t.roleOf unit = .dataMover) : unit = t.mover := by
  unfold roleOf at h
  split at h
  · assumption
  · split at h <;> cases h

theorem compute_of_roleOf {t : Topology} {unit : Nat} (h : t.roleOf unit = .compute) : unit = t.compute := by
  unfold roleOf at h
  split at h
  · cases h
  · split at h
    · assumption
    · cases h

end Topology

namespace Worker

/-- The state of a unit goes with its role and with the token. -/
structure Sound (w : Worker) (plan : TilePlan) (raised : Bool) : Prop where
  queued : ∀ task rest, w.phase = .working task rest →
    ∃ done, plan.tasks w.report.role w.iteration = done ++ task :: rest
  healthy : (w.phase = .checking ∨ ∃ task rest, w.phase = .working task rest) → w.failure = none
  failed : w.phase = .raising → w.failure ≠ none
  told : w.failure ≠ none → w.phase = .raising ∨ raised = true

variable {w : Worker} {plan : TilePlan} {raised raised' : Bool}

theorem Sound.mono (h : w.Sound plan raised) (hr : raised = true → raised' = true) : w.Sound plan raised' :=
  ⟨h.queued, h.healthy, h.failed, fun hf => (h.told hf).imp_right hr⟩

theorem sound_proceed (hf : w.failure = none) {tasks : List Task}
    (ht : ∃ done, plan.tasks w.report.role w.iteration = done ++ tasks) : (w.proceed tasks).Sound plan raised := by
  cases tasks with
  | nil => exact ⟨nofun, fun _ => hf, nofun, fun hx => absurd hf hx⟩
  | cons task rest =>
    refine ⟨fun task' rest' h => ?_, fun _ => hf, nofun, fun hx => absurd hf hx⟩
    cases h
    exact ht

/-- A unit that neither works nor has something to raise. -/
theorem sound_rest (hp : w.phase = .settling ∨ w.phase = .waiting ∨ w.phase = .finished)
    (h : w.failure ≠ none → raised = true) : w.Sound plan raised := by
  refine ⟨fun task rest hx => ?_, fun hx => ?_, fun hx => ?_, fun hf => Or.inr (h hf)⟩ <;>
    rcases hp with hp | hp | hp <;> simp [hp] at hx

theorem sound_raising (hp : w.phase = .raising) (hf : w.failure ≠ none) : w.Sound plan raised := by
  refine ⟨fun task rest hx => ?_, fun hx => ?_, fun _ => hf, fun _ => Or.inl hp⟩ <;> simp [hp] at hx

theorem sound_create (unit : Nat) (role : Role) (hasTransfers hasDevice : Bool) :
    (create unit role hasTransfers hasDevice).Sound plan raised := by
  unfold create
  cases hm : missing? unit role hasTransfers hasDevice with
  | none => exact ⟨nofun, fun _ => rfl, nofun, fun hx => absurd rfl hx⟩
  | some e => exact sound_raising rfl nofun

theorem sound_checked (h : w.Sound plan raised) (hp : w.phase = .checking) :
    (w.checked plan raised).Sound plan raised := by
  unfold checked
  split
  · rename_i hr
    exact sound_rest (Or.inl rfl) fun _ => hr
  · exact sound_proceed (h.healthy (Or.inl hp)) ⟨[], rfl⟩

theorem record_kept (w : Worker) (completes : Option (Stage × Nat)) (polls : Nat) :
    (w.record completes polls).report.unit = w.report.unit ∧ (w.record completes polls).report.role = w.report.role ∧
      (w.record completes polls).iteration = w.iteration ∧ (w.record completes polls).failure = w.failure ∧
      (w.record completes polls).phase = w.phase := by
  unfold record
  split <;> exact ⟨rfl, rfl, rfl, rfl, rfl⟩

theorem sound_ended (h : w.Sound plan raised) {task : Task} {rest : List Task} (hp : w.phase = .working task rest)
    (outcome : Outcome Nat) : (w.ended task rest outcome).Sound plan raised := by
  cases outcome with
  | failed e => exact sound_raising rfl nofun
  | panicked => exact sound_raising rfl nofun
  | done polls =>
    obtain ⟨-, hrole, hiteration, hfailure, -⟩ := record_kept w task.completes polls
    obtain ⟨done, htasks⟩ := h.queued task rest hp
    refine sound_proceed (hfailure.trans (h.healthy (Or.inr ⟨task, rest, hp⟩))) ⟨done ++ [task], ?_⟩
    rw [hrole, hiteration, htasks, List.append_assoc]
    rfl

theorem sound_passed (h : w.Sound plan raised) (hp : w.phase = .waiting) : (w.passed plan).Sound plan raised := by
  have htold : w.failure ≠ none → raised = true := fun hf => (h.told hf).resolve_left fun hx => by
    rw [hp] at hx
    cases hx
  unfold passed
  split
  · exact sound_rest (Or.inr (Or.inr rfl)) htold
  · split
    · exact sound_rest (Or.inl rfl) htold
    · rename_i hf
      exact ⟨nofun, fun _ => by simpa using hf, nofun, fun hf => Or.inr (htold hf)⟩

theorem proceed_kept (w : Worker) (tasks : List Task) :
    (w.proceed tasks).report = w.report ∧ (w.proceed tasks).iteration = w.iteration ∧
      (w.proceed tasks).failure = w.failure := by
  unfold proceed
  split <;> exact ⟨rfl, rfl, rfl⟩

end Worker

namespace Pipeline

variable {σ : Type} {hardware : Hardware σ} {s t : Pipeline σ} {topology : Topology}

/-- Whether the token of the pipeline counts as raised. -/
def isRaised (s : Pipeline σ) : Bool := s.flags.isCancelled s.token

/-- The units are in their places, in the roles of the topology. -/
structure Roster (topology : Topology) (s : Pipeline σ) : Prop where
  own : s.token.own < s.flags.raised.size
  placed : ∀ (i : Nat) (w : Worker), s.workers[i]? = some w → w.report.unit = i ∧ w.report.role = topology.roleOf i
  sound : ∀ w ∈ s.workers, w.Sound s.plan s.isRaised

/-- A step changes the worker that takes it, keeps its place and role, and raises the token if it raises
    anything. -/
theorem Stepped.worker {position : Nat} {w : Worker} (hw : s.workers[position]? = some w)
    (hown : s.token.own < s.flags.raised.size) (hsound : w.Sound s.plan s.isRaised)
    (h : Stepped hardware s position w t) :
    ∃ w', t.workers = s.workers.set position w' ∧ w'.report.unit = w.report.unit ∧ w'.report.role = w.report.role ∧
      w'.Sound t.plan t.isRaised ∧ t.flags.raised.size = s.flags.raised.size ∧
      (s.isRaised = true → t.isRaised = true) := by
  have hself : s.workers = s.workers.set position w := (set_self hw).symm
  cases h with
  | checked phase =>
    refine ⟨_, rfl, ?_, ?_, Worker.sound_checked hsound phase, rfl, id⟩ <;> unfold Worker.checked <;> split
    · rfl
    · rw [(Worker.proceed_kept _ _).1]
    · rfl
    · rw [(Worker.proceed_kept _ _).1]
  | worked phase answer => exact ⟨w, hself, rfl, rfl, hsound, rfl, id⟩
  | @ended task rest outcome world phase answer =>
    refine ⟨_, rfl, ?_, ?_, Worker.sound_ended hsound phase outcome, rfl, id⟩ <;> cases outcome
    · rw [Worker.ended, (Worker.proceed_kept _ _).1, (Worker.record_kept w task.completes _).1]
    · rfl
    · rfl
    · rw [Worker.ended, (Worker.proceed_kept _ _).1, (Worker.record_kept w task.completes _).2.1]
    · rfl
    · rfl
  | raised phase =>
    have hraised : CancelFlags.isCancelled (s.flags.raise s.token) s.token = true := CancelFlags.isCancelled_raise hown
    exact ⟨{ w with phase := .settling }, rfl, rfl, rfl, Worker.sound_rest (Or.inl rfl) fun _ => hraised,
      CancelFlags.size_raise _ _, fun _ => hraised⟩
  | settled phase answer => exact ⟨w, hself, rfl, rfl, hsound, rfl, id⟩
  | arrived phase answer =>
    refine ⟨{ w with phase := .waiting }, rfl, rfl, rfl, Worker.sound_rest (Or.inr (Or.inl rfl)) fun hf => ?_, rfl, id⟩
    refine (hsound.told hf).resolve_left fun hx => ?_
    rw [phase] at hx
    cases hx
  | passed phase met => exact ⟨_, rfl, rfl, rfl, Worker.sound_passed hsound phase, rfl, id⟩

theorem Roster.move (h : Roster topology s) {m : Move} (hm : s.move? hardware m = some t) : Roster topology t := by
  have hplan := (move?_frame hm).1
  have htoken := (move?_frame hm).2.1
  cases m with
  | raise token =>
    cases hm
    exact ⟨Nat.lt_of_lt_of_eq h.own (CancelFlags.size_raise _ _).symm, h.placed,
      fun w hw => (h.sound w hw).mono CancelFlags.isCancelled_mono⟩
  | step position =>
    obtain ⟨w, hw, hstep⟩ := stepped_of_step? hm
    obtain ⟨w', hworkers, hunit, hrole, hsound, hsize, hmono⟩ :=
      hstep.worker hw h.own (h.sound w (List.mem_of_getElem? hw))
    refine ⟨by rw [htoken, hsize]; exact h.own, fun i v hv => ?_, fun v hv => ?_⟩
    · rw [hworkers, List.getElem?_set] at hv
      split at hv
      · rename_i hi
        subst hi
        split at hv
        · cases hv
          rw [hunit, hrole]
          exact h.placed position w hw
        · cases hv
      · exact h.placed i v hv
    · rw [hworkers] at hv
      rcases List.mem_or_eq_of_mem_set hv with hv | rfl
      · exact hplan ▸ (h.sound v hv).mono hmono
      · exact hsound

theorem Roster.create {plan : TilePlan} {token : CancelToken} {flags : CancelFlags} {world : σ}
    (hown : token.own < flags.raised.size) :
    Roster topology (.create plan topology (List.range topology.units) hardware token flags world) := by
  refine ⟨?_, fun i w hw => ?_, fun w hw => ?_⟩
  · simp only [Pipeline.create]
    split
    · exact Nat.lt_of_lt_of_eq hown (CancelFlags.size_raise _ _).symm
    · exact hown
  · simp only [Pipeline.create, List.getElem?_map, Option.map_eq_some_iff] at hw
    obtain ⟨u, hu, rfl⟩ := hw
    obtain ⟨-, rfl⟩ := List.getElem?_eq_some_iff.mp hu
    rw [List.getElem_range, (Worker.entered_kept _ plan).1]
    exact ⟨rfl, rfl⟩
  · simp only [Pipeline.create, List.mem_map] at hw
    obtain ⟨u, hu, rfl⟩ := hw
    unfold Worker.entered
    split
    · -- A unit that is let through at once and lacks something has raised the token.
      rename_i hzero
      refine Worker.sound_rest (Or.inr (Or.inr rfl)) fun hf => ?_
      have hany : (((List.range topology.units).map fun u =>
          (Worker.create u (topology.roleOf u) (hardware.hasTransfers u) (hardware.hasDevice u)).entered plan).any
          fun w => w.phase == .finished && w.failure.isSome) = true := by
        refine List.any_eq_true.mpr ⟨_, List.mem_map_of_mem hu, ?_⟩
        rw [(Worker.entered_kept _ plan).2.2, Worker.entered, if_pos hzero, Option.isSome_iff_ne_none.mpr hf]
        rfl
      simp only [Pipeline.isRaised, Pipeline.create, hany, if_true]
      exact CancelFlags.isCancelled_raise hown
    · exact Worker.sound_create _ _ _ _

end Pipeline

end TileOffload
