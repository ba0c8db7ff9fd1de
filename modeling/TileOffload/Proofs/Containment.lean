import TileOffload.Proofs.Causes
import TileOffload.Proofs.Setup

/-! # Containment of failures

Units that fail stop the others through the token of their run, so a unit may fail because it was stopped. Main
statement: at any moment of a run, no token but the run's own has been raised except from outside, and if that one is
raised, some unit has failed for a cause of its own, or the token above it is raised. -/

namespace TileOffload

namespace CancelFlags

variable {f : CancelFlags} {t u : CancelToken} {flag : Nat}

/-- The flags that raise a token are there. -/
def Knows (f : CancelFlags) (t : CancelToken) : Prop := ∀ flag ∈ t.own :: t.above, flag < f.raised.size

theorem isCancelled_iff : f.isCancelled t = true ↔ ∃ flag ∈ t.own :: t.above, f.isRaised flag = true := by
  simp [isCancelled]

theorem isRaised_of_raise (h : (f.raise u).isRaised flag = true) : f.isRaised flag = true ∨ u.own = flag := by
  simp only [isRaised, raise, Array.getD_eq_getD_getElem?, Array.getElem?_setIfInBounds] at h ⊢
  split at h
  · exact Or.inr ‹_›
  · exact Or.inl h

theorem isRaised_child (f : CancelFlags) (t : CancelToken) (flag : Nat) :
    (f.child t).2.isRaised flag = f.isRaised flag := isRaised_push f flag

end CancelFlags

/-- The worker has failed, and not because it was stopped. -/
def Worker.HasCause (w : Worker) : Prop := ∃ e, w.failure = some e ∧ e.isCancelled = false

/-- Hardware that never answers that a unit was stopped. -/
structure Hardware.Genuine {σ : Type} (hardware : Hardware σ) : Prop where
  transfer : ∀ {unit t world world' e}, hardware.transfer unit t world = (some (.failed e), world') →
    e.isCancelled = false
  compute : ∀ {unit tile world world' e}, hardware.compute unit tile world = (some (.failed e), world') →
    e.isCancelled = false

theorem Hardware.Genuine.attempt {σ : Type} {hardware : Hardware σ} (h : hardware.Genuine) {unit : Nat} {job : Job}
    {world : σ} {e : Error} (hjob : ∀ e, job = .refuse e → e.isCancelled = false)
    (ha : (hardware.attempt unit job world).1 = some (.failed e)) : e.isCancelled = false := by
  cases job with
  | refuse e' =>
    cases ha
    exact hjob e rfl
  | compute tile => exact h.compute (Prod.ext ha rfl)
  | transfer t =>
    unfold Hardware.attempt at ha
    dsimp only at ha
    split at ha <;> cases ha
    exact h.transfer ‹_›

theorem World.hardware_genuine {engine : Engine} (hk : engine.kernel.Genuine) (topology : Topology) :
    (World.hardware topology engine).Genuine :=
  ⟨World.transfer_genuine, World.compute_genuine hk⟩

namespace Pipeline

variable {σ : Type} {hardware : Hardware σ} {s t : Pipeline σ} {topology : Topology} {position : Nat} {w w' : Worker}
  {token : CancelToken} {before : CancelFlags}

/-- The error with which the work of the unit at a position ends in its next step. -/
def ownFailure? (hardware : Hardware σ) (s : Pipeline σ) (position : Nat) : Option Error :=
  match s.workers[position]? with
  | none => none
  | some w =>
    match w.phase with
    | .working task _ =>
      match (hardware.attempt w.report.unit task.job s.world).1 with
      | some (.failed e) => some e
      | some .panicked => some (.deviceFault (.panicked w.report.unit w.iteration))
      | _ => none
    | _ => none

/-- What a move may do that makes a run fail. -/
inductive Trouble
  | raised (token : CancelToken)
  | failed (position : Nat) (e : Error)

/-- The trouble that a move makes. -/
def trouble? (hardware : Hardware σ) (s : Pipeline σ) : Move → Option Trouble
  | .raise token => some (.raised token)
  | .step position => (s.ownFailure? hardware position).map (.failed position)

/-- What becomes of a worker and of the flags in a step. -/
inductive Turned (hardware : Hardware σ) (s : Pipeline σ) (position : Nat) (w w' : Worker) : CancelFlags → Prop
  | goesOn (failure : w'.failure = w.failure) (phase : w'.phase ≠ .raising) : Turned hardware s position w w' s.flags
  | stopped (healthy : w.failure = none) (raised : s.isRaised = true)
      (failure : w'.failure = some (.cancelled w.iteration)) (phase : w'.phase ≠ .raising) :
      Turned hardware s position w w' s.flags
  | failed {e : Error} (healthy : w.failure = none) (own : s.ownFailure? hardware position = some e)
      (failure : w'.failure = some e) : Turned hardware s position w w' s.flags
  | raised (wasRaising : w.phase = .raising) (failure : w'.failure = w.failure) (phase : w'.phase ≠ .raising) :
      Turned hardware s position w w' (s.flags.raise s.token)

theorem Stepped.turned (hw : s.workers[position]? = some w) (hsound : w.Sound s.plan s.isRaised)
    (h : Stepped hardware s position w t) :
    ∃ w', t.workers = s.workers.set position w' ∧ Turned hardware s position w w' t.flags := by
  have hproceed : ∀ (v : Worker) (tasks : List Task), (v.proceed tasks).phase ≠ .raising := by
    intro v tasks
    cases tasks <;> exact nofun
  cases h with
  | checked phase =>
    refine ⟨_, rfl, ?_⟩
    have hhealthy := hsound.healthy (Or.inl phase)
    unfold Worker.checked
    split
    · exact .stopped hhealthy ‹_› rfl nofun
    · exact .goesOn (Worker.proceed_kept _ _).2.2 (hproceed _ _)
  | worked phase answer => exact ⟨w, (set_self hw).symm, .goesOn rfl fun hx => by rw [phase] at hx; cases hx⟩
  | @ended task rest outcome world phase answer =>
    have hhealthy := hsound.healthy (Or.inr ⟨task, rest, phase⟩)
    refine ⟨_, rfl, ?_⟩
    cases outcome with
    | done polls =>
      refine .goesOn ((Worker.proceed_kept _ _).2.2.trans (Worker.record_kept w task.completes polls).2.2.2.1) ?_
      exact hproceed _ _
    | failed e => exact .failed (e := e) hhealthy (by simp only [ownFailure?, hw, phase, answer]) rfl
    | panicked =>
      exact .failed (e := .deviceFault (.panicked w.report.unit w.iteration)) hhealthy
        (by simp only [ownFailure?, hw, phase, answer]) rfl
  | raised phase => exact ⟨_, rfl, .raised phase rfl nofun⟩
  | settled phase answer => exact ⟨w, (set_self hw).symm, .goesOn rfl fun hx => by rw [phase] at hx; cases hx⟩
  | arrived phase answer => exact ⟨_, rfl, .goesOn rfl nofun⟩
  | passed phase met =>
    refine ⟨_, rfl, .goesOn rfl ?_⟩
    unfold Worker.passed
    dsimp only
    split
    · exact nofun
    · split <;> exact nofun

variable {flags : CancelFlags}

theorem Turned.isRaised (h : Turned hardware s position w w' flags) {flag : Nat} (hflag : flags.isRaised flag = true) :
    s.flags.isRaised flag = true ∨ flag = s.token.own ∧ w.phase = .raising := by
  cases h with
  | goesOn | stopped | failed => exact Or.inl hflag
  | raised wasRaising => exact (CancelFlags.isRaised_of_raise hflag).imp_right fun hown => ⟨hown.symm, wasRaising⟩

theorem Turned.hasCause (h : Turned hardware s position w w' flags) : w.HasCause → w'.HasCause := by
  rintro ⟨e, he, hc⟩
  cases h with
  | goesOn failure | raised _ failure => exact ⟨e, failure.trans he, hc⟩
  | stopped healthy | failed healthy =>
    rw [healthy] at he
    cases he

/-- What keeps the failures of a run its own, as long as nobody outside raises the run's own token. -/
structure Contained (before : CancelFlags) (token : CancelToken) (s : Pipeline σ) (log : List Trouble) : Prop where
  token_eq : s.token = ⟨before.raised.size, token.own :: token.above⟩
  outside : ∀ flag, flag ≠ before.raised.size → s.flags.isRaised flag = true →
    before.isRaised flag = true ∨ ∃ u, .raised u ∈ log ∧ u.own = flag
  cause : s.flags.isRaised before.raised.size = true → ∃ w ∈ s.workers, w.HasCause
  raising : ∀ w ∈ s.workers, w.phase = .raising → w.HasCause
  stopped : ∀ w ∈ s.workers, ∀ e, w.failure = some e → e.isCancelled = true → s.isRaised = true
  produced : ∀ i w e, s.workers[i]? = some w → w.failure = some e → e.isCancelled = false → .failed i e ∈ log

variable {log : List Trouble}

theorem Contained.raise (h : Contained before token s log) {u : CancelToken} (hu : u.own ≠ before.raised.size) :
    Contained before token { s with flags := s.flags.raise u } (log ++ [.raised u]) where
  token_eq := h.token_eq
  outside := by
    intro flag hflag hraised
    rcases CancelFlags.isRaised_of_raise hraised with hraised | hown
    · rcases h.outside flag hflag hraised with hbefore | ⟨v, hv, hown⟩
      · exact Or.inl hbefore
      · exact Or.inr ⟨v, List.mem_append_left _ hv, hown⟩
    · exact Or.inr ⟨u, List.mem_append_right _ (List.mem_singleton_self _), hown⟩
  cause := fun hraised => h.cause ((CancelFlags.isRaised_of_raise hraised).resolve_right hu)
  raising := h.raising
  stopped := fun w hw e he hc => CancelFlags.isCancelled_mono (h.stopped w hw e he hc)
  produced := fun i w e hw he hc => List.mem_append_left _ (h.produced i w e hw he hc)

theorem hasCause_set (hw : s.workers[position]? = some w) (hturn : w.HasCause → w'.HasCause)
    (h : ∃ v ∈ s.workers, v.HasCause) : ∃ v ∈ s.workers.set position w', v.HasCause := by
  have hlt := (List.getElem?_eq_some_iff.mp hw).1
  obtain ⟨v, hv, hcause⟩ := h
  obtain ⟨i, hi⟩ := List.mem_iff_getElem?.mp hv
  by_cases heq : position = i
  · subst heq
    obtain rfl := Option.some.inj (hw.symm.trans hi)
    exact ⟨w', List.mem_set hlt w', hturn hcause⟩
  · exact ⟨v, List.mem_iff_getElem?.mpr ⟨i, by rw [List.getElem?_set_ne heq]; exact hi⟩, hcause⟩

theorem Contained.step (h : Contained before token s log) (hw : s.workers[position]? = some w)
    (hgenuine : ∀ e, s.ownFailure? hardware position = some e → e.isCancelled = false) (htoken : t.token = s.token)
    (hmono : s.isRaised = true → t.isRaised = true) (hworkers : t.workers = s.workers.set position w')
    (hflags : t.flags = flags) (hturned : Turned hardware s position w w' flags) :
    Contained before token t (log ++ ((s.ownFailure? hardware position).map (.failed position)).toList) := by
  have hmem := List.mem_of_getElem? hw
  have hraisedBy : ∀ {flag}, t.flags.isRaised flag = true →
      s.flags.isRaised flag = true ∨ flag = before.raised.size ∧ w.phase = .raising := by
    intro flag hflag
    rw [hflags] at hflag
    refine (hturned.isRaised hflag).imp_right (And.imp_left fun hown => ?_)
    rw [hown, h.token_eq]
  constructor
  case token_eq => exact htoken.trans h.token_eq
  case outside =>
    intro flag hflag hraised
    rcases hraisedBy hraised with hraised | ⟨heq, -⟩
    · rcases h.outside flag hflag hraised with hbefore | ⟨u, hu, hown⟩
      · exact Or.inl hbefore
      · exact Or.inr ⟨u, List.mem_append_left _ hu, hown⟩
    · exact absurd heq hflag
  case cause =>
    intro hraised
    rw [hworkers]
    refine hasCause_set hw hturned.hasCause ?_
    rcases hraisedBy hraised with hraised | ⟨-, hphase⟩
    · exact h.cause hraised
    · exact ⟨w, hmem, h.raising w hmem hphase⟩
  case raising =>
    intro v hv hphase
    rw [hworkers] at hv
    rcases List.mem_or_eq_of_mem_set hv with hv | rfl
    · exact h.raising v hv hphase
    · cases hturned with
      | goesOn _ phase | stopped _ _ _ phase | raised _ _ phase => exact absurd hphase phase
      | failed healthy own failure => exact ⟨_, failure, hgenuine _ own⟩
  case stopped =>
    intro v hv e he hc
    rw [hworkers] at hv
    rcases List.mem_or_eq_of_mem_set hv with hv | rfl
    · exact hmono (h.stopped v hv e he hc)
    · cases hturned with
      | goesOn failure | raised _ failure => exact hmono (h.stopped w hmem e (failure.symm.trans he) hc)
      | stopped _ raised => exact hmono raised
      | failed healthy own failure =>
        obtain rfl := Option.some.inj (failure.symm.trans he)
        rw [hgenuine _ own] at hc
        cases hc
  case produced =>
    intro i v e hv he hc
    by_cases heq : position = i
    · subst heq
      have hset := List.getElem?_set_self (a := w') (List.getElem?_eq_some_iff.mp hw).1
      rw [← hworkers, hv] at hset
      cases hset
      cases hturned with
      | goesOn failure | raised _ failure =>
        exact List.mem_append_left _ (h.produced _ w e hw (failure.symm.trans he) hc)
      | stopped _ _ failure =>
        obtain rfl := Option.some.inj (failure.symm.trans he)
        cases hc
      | failed healthy own failure =>
        obtain rfl := Option.some.inj (failure.symm.trans he)
        exact List.mem_append_right _ (by rw [own]; exact List.mem_singleton_self _)
    · rw [hworkers, List.getElem?_set_ne heq] at hv
      exact List.mem_append_left _ (h.produced i v e hv he hc)

theorem ownFailure_genuine (hhardware : hardware.Genuine) (hroster : Roster topology s) {e : Error}
    (h : s.ownFailure? hardware position = some e) : e.isCancelled = false := by
  unfold ownFailure? at h
  split at h
  · cases h
  · rename_i w hw
    split at h
    · rename_i task rest phase
      split at h
      · rename_i e' hanswer
        cases h
        obtain ⟨done, htasks⟩ := (hroster.sound w (List.mem_of_getElem? hw)).queued task rest phase
        have htask : task ∈ s.plan.tasks w.report.role w.iteration := by
          rw [htasks]
          exact List.mem_append_right _ List.mem_cons_self
        exact hhardware.attempt (fun e he => refusal_genuine htask he) hanswer
      · cases h
        rfl
      · cases h
    · cases h

/-- Failures stay contained as long as nobody outside raises the run's own token. -/
theorem contained_of_reached (hhardware : hardware.Genuine) {s₀ : Pipeline σ} (hroster : Roster topology s₀)
    (hstart : Contained before token s₀ []) (h : Reached hardware (trouble? hardware) s₀ s log)
    (houtside : ∀ u, .raised u ∈ log → u.own ≠ before.raised.size) : Contained before token s log := by
  -- The roster is carried along: it tells that a worker is sound before it takes its step.
  have hboth : Roster topology s ∧
      ((∀ u, .raised u ∈ log → u.own ≠ before.raised.size) → Contained before token s log) := by
    refine h.invariant (P := fun s log => Roster topology s ∧
      ((∀ u, .raised u ∈ log → u.own ≠ before.raised.size) → Contained before token s log))
      ⟨hroster, fun _ => hstart⟩ fun {s t log} m hs hm => ⟨hs.1.move hm, fun hout => ?_⟩
    have hcontained := hs.2 fun u hu => hout u (List.mem_append_left _ hu)
    cases m with
    | raise u =>
      cases hm
      exact hcontained.raise (hout u (List.mem_append_right _ (List.mem_singleton_self _)))
    | step position =>
      obtain ⟨w, hw, hstep⟩ := stepped_of_step? hm
      have hsound := hs.1.sound w (List.mem_of_getElem? hw)
      obtain ⟨-, -, -, -, -, -, hmono⟩ := hstep.worker hw hs.1.own hsound
      obtain ⟨w', hworkers, hturned⟩ := hstep.turned hw hsound
      exact hcontained.step hw (fun e he => ownFailure_genuine hhardware hs.1 he) hstep.frame.2.1 hmono hworkers rfl
        hturned
  exact hboth.2 houtside

theorem mem_of_trouble {u : CancelToken} {moves : List Move}
    (h : .raised u ∈ history hardware (trouble? hardware) moves s) : .raise u ∈ moves := by
  induction moves generalizing s with
  | nil => cases h
  | cons m moves ih =>
    rcases List.mem_append.mp h with h | h
    · cases m with
      | raise v =>
        cases List.mem_singleton.mp h
        exact List.mem_cons_self
      | step position =>
        obtain ⟨x, -, hx⟩ := Option.map_eq_some_iff.mp (Option.mem_toList.mp h)
        cases hx
    · cases hm : s.move? hardware m with
      | none =>
        rw [hm] at h
        cases h
      | some t =>
        rw [hm] at h
        exact List.mem_cons_of_mem _ (ih h)

/-- What has failed in the hardware of a cluster while nobody was told is a copy. -/
theorem fault_of_reached {ε : Type} {P : Error → Prop} {engine : Engine} {s t : Pipeline World} {log : List ε}
    {note : Pipeline World → Move → Option ε}
    (hcopy : ∀ m dst src len e, Memory.copy m dst src len = .error e → P e) (hstart : s.world.queue.fault = none)
    (h : Reached (World.hardware topology engine) note s t log) : ∀ e, t.world.queue.fault = some e → P e := by
  refine h.invariant (P := fun t _ => ∀ e, t.world.queue.fault = some e → P e) ?_ fun {s t log} m hs hm => ?_
  · rw [hstart]
    exact nofun
  cases m with
  | raise u =>
    cases hm
    exact hs
  | step position =>
    obtain ⟨w, -, hstep⟩ := stepped_of_step? hm
    -- Only a settlement can leave a fault behind, and what it leaves is the error of a copy.
    have hsettle : ∀ {done : Bool} {world : World},
        (World.hardware topology engine).settle w.report.unit s.world = (done, world) →
          ∀ e, world.queue.fault = some e → P e := by
      intro done world hanswer
      unfold World.hardware at hanswer
      dsimp only at hanswer
      split at hanswer
      · obtain rfl : s.world.land.2 = world := congrArg Prod.snd hanswer
        exact World.land_fault hcopy hs
      · cases hanswer
        exact hs
    have hattempt : ∀ {job : Job} {answer : Option (Outcome Nat)} {world : World},
        (World.hardware topology engine).attempt w.report.unit job s.world = (answer, world) →
          ∀ e, world.queue.fault = some e → P e := by
      intro job answer world hanswer
      obtain rfl : ((World.hardware topology engine).attempt w.report.unit job s.world).2 = world :=
        congrArg Prod.snd hanswer
      rw [World.attempt_fault]
      exact hs
    cases hstep with
    | checked | raised | passed => exact hs
    | worked phase answer | ended phase answer => exact hattempt answer
    | settled phase answer | arrived phase answer => exact hsettle answer

end Pipeline

/-! ### What a run reports -/

namespace Run

variable {results : List (Except Error UnitReport)} {e : Error}

/-- The failures among the results of units. -/
def failures (results : List (Except Error UnitReport)) : List Error :=
  results.filterMap fun
    | .ok _ => none
    | .error e => some e

theorem failure?_eq (results : List (Except Error UnitReport)) :
    failure? results = ((failures results).find? (!·.isCancelled)).or (failures results).head? := rfl

theorem mem_failures : e ∈ failures results ↔ .error e ∈ results := by
  simp only [failures, List.mem_filterMap]
  constructor
  · rintro ⟨x, hx, he⟩
    cases x <;> cases he
    exact hx
  · exact fun h => ⟨_, h, rfl⟩

theorem mem_of_failure? (h : failure? results = some e) : .error e ∈ results := by
  rw [failure?_eq] at h
  rcases Option.or_eq_some_iff.mp h with h | ⟨-, h⟩
  · exact mem_failures.mp (List.mem_of_find?_eq_some h)
  · exact mem_failures.mp (List.mem_of_head? h)

theorem failure?_of_cause (he : .error e ∈ results) (hc : e.isCancelled = false) :
    ∃ e', failure? results = some e' ∧ e'.isCancelled = false := by
  rw [failure?_eq]
  cases hfind : (failures results).find? (!·.isCancelled) with
  | none =>
    have hstopped := List.find?_eq_none.mp hfind e (mem_failures.mpr he)
    simp [hc] at hstopped
  | some e' => exact ⟨e', rfl, by simpa using List.find?_some hfind⟩

theorem failure?_eq_none (h : failure? results = none) : ∀ e, .error e ∉ results := by
  intro e he
  rw [failure?_eq] at h
  have hmem := mem_failures.mpr he
  rw [List.head?_eq_none_iff.mp (Option.or_eq_none_iff.mp h).2] at hmem
  cases hmem

variable {r : Run}

theorem result_of_failure? (h : failure? r.pipeline.results = some e) : r.result = .error e := by
  unfold result
  simp only [h]
  rfl

theorem failure?_of_result (hfault : ∀ e, r.pipeline.world.queue.fault = some e → e.isCancelled = false)
    (h : r.result = .error e) (hc : e.isCancelled = true) : failure? r.pipeline.results = some e := by
  cases hfailure : failure? r.pipeline.results with
  | some e' =>
    rw [result_of_failure? hfailure] at h
    cases h
    rfl
  | none =>
    have hgenuine : Genuine r.result := by
      unfold result
      simp only [hfailure]
      split
      · exact failsWith_error (hfault _ ‹_›)
      · exact (genuine_readWords _ _).bind fun output => failsWith_ok _
    rw [hgenuine e h] at hc
    cases hc

end Run

namespace Pipeline

variable {σ : Type} {s : Pipeline σ} {token : CancelToken} {before : CancelFlags} {log : List Trouble} {e : Error}

theorem results_eq_error {i : Nat} :
    s.results[i]? = some (.error e) ↔ ∃ w, s.workers[i]? = some w ∧ w.failure = some e := by
  rw [results, List.getElem?_map, Option.map_eq_some_iff]
  refine exists_congr fun w => and_congr_right fun _ => ?_
  unfold Worker.result
  cases w.failure <;> simp

/-- The token of a run is raised because of a unit of the run, or it was raised from outside. -/
theorem Contained.cause_of_isRaised (h : Contained before token s log)
    (hlow : ∀ flag ∈ token.own :: token.above, s.flags.isRaised flag = false) (hraised : s.isRaised = true) :
    ∃ w ∈ s.workers, w.HasCause := by
  obtain ⟨flag, hflag, hraised⟩ := CancelFlags.isCancelled_iff.mp hraised
  rw [h.token_eq] at hflag
  rcases List.mem_cons.mp hflag with rfl | hflag
  · exact h.cause hraised
  · rw [hlow flag hflag] at hraised
    cases hraised

theorem Contained.cause_of_quiet (h : Contained before token s log) (hlow : before.isCancelled token = false)
    (hquiet : ∀ u, .raised u ∉ log) (hraised : s.isRaised = true) : ∃ w ∈ s.workers, w.HasCause := by
  obtain ⟨flag, hflag, hraised⟩ := CancelFlags.isCancelled_iff.mp hraised
  by_cases hown : flag = before.raised.size
  · exact h.cause (hown ▸ hraised)
  · rcases h.outside flag hown hraised with hbefore | ⟨u, hu, -⟩
    · rw [h.token_eq] at hflag
      have hcancelled := CancelFlags.isCancelled_iff.mpr ⟨flag, (List.mem_cons.mp hflag).resolve_left hown, hbefore⟩
      rw [hlow] at hcancelled
      cases hcancelled
    · exact absurd hu (hquiet u)

/-- If the token of a run is raised only because of a unit of the run, a failure is reported that is a cause, by the unit
    that made it. -/
theorem Contained.reported_of_cause (h : Contained before token s log) (he : .error e ∈ s.results)
    (hraised : s.isRaised = true → ∃ w ∈ s.workers, w.HasCause) :
    ∃ i e, Run.failure? s.results = some e ∧ e.isCancelled = false ∧ s.results[i]? = some (.error e) ∧
      .failed i e ∈ log := by
  have hcause : ∃ w ∈ s.workers, w.HasCause := by
    obtain ⟨i, hi⟩ := List.mem_iff_getElem?.mp he
    obtain ⟨w, hw, hfailure⟩ := results_eq_error.mp hi
    cases hc : e.isCancelled with
    | false => exact ⟨w, List.mem_of_getElem? hw, e, hfailure, hc⟩
    | true => exact hraised (h.stopped w (List.mem_of_getElem? hw) e hfailure hc)
  obtain ⟨w, hw, e', hfailure, hc⟩ := hcause
  obtain ⟨i, hi⟩ := List.mem_iff_getElem?.mp hw
  have hmem := List.mem_of_getElem? (results_eq_error.mpr ⟨w, hi, hfailure⟩)
  obtain ⟨e'', hreported, hc''⟩ := Run.failure?_of_cause hmem hc
  obtain ⟨j, hj⟩ := List.mem_iff_getElem?.mp (Run.mem_of_failure? hreported)
  obtain ⟨v, hv, hfailure''⟩ := results_eq_error.mp hj
  exact ⟨j, e'', hreported, hc'', hj, h.produced j v e'' hv hfailure'' hc''⟩

/-- Unless the token was raised from outside, a failure is reported that is a cause, by the unit that made it. -/
theorem Contained.reported (h : Contained before token s log) (he : .error e ∈ s.results)
    (hlow : ∀ flag ∈ token.own :: token.above, s.flags.isRaised flag = false) :
    ∃ i e, Run.failure? s.results = some e ∧ e.isCancelled = false ∧ s.results[i]? = some (.error e) ∧
      .failed i e ∈ log :=
  h.reported_of_cause he (h.cause_of_isRaised hlow)

end Pipeline

namespace Cluster

variable {c : Cluster} {d : Dataset} {k : Kernel} {config : PipelineConfig} {token : CancelToken} {flags : CancelFlags}
  {plan : TilePlan} {personality : Personality} {m : Memory} {r : Run} {moves : List Move} {s : Pipeline World}

theorem contained_setUp (hpos : 0 < plan.iterations) :
    Pipeline.Contained flags token (c.setUp d k config token flags plan personality m).pipeline [] where
  token_eq := rfl
  outside := by
    intro flag _ hraised
    rw [flags_setUp hpos] at hraised
    exact Or.inl ((CancelFlags.isRaised_child flags token flag).symm.trans hraised)
  cause := by
    intro hraised
    rw [flags_setUp hpos] at hraised
    have hlow := (CancelFlags.isRaised_child flags token flags.raised.size).symm.trans hraised
    simp [CancelFlags.isRaised] at hlow
  raising := by
    intro w hw hphase
    obtain ⟨unit, rfl⟩ := mem_workers_setUp hpos hw
    cases hphase
  stopped := by
    intro w hw e he
    obtain ⟨unit, rfl⟩ := mem_workers_setUp hpos hw
    cases he
  produced := by
    intro i w e hw he
    obtain ⟨unit, rfl⟩ := mem_workers_setUp hpos (List.mem_of_getElem? hw)
    cases he

theorem contained_of_follow? (hk : k.Genuine) (hr : c.prepare d k config token flags = .ok r)
    (houtside : ∀ u, .raise u ∈ moves → u.own ≠ flags.raised.size)
    (hmoves : Pipeline.follow? r.hardware moves r.pipeline = some s) :
    Pipeline.Contained flags token s (Pipeline.history r.hardware (Pipeline.trouble? r.hardware) moves r.pipeline) ∧
      ∀ e, s.world.queue.fault = some e → e.isCancelled = false := by
  obtain ⟨backing, bytes, plan, personality, m, hplaced, rfl⟩ := prepare_eq_ok.mp hr
  have hreached := Pipeline.reached_of_follow?
    (Pipeline.trouble? (c.setUp d k config token flags plan personality m).hardware) hmoves
  refine ⟨Pipeline.contained_of_reached (World.hardware_genuine hk _) roster_setUp (contained_setUp hplaced.iterations_pos)
    hreached ?_,
    Pipeline.fault_of_reached (fun _ _ _ _ => genuine_copy _ _ _) rfl hreached⟩
  exact fun u hu => houtside u (Pipeline.mem_of_trouble hu)

end Cluster

end TileOffload
