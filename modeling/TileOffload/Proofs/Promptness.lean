import TileOffload.Proofs.Containment
import TileOffload.Proofs.Lockstep

/-! # How soon units see that they are stopped

A unit looks at the token once in an iteration, before its work. Main statement: of the units that do not fail
themselves, each stops in the iteration in which the token was raised or in the next one, or was at its last
iteration, and nobody works in a later iteration. The barriers keep the units so close together that this is one
iteration for all of them, however long each takes. -/

namespace TileOffload

/-- The unit has failed, or it is about where the token was raised once all had come to `k` barriers: in iteration
    `k`, on the way into it, or before the first look that it takes later. -/
def Worker.Near (w : Worker) (k : Nat) : Prop :=
  w.failure = none → w.iteration = k ∨ w.iteration + 1 = k ∧ w.phase = .waiting ∨
    w.iteration = k + 1 ∧ (w.phase = .checking ∨ w.phase = .finished)

namespace Pipeline

variable {σ : Type} {hardware : Hardware σ} {s s₀ t u : Pipeline σ} {topology : Topology} {position k : Nat}
  {w w' : Worker} {visits : List Nat} {log : List Trouble}

/-- The barriers that all units have come to. -/
def barriersMet (s : Pipeline σ) : Nat := ((s.workers.map calls).min?).getD 0

/-- A unit that works, and the iteration whose work it does. -/
def work? (s : Pipeline σ) : Move → Option (Nat × Nat)
  | .raise _ => none
  | .step position =>
    match s.workers[position]? with
    | none => none
    | some w =>
      match w.phase with
      | .working _ _ => some (position, w.iteration)
      | _ => none

/-- The error of a unit is its own: at the start it lacked what its role needs, or its work ended with the error. -/
def OwnError (s₀ : Pipeline σ) (log : List Trouble) (i : Nat) (e : Error) : Prop :=
  (∃ w, s₀.workers[i]? = some w ∧ w.failure = some e) ∨ .failed i e ∈ log

theorem OwnError.append {i : Nat} {e : Error} (h : OwnError s₀ log i e) (later : List Trouble) :
    OwnError s₀ (log ++ later) i e := h.imp_right (List.mem_append_left later)

/-! ### Barriers -/

theorem barriersMet_le (hw : w ∈ s.workers) : barriersMet s ≤ calls w :=
  List.min?_getD_le_of_mem (List.mem_map_of_mem hw)

theorem exists_calls_eq (hw : w ∈ s.workers) : ∃ v ∈ s.workers, calls v = barriersMet s := by
  obtain ⟨n, hn⟩ := Option.isSome_iff_exists.mp (List.isSome_min?_of_mem (List.mem_map_of_mem (f := calls) hw))
  obtain ⟨v, hv, hcalls⟩ := List.mem_map.mp (List.min?_mem hn)
  refine ⟨v, hv, ?_⟩
  rw [barriersMet, hn, hcalls, Option.getD_some]

/-- Whoever is in an iteration has left behind only barriers that all units have come to. -/
theorem Lockstep.iteration_le (h : Lockstep s visits) (hw : w ∈ s.workers) : w.iteration ≤ barriersMet s := by
  obtain ⟨v, hv, hcalls⟩ := exists_calls_eq hw
  rw [← hcalls]
  rcases Nat.eq_zero_or_pos w.iteration with hzero | hpos
  · omega
  · have harrived := hasArrived_iff.mp (h.met w hw v hv (w.iteration - 1) (by omega))
    unfold calls
    rcases harrived with hlt | ⟨heq, hwait⟩
    · omega
    · rw [if_pos hwait]
      omega

theorem Lockstep.near (h : Lockstep s visits) (hw : w ∈ s.workers) : w.Near (barriersMet s) := by
  intro _
  have hle := h.iteration_le hw
  have hmet := barriersMet_le hw
  unfold calls at hmet
  split at hmet
  · rename_i hwait
    rcases Nat.lt_or_eq_of_le hle with hlt | heq
    · exact Or.inr (Or.inl ⟨by omega, hwait⟩)
    · exact Or.inl heq
  · exact Or.inl (by omega)

/-! ### Steps -/

theorem Progress.iteration_le (h : Progress s w w') : w.iteration ≤ w'.iteration := by
  cases h with
  | work iteration => exact Nat.le_of_eq iteration.symm
  | arrive => exact Nat.le_refl _
  | pass => exact Nat.le_succ _

theorem worked_le {moves : List Move} (h : follow? hardware moves s = some t) :
    ∀ x ∈ history hardware work? moves s, ∃ w, t.workers[x.1]? = some w ∧ x.2 ≤ w.iteration := by
  -- What is noted is of the iteration that its unit is in at that moment, and iterations only grow.
  refine (reached_of_follow? work? h).invariant
    (P := fun s log => ∀ x ∈ log, ∃ w, s.workers[x.1]? = some w ∧ x.2 ≤ w.iteration) (List.forall_mem_nil _)
    fun {s t log} m hlog hm => ?_
  cases m with
  | raise token =>
    cases hm
    rwa [work?, Option.toList_none, List.append_nil]
  | step position =>
    obtain ⟨w, hw, hstep⟩ := stepped_of_step? hm
    obtain ⟨-, w', hp, hworkers, -⟩ := hstep.progress hw
    have hself : t.workers[position]? = some w' := by
      rw [hworkers]
      exact getElem?_set_self hw
    intro x hx
    rcases List.mem_append.mp hx with hx | hx
    · obtain ⟨v, hv, hle⟩ := hlog x hx
      by_cases hi : position = x.1
      · subst hi
        obtain rfl := Option.some.inj (hw.symm.trans hv)
        exact ⟨w', hself, Nat.le_trans hle hp.iteration_le⟩
      · refine ⟨v, ?_, hle⟩
        rw [hworkers, List.getElem?_set_ne hi]
        exact hv
    · simp only [work?, hw, Option.mem_toList] at hx
      split at hx
      · cases hx
        exact ⟨w', hself, hp.iteration_le⟩
      · cases hx

/-- A unit that sees the token raised stops; a unit that does not look stays near. -/
theorem Stepped.near (hw : s.workers[position]? = some w) (hsound : w.Sound s.plan s.isRaised)
    (hraised : s.isRaised = true) (hnear : w.Near k) (h : Stepped hardware s position w t) :
    ∃ w', t.workers = s.workers.set position w' ∧ w'.Near k ∧
      (w'.failure = w.failure ∨ w'.failure = some (.cancelled k) ∨ w'.failure = some (.cancelled (k + 1)) ∨
        ∃ e, s.ownFailure? hardware position = some e ∧ w'.failure = some e) := by
  cases h with
  | checked phase =>
    refine ⟨_, rfl, ?_⟩
    rw [Worker.checked, if_pos (show s.flags.isCancelled s.token = true from hraised)]
    refine ⟨(fun hx => by cases hx), Or.inr ?_⟩
    rcases hnear (hsound.healthy (Or.inl phase)) with heq | ⟨-, hwait⟩ | ⟨heq, -⟩
    · exact Or.inl (by rw [heq])
    · rw [phase] at hwait
      cases hwait
    · exact Or.inr (Or.inl (by rw [heq]))
  | worked phase answer => exact ⟨w, (set_self hw).symm, hnear, Or.inl rfl⟩
  | @ended task rest outcome world phase answer =>
    refine ⟨_, rfl, ?_⟩
    cases outcome with
    | done polls =>
      have hhealthy := hsound.healthy (Or.inr ⟨task, rest, phase⟩)
      obtain ⟨-, -, hiteration, hfailure, -⟩ := Worker.record_kept w task.completes polls
      obtain ⟨-, hiteration', hfailure'⟩ := Worker.proceed_kept (w.record task.completes polls) rest
      refine ⟨fun _ => Or.inl ?_, Or.inl (hfailure'.trans hfailure)⟩
      rw [Worker.ended, hiteration', hiteration]
      rcases hnear hhealthy with heq | ⟨-, hx⟩ | ⟨-, hx | hx⟩
      · exact heq
      all_goals
        rw [phase] at hx
        cases hx
    | failed e => exact
      ⟨(fun hx => by cases hx), Or.inr (Or.inr (Or.inr ⟨e, by simp only [ownFailure?, hw, phase, answer], rfl⟩))⟩
    | panicked => exact
      ⟨(fun hx => by cases hx), Or.inr (Or.inr (Or.inr ⟨_, by simp only [ownFailure?, hw, phase, answer], rfl⟩))⟩
  | raised phase =>
    exact ⟨_, rfl, fun hnone => absurd hnone (hsound.failed phase), Or.inl rfl⟩
  | settled phase answer => exact ⟨w, (set_self hw).symm, hnear, Or.inl rfl⟩
  | arrived phase answer =>
    refine ⟨_, rfl, fun hnone => Or.inl ?_, Or.inl rfl⟩
    rcases hnear hnone with heq | ⟨-, hx⟩ | ⟨-, hx | hx⟩
    · exact heq
    all_goals
      rw [phase] at hx
      cases hx
  | passed phase met =>
    refine ⟨_, rfl, fun hnone => ?_, Or.inl rfl⟩
    have hnone : w.failure = none := hnone
    rcases hnear hnone with heq | ⟨heq, -⟩ | ⟨-, hx | hx⟩
    · refine Or.inr (Or.inr ⟨by rw [iteration_passed, heq], ?_⟩)
      unfold Worker.passed
      rw [hnone]
      dsimp only
      split
      · exact Or.inr rfl
      · exact Or.inl rfl
    · exact Or.inl (by rw [iteration_passed, heq])
    all_goals
      rw [phase] at hx
      cases hx

/-! ### Before the token is raised -/

/-- What is kept by every move of units whose token is not raised yet holds when it comes to be raised. -/
theorem calm {note : Pipeline σ → Move → Option Trouble} {P : Pipeline σ → List Trouble → Prop} {moves : List Move}
    (step : ∀ {s t log} m, P s log → s.isRaised = false → s.move? hardware m = some t → P t (log ++ (note s m).toList))
    (hs : P s log) (hcalm : ∀ n < moves.length, ∀ v, follow? hardware (moves.take n) s = some v → v.isRaised = false)
    (h : follow? hardware moves s = some t) : P t (log ++ history hardware note moves s) := by
  -- On the moves, the first of which is made with the token as it is at the start.
  induction moves generalizing s log with
  | nil =>
    cases h
    rwa [history, List.append_nil]
  | cons m moves ih =>
    obtain ⟨v, hv, h⟩ := Option.bind_eq_some_iff.mp h
    have hlow : s.isRaised = false := hcalm 0 (Nat.succ_pos _) s rfl
    have hnext := ih (step m hs hlow hv) (fun n hn x hx => hcalm (n + 1) (Nat.succ_lt_succ hn) x (by
      rw [List.take_succ_cons, follow?, hv]
      exact hx)) h
    rw [List.append_assoc] at hnext
    simpa only [history, hv, Option.elim_some] using hnext

theorem ownError_of_calm {moves : List Move} (hroster : Roster topology s₀)
    (hcalm : ∀ n < moves.length, ∀ v, follow? hardware (moves.take n) s₀ = some v → v.isRaised = false)
    (h : follow? hardware moves s₀ = some t) :
    Roster topology t ∧ ∀ i w e, t.workers[i]? = some w → w.failure = some e →
      OwnError s₀ (history hardware (trouble? hardware) moves s₀) i e := by
  rw [← List.nil_append (history hardware (trouble? hardware) moves s₀)]
  refine calm (P := fun s log => Roster topology s ∧ ∀ i w e, s.workers[i]? = some w → w.failure = some e →
    OwnError s₀ log i e) (fun {s t log} m hs hlow hm => ⟨hs.1.move hm, ?_⟩)
    ⟨hroster, fun i w e hw he => Or.inl ⟨w, hw, he⟩⟩ hcalm h
  cases m with
  | raise token =>
    cases hm
    exact fun i w e hw he => (hs.2 i w e hw he).append _
  | step position =>
    obtain ⟨w, hw, hstep⟩ := stepped_of_step? hm
    obtain ⟨w', hworkers, hturned⟩ := hstep.turned hw (hs.1.sound w (List.mem_of_getElem? hw))
    intro i v e hv he
    rw [hworkers] at hv
    by_cases hi : position = i
    · subst hi
      rw [getElem?_set_self hw] at hv
      cases hv
      generalize t.flags = flags at hturned
      cases hturned with
      | goesOn failure | raised _ failure => exact (hs.2 position w e hw (failure.symm.trans he)).append _
      | stopped _ raised =>
        rw [hlow] at raised
        cases raised
      | failed _ own failure =>
        obtain rfl := Option.some.inj (failure.symm.trans he)
        refine Or.inr (List.mem_append_right _ ?_)
        rw [trouble?, own]
        exact List.mem_singleton_self _
    · rw [List.getElem?_set_ne hi] at hv
      exact (hs.2 i v e hv he).append _

/-! ### After the token is raised -/

/-- The token is raised, every unit that has not failed is near the barrier that was next then, and those that were
    stopped were so there. -/
structure Stopping (topology : Topology) (s₀ : Pipeline σ) (k : Nat) (s : Pipeline σ) (log : List Trouble) : Prop where
  roster : Roster topology s
  raised : s.isRaised = true
  near : ∀ w ∈ s.workers, w.Near k
  failed : ∀ i w e, s.workers[i]? = some w → w.failure = some e →
    e = .cancelled k ∨ e = .cancelled (k + 1) ∨ OwnError s₀ log i e

theorem Stopping.move (h : Stopping topology s₀ k s log) (m : Move) (hm : s.move? hardware m = some t) :
    Stopping topology s₀ k t (log ++ (trouble? hardware s m).toList) := by
  have hkeep : ∀ {i w e}, s.workers[i]? = some w → w.failure = some e →
      e = .cancelled k ∨ e = .cancelled (k + 1) ∨ OwnError s₀ (log ++ (trouble? hardware s m).toList) i e :=
    fun hw he => (h.failed _ _ _ hw he).imp_right (Or.imp_right fun hown => hown.append _)
  cases m with
  | raise token =>
    have hroster := h.roster.move hm
    cases hm
    exact ⟨hroster, CancelFlags.isCancelled_mono h.raised, h.near, fun i w e hw he => hkeep hw he⟩
  | step position =>
    obtain ⟨w, hw, hstep⟩ := stepped_of_step? hm
    have hmem := List.mem_of_getElem? hw
    have hsound := h.roster.sound w hmem
    obtain ⟨-, -, -, -, -, -, hmono⟩ := hstep.worker hw h.roster.own hsound
    obtain ⟨w', hworkers, hnear, hfailure⟩ := hstep.near hw hsound h.raised (h.near w hmem)
    refine ⟨h.roster.move hm, hmono h.raised, fun v hv => ?_, fun i v e hv he => ?_⟩
    · rw [hworkers] at hv
      rcases List.mem_or_eq_of_mem_set hv with hv | rfl
      · exact h.near v hv
      · exact hnear
    · rw [hworkers] at hv
      by_cases hi : position = i
      · subst hi
        rw [getElem?_set_self hw] at hv
        cases hv
        rcases hfailure with hsame | hstopped | hstopped | ⟨e', hown, hfailed⟩
        · exact hkeep hw (hsame.symm.trans he)
        · exact Or.inl (Option.some.inj (he.symm.trans hstopped))
        · exact Or.inr (Or.inl (Option.some.inj (he.symm.trans hstopped)))
        · obtain rfl := Option.some.inj (he.symm.trans hfailed)
          refine Or.inr (Or.inr (Or.inr (List.mem_append_right _ ?_)))
          rw [trouble?, hown]
          exact List.mem_singleton_self _
      · rw [List.getElem?_set_ne hi] at hv
        exact hkeep hv he

/-- Whoever still works does so in the iteration in which the token was raised. -/
theorem Stopping.work (h : Stopping topology s₀ k s log) {m : Move} {x : Nat × Nat} (hx : work? s m = some x) :
    x.2 = k := by
  cases m with
  | raise token => cases hx
  | step position =>
    cases hw : s.workers[position]? with
    | none => simp only [work?, hw, reduceCtorEq] at hx
    | some w =>
      simp only [work?, hw] at hx
      split at hx
      · rename_i task rest phase
        cases hx
        have hmem := List.mem_of_getElem? hw
        rcases h.near w hmem ((h.roster.sound w hmem).healthy (Or.inr ⟨task, rest, phase⟩)) with
          heq | ⟨-, hx⟩ | ⟨-, hx | hx⟩
        · exact heq
        all_goals
          rw [phase] at hx
          cases hx
      · cases hx

/-- A unit that is through was stopped near the barrier, has failed itself, or has done all its work. -/
theorem Stopping.result (h : Stopping topology s₀ k s log) (hlock : Lockstep s visits) {i : Nat}
    (hw : s.workers[i]? = some w) (hf : w.isFinished = true) (hown : ∀ e, ¬OwnError s₀ log i e) :
    w.result = .error (.cancelled k) ∨ w.result = .error (.cancelled (k + 1)) ∨
      w.result = .ok w.report ∧ s.plan.iterations ≤ k + 1 := by
  unfold Worker.result
  cases hfailure : w.failure with
  | some e =>
    rcases h.failed i w e hw hfailure with rfl | rfl | he
    · exact Or.inl rfl
    · exact Or.inr (Or.inl rfl)
    · exact absurd he (hown e)
  | none =>
    have hmem := List.mem_of_getElem? hw
    have hlast := (hlock.finished w hmem).mp (by simpa [Worker.isFinished] using hf)
    refine Or.inr (Or.inr ⟨rfl, ?_⟩)
    rcases h.near w hmem hfailure with heq | ⟨heq, -⟩ | ⟨heq, -⟩ <;> omega

theorem Stopping.stopped (h : Stopping topology s₀ k s log) {i n : Nat} (hw : s.workers[i]? = some w)
    (hn : w.result = .error (.cancelled n)) (hown : ¬OwnError s₀ log i (.cancelled n)) : n = k ∨ n = k + 1 := by
  have hfailure : w.failure = some (.cancelled n) := by
    unfold Worker.result at hn
    split at hn <;> cases hn
    assumption
  rcases h.failed i w _ hw hfailure with heq | heq | hx
  · exact Or.inl (Error.cancelled.inj heq)
  · exact Or.inr (Error.cancelled.inj heq)
  · exact absurd hx hown

/-- No unit says by itself that it was stopped, if the hardware never does. -/
theorem ownError_genuine {plan : TilePlan} {token : CancelToken} {flags : CancelFlags} {world : σ} {moves : List Move}
    (hs₀ : s₀ = .create plan topology (List.range topology.units) hardware token flags world)
    (hknown : token.own < flags.raised.size) (hhardware : hardware.Genuine) {i : Nat} {e : Error}
    (h : OwnError s₀ (history hardware (trouble? hardware) moves s₀) i e) : e.isCancelled = false := by
  subst hs₀
  rcases h with ⟨w, hw, he⟩ | h
  · obtain ⟨unit, -, rfl⟩ := List.mem_map.mp (List.mem_of_getElem? hw)
    have hmissing : Worker.missing? unit (topology.roleOf unit) (hardware.hasTransfers unit) (hardware.hasDevice unit) =
        some e := by rwa [(Worker.entered_kept _ plan).2.2] at he
    unfold Worker.missing? at hmissing
    split at hmissing
    · split at hmissing <;> cases hmissing
      rfl
    · split at hmissing <;> cases hmissing
      rfl
    · cases hmissing
  · refine forall_mem_history (P := Roster topology) (Q := fun x => ∀ i e, x = .failed i e → e.isCancelled = false)
      (fun m hs hm => hs.move hm) (fun {s} m x hs hx i e he => ?_) (Roster.create hknown) moves _ h i e rfl
    subst he
    cases m with
    | raise token => cases hx
    | step position =>
      obtain ⟨e', he', heq⟩ := Option.map_eq_some_iff.mp hx
      cases heq
      exact ownFailure_genuine hhardware hs he'

/-- Whatever the hardware answers and whoever raises a token, in whichever order the units go on: let `before` be the
    moves up to the first that leaves the token raised, and `k` the barriers that all units have come to by then. Work
    is done in no iteration later than `k`. A unit that is through has an error of its own, or was stopped in
    iteration `k` or `k + 1`, or has come through, which it does only if the plan has no iteration after `k`. And where
    two units were stopped, that was at most one iteration apart. -/
theorem cancellation_seen_within_one_iteration (plan : TilePlan) (topology : Topology) (hardware : Hardware σ)
    (token : CancelToken) (flags : CancelFlags) (world : σ) (hknown : token.own < flags.raised.size)
    (hs₀ : s₀ = .create plan topology (List.range topology.units) hardware token flags world)
    (before after : List Move) (hbefore : follow? hardware before s₀ = some u) (hraised : u.isRaised = true)
    (hfirst : ∀ n < before.length, ∀ v, follow? hardware (before.take n) s₀ = some v → v.isRaised = false)
    (hafter : follow? hardware after u = some s) :
    (∀ x ∈ history hardware work? (before ++ after) s₀, x.2 ≤ barriersMet u) ∧
    (∀ i w, s.workers[i]? = some w → w.isFinished = true →
      (∀ e, ¬OwnError s₀ (history hardware (trouble? hardware) (before ++ after) s₀) i e) →
      w.result = .error (.cancelled (barriersMet u)) ∨ w.result = .error (.cancelled (barriersMet u + 1)) ∨
        w.result = .ok w.report ∧ plan.iterations ≤ barriersMet u + 1) ∧
    (∀ i j v w a b, s.workers[i]? = some v → s.workers[j]? = some w → v.result = .error (.cancelled a) →
      w.result = .error (.cancelled b) →
      hardware.Genuine ∨ (∀ e, ∀ l ∈ [i, j],
        ¬OwnError s₀ (history hardware (trouble? hardware) (before ++ after) s₀) l e) → a ≤ b + 1) := by
  have hroster : Roster topology s₀ := hs₀ ▸ Roster.create hknown
  have hlockstep : ∀ {moves t}, follow? hardware moves s₀ = some t → ∃ visits, Lockstep t visits := by
    intro moves t ht
    subst hs₀
    exact ⟨_, reached_lockstep (reached_of_follow? (arrival hardware) ht)⟩
  have hall : follow? hardware (before ++ after) s₀ = some s := by
    rw [follow?_append, hbefore]
    exact hafter
  obtain ⟨visits, hlock⟩ := hlockstep hbefore
  obtain ⟨visits', hlock'⟩ := hlockstep hall
  obtain ⟨hroster', hown⟩ := ownError_of_calm hroster hfirst hbefore
  have hstart : Stopping topology s₀ (barriersMet u) u (history hardware (trouble? hardware) before s₀) :=
    ⟨hroster', hraised, fun w hw => hlock.near hw, fun i w e hw he => Or.inr (Or.inr (hown i w e hw he))⟩
  -- Before the token is raised units fail only by themselves; from then on the stopping of the units is kept.
  have hstop : Stopping topology s₀ (barriersMet u) s (history hardware (trouble? hardware) (before ++ after) s₀) := by
    rw [history_append hbefore]
    refine (reached_of_follow? (trouble? hardware) hafter).invariant (P := fun s log =>
      Stopping topology s₀ (barriersMet u) s (history hardware (trouble? hardware) before s₀ ++ log)) ?_ ?_
    · rwa [List.append_nil]
    · intro s t log m hs hm
      rw [← List.append_assoc]
      exact hs.move m hm
  have hplan : s.plan = plan := by
    rw [(reached_of_follow? (trouble? hardware) hall).frame.1, hs₀]
    rfl
  refine ⟨?_, ?_, ?_⟩
  · rw [history_append hbefore]
    intro x hx
    rcases List.mem_append.mp hx with hx | hx
    · obtain ⟨w, hw, hle⟩ := worked_le hbefore x hx
      exact Nat.le_trans hle (hlock.iteration_le (List.mem_of_getElem? hw))
    · refine Nat.le_of_eq (forall_mem_history (P := fun s => ∃ log, Stopping topology s₀ (barriersMet u) s log)
        (Q := fun x => x.2 = barriersMet u) ?_ ?_ ⟨_, hstart⟩ after x hx)
      · rintro s t m ⟨log, hs⟩ hm
        exact ⟨_, hs.move m hm⟩
      · rintro s m x ⟨log, hs⟩ hx
        exact hs.work hx
  · intro i w hw hf hnone
    rw [← hplan]
    exact hstop.result hlock' hw hf hnone
  · intro i j v w a b hv hw ha hb hcause
    have hnot : ∀ l ∈ [i, j], ∀ n,
        ¬OwnError s₀ (history hardware (trouble? hardware) (before ++ after) s₀) l (.cancelled n) := by
      intro l hl n hfailed
      rcases hcause with hgenuine | hnone
      · cases ownError_genuine hs₀ hknown hgenuine hfailed
      · exact hnone _ l hl hfailed
    have := hstop.stopped hv ha (hnot i List.mem_cons_self a)
    have := hstop.stopped hw hb (hnot j (List.mem_cons_of_mem _ List.mem_cons_self) b)
    omega

/-- The moves of two units that go on after the token was raised, until both are through. -/
def stoppedMoves : List Move := [0, 1, 1, 1, 0, 0, 0, 1, 1, 0, 0, 1, 1, 0, 0, 1, 1, 0].map .step

/-- A token that is raised after one of two units has looked at it stops that unit an iteration later than the other,
    and neither works after the first iteration. -/
theorem raised_between_two_looks :
    ∃ (plan : TilePlan) (u s : Pipeline Unit),
      TilePlan.make 8 (.tiled 4) .tcdm ⟨Chip.backingBase, Chip.backingBase + 32, Chip.backingBase + 64⟩ = .ok plan ∧
      follow? panicking [.step 0, .raise ⟨0, []⟩] (panickingStart plan) = some u ∧ barriersMet u = 0 ∧
      follow? panicking stoppedMoves u = some s ∧ s.isFinished = true ∧
      s.results = [.error (.cancelled 1), .error (.cancelled 0)] ∧
      (∀ x ∈ history panicking work? ([.step 0, .raise ⟨0, []⟩] ++ stoppedMoves) (panickingStart plan),
        x.2 ≤ barriersMet u) ∧
      ∀ (i j : Nat) (v w : Worker) (a b : Nat), s.workers[i]? = some v → s.workers[j]? = some w →
        v.result = .error (.cancelled a) → w.result = .error (.cancelled b) → a ≤ b + 1 := by
  have hgenuine : panicking.Genuine := by
    constructor <;> intro _ _ _ _ _ h <;> cases h
  have prompt : ∀ {plan : TilePlan} {u s : Pipeline Unit}, (panickingStart plan).isRaised = false →
      follow? panicking [.step 0, .raise ⟨0, []⟩] (panickingStart plan) = some u → u.isRaised = true →
      (∀ v, follow? panicking [.step 0] (panickingStart plan) = some v → v.isRaised = false) →
      follow? panicking stoppedMoves u = some s →
      (∀ x ∈ history panicking work? ([.step 0, .raise ⟨0, []⟩] ++ stoppedMoves) (panickingStart plan),
        x.2 ≤ barriersMet u) ∧
      ∀ (i j : Nat) (v w : Worker) (a b : Nat), s.workers[i]? = some v → s.workers[j]? = some w →
        v.result = .error (.cancelled a) → w.result = .error (.cancelled b) → a ≤ b + 1 := by
    intro plan u s hstart hbefore hraised hlow hafter
    obtain ⟨hwork, -, hstopped⟩ := cancellation_seen_within_one_iteration plan _ panicking _ _ _ (by decide) rfl _ _
      hbefore hraised (fun n hn v hv => by
        match n, hn with
        | 0, _ =>
          cases hv
          exact hstart
        | 1, _ => exact hlow v hv) hafter
    exact ⟨hwork, fun i j v w a b hv hw ha hb => hstopped i j v w a b hv hw ha hb (Or.inl hgenuine)⟩
  refine ⟨_, _, _, rfl, rfl, rfl, rfl, rfl, rfl, prompt rfl rfl rfl (fun v hv => ?_) rfl⟩
  cases hv
  rfl

end Pipeline

end TileOffload
