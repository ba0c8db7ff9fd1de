import Mathlib.Data.List.Forall2
import TileOffload.Proofs.Containment
import TileOffload.Proofs.UnitTrace

/-! # Runs whose answers are foretold

Where it is known beforehand how each job will be answered, it is known which units fail in an iteration that all of
them begin healthy, and with which errors. Main statements: a run that nobody stops from outside fails with the error of
a unit that is foretold to fail in the first iteration in which any unit is; the reports of units that come through are
those that they are bound to give. -/

namespace TileOffload

/-- Where a job may succeed, with so many polls, there is no other answer to it. -/
def Certain (answer : Job → Outcome Nat → Prop) : Prop :=
  ∀ {job n outcome}, answer job (.done n) → answer job outcome → outcome = .done n

namespace TilePlan

variable {answer : Job → Outcome Nat → Prop} {p : TilePlan} {back : Nat → Tile} {unit unit' : Nat} {role : Role} {i : Nat}
  {e e' : Error}

/-- Jobs that are foretold to succeed, each with its polls. -/
def Succeed (answer : Job → Outcome Nat → Prop) (jobs : List Job) (polls : List Nat) : Prop :=
  List.Forall₂ (fun job n => answer job (.done n)) jobs polls

/-- All jobs of a role in an iteration are foretold to succeed. -/
def Clear (answer : Job → Outcome Nat → Prop) (p : TilePlan) (back : Nat → Tile) (role : Role) (i : Nat) : Prop :=
  ∃ polls, Succeed answer (p.jobs back role i) polls

/-- A unit is foretold to fail in an iteration: one of its jobs fails with that error, and those before it succeed. -/
inductive Faulty (answer : Job → Outcome Nat → Prop) (p : TilePlan) (back : Nat → Tile) (unit : Nat) (role : Role)
    (i : Nat) (e : Error) : Prop
  | intro {before after : List Job} {job : Job} {polls : List Nat} {outcome : Outcome Nat}
    (jobs : p.jobs back role i = before ++ job :: after) (before_succeed : Succeed answer before polls)
    (answered : answer job outcome) (error : outcome.error? unit i = some e)

theorem Succeed.of_mem {jobs : List Job} {polls : List Nat} (h : Succeed answer jobs polls) {job : Job}
    (hjob : job ∈ jobs) : ∃ n, answer job (.done n) := by
  induction h with
  | nil => cases hjob
  | cons hhead _ ih =>
    rcases List.mem_cons.mp hjob with rfl | hjob
    · exact ⟨_, hhead⟩
    · exact ih hjob

theorem Succeed.unique (hcertain : Certain answer) {jobs : List Job} {polls polls' : List Nat}
    (h : Succeed answer jobs polls) (h' : Succeed answer jobs polls') : polls = polls' := by
  have hright : Relator.RightUnique fun job n => answer job (.done n) := fun _ _ _ hn hn' =>
    (Outcome.done.inj (hcertain hn hn')).symm
  exact List.right_unique_forall₂' hright h h'

theorem succeed_of_tried {jobs : List Job} {polls : List Nat} (hlength : polls.length = jobs.length)
    (h : ∀ job outcome, .tried job outcome ∈ tried jobs polls → answer job outcome) : Succeed answer jobs polls := by
  -- On the jobs, the deeds of the first of which come first.
  induction jobs generalizing polls with
  | nil =>
    obtain rfl := List.length_eq_zero_iff.mp hlength
    exact List.Forall₂.nil
  | cons job jobs ih =>
    cases polls with
    | nil => cases hlength
    | cons n polls =>
      refine List.Forall₂.cons (h job _ List.mem_cons_self) (ih (Nat.succ.inj hlength) fun job' outcome hmem => ?_)
      exact h job' outcome (List.mem_cons_of_mem _ hmem)

/-- The jobs of turns that went as foretold. -/
theorem succeed_of_turns {polls : Nat → List Nat} {n : Nat} (polled : p.Polled back role polls n)
    (h : ∀ job outcome, .tried job outcome ∈ p.turns back role polls n → answer job outcome) {k : Nat} (hk : k < n) :
    Succeed answer (p.jobs back role k) (polls k) := by
  refine succeed_of_tried (polled k hk) fun job outcome hmem => h job outcome ?_
  exact List.mem_flatMap.mpr ⟨k, List.mem_range.mpr hk, List.mem_append_left _ (List.mem_cons_of_mem _ hmem)⟩

theorem not_done_of_error? {outcome : Outcome Nat} (h : outcome.error? unit i = some e) (n : Nat) : outcome ≠ .done n := by
  rintro rfl
  cases h

theorem Faulty.not_clear (hcertain : Certain answer) (h : p.Faulty answer back unit role i e) :
    ¬p.Clear answer back role i := by
  rintro ⟨polls, hclear⟩
  obtain ⟨jobs, -, answered, error⟩ := h
  obtain ⟨n, hn⟩ := hclear.of_mem (jobs ▸ List.mem_append_right _ List.mem_cons_self)
  exact not_done_of_error? error n (hcertain hn answered)

theorem Faulty.same_job (hcertain : Certain answer) (h : p.Faulty answer back unit role i e)
    (h' : p.Faulty answer back unit' role i e') :
    ∃ job ∈ p.jobs back role i, ∃ outcome outcome', answer job outcome ∧ answer job outcome' ∧
      outcome.error? unit i = some e ∧ outcome'.error? unit' i = some e' := by
  obtain @⟨before, after, job, polls, outcome, jobs, hbefore, answered, error⟩ := h
  obtain @⟨before', after', job', polls', outcome', jobs', hbefore', answered', error'⟩ := h'
  refine ⟨job, jobs ▸ List.mem_append_right _ List.mem_cons_self, outcome, outcome', answered, ?_, error, error'⟩
  -- Neither job can be among those before the other.
  have hlate : job ∉ before' := fun hmem =>
    let ⟨n, hn⟩ := hbefore'.of_mem hmem
    not_done_of_error? error n (hcertain hn answered)
  have hlate' : job' ∉ before := fun hmem =>
    let ⟨n, hn⟩ := hbefore.of_mem hmem
    not_done_of_error? error' n (hcertain hn answered')
  rcases List.append_eq_append_iff.mp (jobs.symm.trans jobs') with ⟨more, rfl, hmore⟩ | ⟨more, rfl, hmore⟩
  · cases more with
    | nil =>
      cases hmore
      exact answered'
    | cons x more =>
      cases hmore
      exact absurd (List.mem_append_right _ List.mem_cons_self) hlate
  · cases more with
    | nil =>
      cases hmore
      exact answered'
    | cons x more =>
      cases hmore
      exact absurd (List.mem_append_right _ List.mem_cons_self) hlate'

theorem Faulty.jobs_ne_nil (h : p.Faulty answer back unit role i e) : p.jobs back role i ≠ [] := by
  obtain ⟨jobs, -, -, -⟩ := h
  rw [jobs]
  exact List.append_ne_nil_of_right_ne_nil _ (List.cons_ne_nil _ _)

/-- Iterations in which somebody has something to do are those of the plan. -/
theorem Faulty.lt_iterations (hsize : p.tiles + 2 < Size.limit) (h : p.Faulty answer back unit role i e) : i < p.iterations := by
  have hjobs := h.jobs_ne_nil
  have hiterations := iterations_eq hsize
  cases role with
  | idle => exact absurd rfl hjobs
  | compute =>
    simp only [TilePlan.jobs] at hjobs
    split at hjobs
    · omega
    · exact absurd rfl hjobs
  | dataMover =>
    simp only [TilePlan.jobs] at hjobs
    split at hjobs
    · omega
    · split at hjobs
      · omega
      · exact absurd rfl hjobs

end TilePlan

namespace Worker

open TilePlan

variable {answer : Job → Outcome Nat → Prop} {p : TilePlan} {back : Nat → Tile} {unit : Nat} {role : Role}
  {deeds : List Deed} {w : Worker}

/-- What a unit that is healthy has behind it went as foretold. -/
theorem Course.clear (h : w.Course p back unit role none deeds) (hr : p.Resolved back role)
    (hdeeds : ∀ job outcome, .tried job outcome ∈ deeds → answer job outcome) (hhealthy : w.failure = none) {i : Nat}
    (hi : w.hasArrived i = true) : p.Clear answer back role i := by
  rw [Pipeline.hasArrived_iff] at hi
  cases h with
  | broken failure => rw [hhealthy] at failure; cases failure
  | between ports failure phase polls polled report did =>
    rcases hi with hi | ⟨-, hi⟩
    · exact ⟨_, succeed_of_turns polled (did ▸ hdeeds) hi⟩
    · rw [hi] at phase
      simp at phase
  | within ports failure phase ended tasks polls polled now counted report did =>
    subst did
    rcases hi with hi | ⟨rfl, hi⟩
    · exact ⟨_, succeed_of_turns polled (fun job outcome hmem => hdeeds job outcome (List.mem_append_left _ hmem)) hi⟩
    · rw [hi] at phase
      cases phase
      rw [List.append_nil] at tasks
      rw [Clear, ← hr.jobs_eq, tasks]
      refine ⟨now, succeed_of_tried (counted.trans (List.length_map ..).symm) fun job outcome hmem => ?_⟩
      exact hdeeds job outcome (List.mem_append_right _ (List.mem_cons_of_mem _ hmem))

/-- A unit that has come through healthy reports its events and the polls that its jobs are foretold to take. -/
theorem Course.reports (h : w.Course p back unit role none deeds)
    (hdeeds : ∀ job outcome, .tried job outcome ∈ deeds → answer job outcome) (hhealthy : w.failure = none)
    (hfinished : w.phase = .finished) :
    ∃ polls, (∀ k < w.iteration, Succeed answer (p.jobs back role k) (polls k)) ∧
      w.report = p.reportAt unit role w.iteration [] polls 0 := by
  cases h with
  | broken failure => rw [hhealthy] at failure; cases failure
  | within ports failure phase => rw [hfinished] at phase; cases phase
  | between ports failure phase polls polled report did =>
    exact ⟨polls, fun k hk => succeed_of_turns polled (did ▸ hdeeds) hk, report⟩

/-- A unit that has failed was stopped, or was foretold to fail. -/
theorem Course.faulty (h : w.Course p back unit role none deeds)
    (hdeeds : ∀ job outcome, .tried job outcome ∈ deeds → answer job outcome) {e : Error} (he : w.failure = some e)
    (hc : e.isCancelled = false) : ∃ i ≤ w.iteration, p.Faulty answer back unit role i e := by
  cases h with
  | between ports failure | within ports failure => rw [failure] at he; cases he
  | broken failure phase broke early after did =>
    obtain rfl := Option.some.inj (failure.symm.trans he)
    refine ⟨_, after, ?_⟩
    cases broke with
    | missing ports => cases ports
    | cancelled => cases hc
    | failed ports polled jobs tried error =>
      subst did
      refine ⟨jobs, succeed_of_tried tried fun job outcome hmem => hdeeds job outcome (List.mem_append_left _ ?_),
        hdeeds _ _ (List.mem_append_left _ ?_), error⟩
      · exact List.mem_append_left _ (List.mem_append_right _ (List.mem_cons_of_mem _ hmem))
      · exact List.mem_append_right _ (List.mem_singleton_self _)

end Worker

namespace Pipeline

open TilePlan

variable {σ : Type} {hardware : Hardware σ} {s t : Pipeline σ} {answer : Job → Outcome Nat → Prop} {back : Nat → Tile}
  {topology : Topology} {visits : List Nat} {n : Nat}

theorem of_deed?_tried {position : Nat} {m : Move} {job : Job} {outcome : Outcome Nat}
    (h : deed? hardware position s m = some (.tried job outcome)) :
    ∃ w task rest, s.workers[position]? = some w ∧ w.phase = .working task rest ∧ task.job = job ∧
      (hardware.attempt w.report.unit task.job s.world).1 = some outcome := by
  cases m with
  | raise token => cases h
  | step q =>
    obtain ⟨hq, hdeed⟩ := Option.ite_none_right_eq_some.mp h
    subst hq
    obtain ⟨w, hw, hdeed⟩ := Option.bind_eq_some_iff.mp hdeed
    split at hdeed
    · cases hdeed
    · rename_i task rest phase
      obtain ⟨answer, hanswer, htried⟩ := Option.map_eq_some_iff.mp hdeed
      cases htried
      exact ⟨w, task, rest, hw, phase, rfl, hanswer⟩
    · cases hdeed
    · cases hdeed

/-- Every unit keeps to its course, and all answers it has got were foretold. -/
def Foretold (answer : Job → Outcome Nat → Prop) (back : Nat → Tile) (topology : Topology) (s : Pipeline σ) : Prop :=
  ∀ (unit : Nat) (w : Worker), s.workers[unit]? = some w →
    ∃ deeds, w.Course s.plan back unit (topology.roleOf unit) none deeds ∧
      ∀ job outcome, .tried job outcome ∈ deeds → answer job outcome

theorem Foretold.mono {answer' : Job → Outcome Nat → Prop} (h : s.Foretold answer back topology)
    (himp : ∀ job outcome, answer job outcome → answer' job outcome) : s.Foretold answer' back topology := by
  intro unit w hw
  obtain ⟨deeds, hcourse, hdeeds⟩ := h unit w hw
  exact ⟨deeds, hcourse, fun job outcome hmem => himp job outcome (hdeeds job outcome hmem)⟩

theorem Foretold.move (h : s.Foretold answer back topology) (hl : Lockstep s visits)
    (hr : ∀ role, s.plan.Resolved back role)
    (hanswer : ∀ {unit : Nat} {w : Worker} {task : Task} {rest : List Task} {outcome : Outcome Nat},
      s.workers[unit]? = some w → w.phase = .working task rest →
      (hardware.attempt w.report.unit task.job s.world).1 = some outcome → answer task.job outcome)
    {m : Move} (hm : s.move? hardware m = some t) : t.Foretold answer back topology := by
  intro unit w' hw'
  have hlt : unit < s.workers.length := (move?_frame hm).2.2 ▸ (List.getElem?_eq_some_iff.mp hw').1
  obtain ⟨deeds, hcourse, hdeeds⟩ := h unit _ (List.getElem?_eq_getElem hlt)
  obtain ⟨v, hv, hcourse'⟩ := course_move hl (hr _) ⟨_, List.getElem?_eq_getElem hlt, hcourse⟩ hm
  obtain rfl := Option.some.inj (hw'.symm.trans hv)
  refine ⟨_, hcourse', fun job outcome hmem => ?_⟩
  rcases List.mem_append.mp hmem with hmem | hmem
  · exact hdeeds job outcome hmem
  · obtain ⟨w, task, rest, hw, phase, rfl, ha⟩ := of_deed?_tried (Option.mem_toList.mp hmem)
    exact hanswer hw phase ha

theorem Foretold.clear (h : s.Foretold answer back topology) (hr : ∀ role, s.plan.Resolved back role) {unit : Nat}
    {w : Worker} (hw : s.workers[unit]? = some w) (hhealthy : w.failure = none) {i : Nat} (hi : w.hasArrived i = true) :
    s.plan.Clear answer back (topology.roleOf unit) i := by
  obtain ⟨deeds, hcourse, hdeeds⟩ := h unit w hw
  exact hcourse.clear (hr _) hdeeds hhealthy hi

theorem Foretold.faulty (h : s.Foretold answer back topology) {unit : Nat} {w : Worker} (hw : s.workers[unit]? = some w)
    {e : Error} (he : w.failure = some e) (hc : e.isCancelled = false) :
    ∃ i ≤ w.iteration, s.plan.Faulty answer back unit (topology.roleOf unit) i e := by
  obtain ⟨deeds, hcourse, hdeeds⟩ := h unit w hw
  exact hcourse.faulty hdeeds he hc

/-- The reports of units that come through healthy do not depend on the run. -/
theorem Foretold.report_eq {s' : Pipeline σ} {visits' : List Nat} (hcertain : Certain answer)
    (h : s.Foretold answer back topology) (h' : s'.Foretold answer back topology) (hplan : s'.plan = s.plan)
    (hl : Lockstep s visits) (hl' : Lockstep s' visits') {unit : Nat} {w w' : Worker} (hw : s.workers[unit]? = some w)
    (hw' : s'.workers[unit]? = some w') (hhealthy : w.failure = none) (hhealthy' : w'.failure = none)
    (hfinished : w.phase = .finished) (hfinished' : w'.phase = .finished) : w'.report = w.report := by
  have hi := (hl.finished w (List.mem_of_getElem? hw)).mp hfinished
  have hi' := (hl'.finished w' (List.mem_of_getElem? hw')).mp hfinished'
  obtain ⟨deeds, hcourse, hdeeds⟩ := h unit w hw
  obtain ⟨deeds', hcourse', hdeeds'⟩ := h' unit w' hw'
  obtain ⟨polls, hpolls, hreport⟩ := hcourse.reports hdeeds hhealthy hfinished
  obtain ⟨polls', hpolls', hreport'⟩ := hcourse'.reports hdeeds' hhealthy' hfinished'
  rw [hplan] at hi' hpolls' hreport'
  rw [hi] at hpolls hreport
  rw [hi'] at hpolls' hreport'
  have hsame : ∀ k < s.plan.iterations, polls' k = polls k := fun k hk =>
    (hpolls' k hk).unique hcertain (hpolls k hk)
  rw [hreport, hreport', reportAt, reportAt, flatMap_range_congr hsame]

/-- The unit neither works nor has something to raise. -/
def AtRest (w : Worker) : Prop := w.phase ≠ .raising ∧ ∀ task rest, w.phase ≠ .working task rest

/-- What keeps the failures of units to one iteration: nobody works in a later one. -/
structure Decided (answer : Job → Outcome Nat → Prop) (back : Nat → Tile) (topology : Topology) (n : Nat)
    (s : Pipeline σ) : Prop where
  late : ∀ w ∈ s.workers, n < w.iteration → AtRest w
  early : ∀ (unit : Nat) (w : Worker) (e : Error), s.workers[unit]? = some w → w.failure = some e →
    e.isCancelled = false → ∃ i ≤ n, s.plan.Faulty answer back unit (topology.roleOf unit) i e

/-- Once anybody has gone past the iteration, the token is raised: the unit that is foretold to fail has come to its
    barrier. -/
theorem Decided.raised (h : s.Decided answer back topology n) (hcertain : Certain answer) (hl : Lockstep s visits)
    (hroster : Roster topology s) (hf : s.Foretold answer back topology) (hr : ∀ role, s.plan.Resolved back role)
    {unit : Nat} {e : Error} (hunit : unit < s.workers.length)
    (hfaulty : s.plan.Faulty answer back unit (topology.roleOf unit) n e) {w : Worker} (hw : w ∈ s.workers)
    (hpast : n < w.iteration) : s.isRaised = true := by
  have hv := List.getElem?_eq_getElem hunit
  have hmem := List.mem_of_getElem? hv
  have harrived := hl.met w hw _ hmem n hpast
  have hfailed : s.workers[unit].failure ≠ none := fun hhealthy =>
    hfaulty.not_clear hcertain (hf.clear hr hv hhealthy harrived)
  refine ((hroster.sound _ hmem).told hfailed).resolve_left fun hraising => ?_
  rcases hasArrived_iff.mp harrived with hlt | ⟨-, hwaiting⟩
  · exact (h.late _ hmem hlt).1 hraising
  · rw [hraising] at hwaiting
    cases hwaiting

/-- A unit that finds the token raised after iteration `n` neither works nor fails then. -/
theorem Stepped.late {position : Nat} {w : Worker} (h : Stepped hardware s position w t) (hw : s.workers[position]? = some w)
    (hlate : n < w.iteration → AtRest w) (hraised : n < w.iteration → s.isRaised = true) :
    ∃ w', t.workers = s.workers.set position w' ∧ (n < w'.iteration → AtRest w') ∧
      ∀ e, w'.failure = some e → e.isCancelled = false → w.failure = some e ∨ w'.iteration ≤ n := by
  have hself : s.workers = s.workers.set position w := (set_self hw).symm
  cases h with
  | checked phase =>
    refine ⟨_, rfl, ?_⟩
    by_cases hlt : n < w.iteration
    · have hstopped : w.checked s.plan (s.flags.isCancelled s.token) =
          { w with failure := some (.cancelled w.iteration), phase := .settling } := if_pos (hraised hlt)
      rw [hstopped]
      refine ⟨fun _ => ⟨nofun, nofun⟩, fun e he hc => ?_⟩
      cases he
      cases hc
    · have hiteration : (w.checked s.plan (s.flags.isCancelled s.token)).iteration = w.iteration := by
        unfold Worker.checked
        split
        · rfl
        · exact (w.proceed_kept _).2.1
      rw [hiteration]
      exact ⟨fun hx => absurd hx hlt, fun e _ _ => Or.inr (Nat.not_lt.mp hlt)⟩
  | @ended task rest outcome world phase answer =>
    have hnot : ¬n < w.iteration := fun hx => (hlate hx).2 task rest phase
    have hiteration : (w.ended task rest outcome).iteration = w.iteration := by
      cases outcome with
      | failed e | panicked => rfl
      | done m => exact (Worker.proceed_kept _ rest).2.1.trans (w.record_kept task.completes m).2.2.1
    refine ⟨_, rfl, ?_⟩
    rw [hiteration]
    exact ⟨fun hx => absurd hx hnot, fun e _ _ => Or.inr (Nat.not_lt.mp hnot)⟩
  | worked phase answer | settled phase answer => exact ⟨w, hself, hlate, fun e he _ => Or.inl he⟩
  | raised phase => exact ⟨_, rfl, fun _ => ⟨nofun, nofun⟩, fun e he _ => Or.inl he⟩
  | arrived phase answer => exact ⟨_, rfl, fun _ => ⟨nofun, nofun⟩, fun e he _ => Or.inl he⟩
  | passed phase met =>
    refine ⟨_, rfl, fun _ => ?_, fun e he _ => Or.inl he⟩
    unfold AtRest Worker.passed
    dsimp only
    split
    · exact ⟨nofun, nofun⟩
    · split <;> exact ⟨nofun, nofun⟩

theorem Decided.step (h : s.Decided answer back topology n) (hft : t.Foretold answer back topology)
    (hraised : ∀ w ∈ s.workers, n < w.iteration → s.isRaised = true) {position : Nat}
    (hm : s.step? hardware position = some t) : t.Decided answer back topology n := by
  obtain ⟨w, hw, hstep⟩ := stepped_of_step? hm
  have hmem := List.mem_of_getElem? hw
  obtain ⟨w', hworkers, hlate, hfailure⟩ := hstep.late hw (h.late w hmem) (hraised w hmem)
  refine ⟨fun v hv => ?_, fun unit v e hv he hc => ?_⟩
  · rw [hworkers] at hv
    rcases List.mem_or_eq_of_mem_set hv with hv | rfl
    · exact h.late v hv
    · exact hlate
  · rw [hstep.frame.1]
    by_cases hposition : position = unit
    · subst hposition
      obtain rfl := Option.some.inj (hv.symm.trans (hworkers ▸ getElem?_set_self hw))
      rcases hfailure e he hc with hbefore | hle
      · exact h.early position w e hw hbefore hc
      · obtain ⟨i, hi, hfaulty⟩ := hft.faulty hv he hc
        exact ⟨i, Nat.le_trans hi hle, hstep.frame.1 ▸ hfaulty⟩
    · rw [hworkers, List.getElem?_set_ne hposition] at hv
      exact h.early unit v e hv he hc

variable {before : CancelFlags} {token : CancelToken} {log : List Trouble}

/-- The run fails with the error of a unit, one that is foretold for the first iteration in which any unit is foretold to
    fail. -/
theorem Decided.failure? (h : s.Decided answer back topology n) (hcertain : Certain answer) (hl : Lockstep s visits)
    (hf : s.Foretold answer back topology) (hr : ∀ role, s.plan.Resolved back role)
    (hc : Contained before token s log) (hcause : s.isRaised = true → ∃ w ∈ s.workers, w.HasCause)
    (hfinished : s.isFinished = true) {unit : Nat} {e : Error} (hunit : unit < s.workers.length)
    (hfaulty : s.plan.Faulty answer back unit (topology.roleOf unit) n e)
    (hfirst : ∀ i < n, ∀ unit e, ¬s.plan.Faulty answer back unit (topology.roleOf unit) i e) :
    ∃ unit e, s.plan.Faulty answer back unit (topology.roleOf unit) n e ∧ e.isCancelled = false ∧
      s.results[unit]? = some (.error e) ∧ Run.failure? s.results = some e := by
  have hv := List.getElem?_eq_getElem hunit
  have hmem := List.mem_of_getElem? hv
  have hlast := (hl.finished _ hmem).mp (phase_of_isFinished hfinished hmem)
  have hn := hfaulty.lt_iterations (hr .idle).tiles_lt
  have harrived := hasArrived_iff.mpr (Or.inl (hlast ▸ hn))
  obtain ⟨e₀, he₀⟩ := Option.ne_none_iff_exists'.mp fun hhealthy =>
    hfaulty.not_clear hcertain (hf.clear hr hv hhealthy harrived)
  have hresult := List.mem_of_getElem? (results_eq_error.mpr ⟨_, hv, he₀⟩)
  obtain ⟨i, e', hfailure, hcancelled, hi, -⟩ := hc.reported_of_cause hresult hcause
  obtain ⟨w, hw, he'⟩ := results_eq_error.mp hi
  obtain ⟨k, hk, hfaulty'⟩ := h.early i w e' hw he' hcancelled
  have hkn : k = n := Nat.le_antisymm hk (Nat.le_of_not_lt fun hlt => hfirst k hlt i e' hfaulty')
  exact ⟨i, e', hkn ▸ hfaulty', hcancelled, hi, hfailure⟩

end Pipeline

end TileOffload
