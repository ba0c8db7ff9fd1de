import Mathlib.Data.List.Permutation
import TileOffload.Proofs.Stopped

/-! # Sessions

Runs one after another below one token, which others may raise at any moment, also while a run is going on. Main
statement: a run that fails says why, it says that it was stopped only if the token was raised by someone else, and
no run ever raises a token that was there before it. -/

namespace TileOffload

/-! ### Flags in a run -/

namespace CancelFlags

theorem isRaised_raise_own {f : CancelFlags} {u : CancelToken} (h : u.own < f.raised.size) :
    (f.raise u).isRaised u.own = true := by
  simp [isRaised, raise, h]

end CancelFlags

namespace Pipeline

variable {σ : Type} {hardware : Hardware σ} {s t : Pipeline σ}

theorem flags_of_move? {m : Move} (h : s.move? hardware m = some t) :
    (t.flags = s.flags ∨ ∃ u, t.flags = s.flags.raise u) ∧ ∀ u, m = .raise u → t.flags = s.flags.raise u := by
  cases m with
  | raise u =>
    cases h
    refine ⟨Or.inr ⟨u, rfl⟩, fun v hv => ?_⟩
    cases hv
    rfl
  | step position =>
    refine ⟨?_, nofun⟩
    obtain ⟨w, -, hstep⟩ := stepped_of_step? h
    cases hstep with
    | raised => exact Or.inr ⟨s.token, rfl⟩
    | _ => exact Or.inl rfl

theorem size_of_move? {m : Move} (h : s.move? hardware m = some t) :
    t.flags.raised.size = s.flags.raised.size := by
  rcases (flags_of_move? h).1 with h | ⟨u, h⟩ <;> rw [h]
  exact CancelFlags.size_raise _ _

theorem size_of_follow? {moves : List Move} (h : follow? hardware moves s = some t) :
    t.flags.raised.size = s.flags.raised.size := by
  induction moves generalizing s with
  | nil =>
    cases h
    rfl
  | cons m moves ih =>
    obtain ⟨v, hv, h⟩ := Option.bind_eq_some_iff.mp h
    rw [ih h, size_of_move? hv]

/-- Whatever is raised before a run or during it is raised afterwards. -/
theorem flags_of_follow? {moves : List Move} (h : follow? hardware moves s = some t) {flag : Nat}
    (hflag : flag < s.flags.raised.size)
    (hraised : s.flags.isRaised flag = true ∨ ∃ u, .raise u ∈ moves ∧ u.own = flag) :
    t.flags.isRaised flag = true := by
  induction moves generalizing s with
  | nil =>
    cases h
    rcases hraised with hraised | ⟨u, hu, -⟩
    · exact hraised
    · cases hu
  | cons m moves ih =>
    obtain ⟨v, hv, h⟩ := Option.bind_eq_some_iff.mp h
    obtain ⟨hkept, hdone⟩ := flags_of_move? hv
    refine ih h (Nat.lt_of_lt_of_eq hflag (size_of_move? hv).symm) ?_
    rcases hraised with hraised | ⟨u, hu, rfl⟩
    · left
      rcases hkept with hv | ⟨u, hv⟩ <;> rw [hv]
      · exact hraised
      · exact CancelFlags.isRaised_raise hraised
    · rcases List.mem_cons.mp hu with rfl | hu
      · rw [hdone u rfl]
        exact Or.inl (CancelFlags.isRaised_raise_own hflag)
      · exact Or.inr ⟨u, hu, rfl⟩

end Pipeline

/-! ### Sessions -/

/-- A run that has come to its end. -/
structure Completed where
  /-- The run as it was set up. -/
  start : Run
  moves : List Move
  final : Pipeline World

namespace Completed

/-- What the run returns. -/
def result (x : Completed) : Except Error RunReport := ({ x.start with pipeline := x.final } : Run).result

/-- What made the run fail, one after another. -/
def troubles (x : Completed) : List Pipeline.Trouble :=
  Pipeline.history x.start.hardware (Pipeline.trouble? x.start.hardware) x.moves x.start.pipeline

end Completed

/-- What happens below a token: a run that is refused before its units start, a run that comes to its end, or a token
    that someone raises between two runs. -/
inductive Occurrence
  | refused (e : Error)
  | ended (x : Completed)
  | raised (u : CancelToken)

namespace Occurrence

/-- Someone other than the units of a run raises the token. -/
def Raises : Occurrence → CancelToken → Prop
  | refused _, _ => False
  | ended x, u => .raise u ∈ x.moves
  | raised v, u => v = u

/-- What is returned, by a run. -/
def result? : Occurrence → Option (Except Error RunReport)
  | refused e => some (.error e)
  | ended x => some x.result
  | raised _ => none

end Occurrence

/-- What may happen next below a token. Nobody but the units of a run has the run's own token, which is the next to be
    made; apart from that anyone may raise any token, and the units may go on in any order. -/
inductive Happens (token : CancelToken) (f : CancelFlags) : Occurrence → CancelFlags → Prop
  | refused {c : Cluster} {d : Dataset} {k : Kernel} {config : PipelineConfig} {e : Error}
      (refusal : c.prepare d k config token f = .error e) : Happens token f (.refused e) f
  | ended {c : Cluster} {d : Dataset} {k : Kernel} {config : PipelineConfig} {r : Run} {moves : List Move}
      {s : Pipeline World} (genuine : k.Genuine) (prepared : c.prepare d k config token f = .ok r)
      (outside : ∀ u, .raise u ∈ moves → u.own ≠ f.raised.size)
      (followed : Pipeline.follow? r.hardware moves r.pipeline = some s) (finished : s.isFinished = true) :
      Happens token f (.ended ⟨r, moves, s⟩) s.flags
  | raised (u : CancelToken) : Happens token f (.raised u) (f.raise u)

/-- Whatever happens below a token, one after another. -/
inductive Session (token : CancelToken) (f₀ : CancelFlags) : List Occurrence → CancelFlags → Prop
  | start : Session token f₀ [] f₀
  | next {log : List Occurrence} {f f' : CancelFlags} {o : Occurrence} (before : Session token f₀ log f)
      (happens : Happens token f o f') : Session token f₀ (log ++ [o]) f'

/-- The flag was raised at first, or it is the flag of a token that someone has raised from outside. -/
def RaisedOutside (f₀ : CancelFlags) (log : List Occurrence) (flag : Nat) : Prop :=
  f₀.isRaised flag = true ∨ ∃ o ∈ log, ∃ u, o.Raises u ∧ u.own = flag

/-- The token, or one above it, was raised from outside. -/
def CancelledOutside (token : CancelToken) (f₀ : CancelFlags) (log : List Occurrence) : Prop :=
  ∃ flag ∈ token.own :: token.above, RaisedOutside f₀ log flag

variable {token : CancelToken} {f f' f₀ : CancelFlags} {o : Occurrence} {log past later : List Occurrence} {flag : Nat}
  {e : Error} {x : Completed}

/-! ### One run -/

namespace Happens

theorem size_le (h : Happens token f o f') : f.raised.size ≤ f'.raised.size := by
  cases h with
  | refused => exact Nat.le_refl _
  | raised u => exact Nat.le_of_eq (CancelFlags.size_raise f u).symm
  | ended genuine prepared outside followed finished =>
    obtain ⟨backing, bytes, plan, personality, m, -, rfl⟩ := Cluster.prepare_eq_ok.mp prepared
    rw [Pipeline.size_of_follow? followed, Cluster.size_setUp]
    exact Nat.le_succ _

/-- A flag is raised by nothing that happens below a token but from outside. -/
theorem isRaised_iff (h : Happens token f o f') (hflag : flag < f.raised.size) :
    f'.isRaised flag = true ↔ f.isRaised flag = true ∨ ∃ u, o.Raises u ∧ u.own = flag := by
  cases h with
  | refused => simp [Occurrence.Raises]
  | raised u =>
    constructor
    · intro hraised
      rcases CancelFlags.isRaised_of_raise hraised with hraised | hown
      · exact Or.inl hraised
      · exact Or.inr ⟨u, rfl, hown⟩
    · rintro (hraised | ⟨v, rfl, rfl⟩)
      · exact CancelFlags.isRaised_raise hraised
      · exact CancelFlags.isRaised_raise_own hflag
  | @ended c d k config r moves s genuine prepared outside followed finished =>
    obtain ⟨hcontained, -⟩ := Cluster.contained_of_follow? genuine prepared outside followed
    constructor
    · intro hraised
      rcases hcontained.outside flag (Nat.ne_of_lt hflag) hraised with hraised | ⟨u, hu, hown⟩
      · exact Or.inl hraised
      · exact Or.inr ⟨u, Pipeline.mem_of_trouble hu, hown⟩
    · intro hraised
      obtain ⟨backing, bytes, plan, personality, m, hplaced, rfl⟩ := Cluster.prepare_eq_ok.mp prepared
      refine Pipeline.flags_of_follow? followed ?_ (hraised.imp_left fun hraised => ?_)
      · rw [Cluster.size_setUp]
        exact Nat.lt_succ_of_lt hflag
      · rw [Cluster.flags_setUp hplaced.iterations_pos]
        exact (CancelFlags.isRaised_child f token flag).trans hraised

theorem reported (h : Happens token f (.ended x) f')
    (hlow : ∀ flag ∈ token.own :: token.above, f'.isRaised flag = false) {e₀ : Error}
    (he₀ : .error e₀ ∈ x.final.results) :
    ∃ i e, x.result = .error e ∧ e.isCancelled = false ∧ x.final.results[i]? = some (.error e) ∧
      .failed i e ∈ x.troubles := by
  cases h with
  | ended genuine prepared outside followed finished =>
    obtain ⟨hcontained, -⟩ := Cluster.contained_of_follow? genuine prepared outside followed
    obtain ⟨i, e, hreported, hc, hresult, hfailed⟩ := hcontained.reported he₀ hlow
    exact ⟨i, e, Run.result_of_failure? hreported, hc, hresult, hfailed⟩

theorem cancelled (h : Happens token f o f') (he : o.result? = some (.error e)) (hc : e.isCancelled = true) :
    ∃ flag ∈ token.own :: token.above, f'.isRaised flag = true := by
  cases h with
  | raised => cases he
  | refused refusal =>
    cases he
    rw [Cluster.genuine_prepare _ _ _ _ _ _ e refusal] at hc
    cases hc
  | ended genuine prepared outside followed finished =>
    refine Classical.byContradiction fun hlow => ?_
    have hlow : ∀ flag ∈ token.own :: token.above, CancelFlags.isRaised _ flag = false := fun flag hflag =>
      Bool.eq_false_iff.mpr fun hraised => hlow ⟨flag, hflag, hraised⟩
    obtain ⟨hcontained, hfault⟩ := Cluster.contained_of_follow? genuine prepared outside followed
    have hfailure := Run.failure?_of_result hfault (Option.some.inj he) hc
    obtain ⟨i, e', hreported, hc', -⟩ := hcontained.reported (Run.mem_of_failure? hfailure) hlow
    obtain rfl := Option.some.inj (hfailure.symm.trans hreported)
    rw [hc] at hc'
    cases hc'

/-- A run that starts below a raised token says that it was stopped in the first iteration. -/
theorem stopped (h : Happens token f (.ended x) f') (hraised : f.isCancelled token = true) :
    x.result = .error (.cancelled 0) := by
  cases h with
  | ended genuine prepared outside followed finished =>
    obtain ⟨⟨bound, hbound⟩, -⟩ := Cluster.run_of_raised prepared hraised
    exact (hbound _ _ followed).2.2 finished

end Happens

/-! ### Any number of runs -/

theorem raisedOutside_append : RaisedOutside f₀ (log ++ [o]) flag ↔
    RaisedOutside f₀ log flag ∨ ∃ u, o.Raises u ∧ u.own = flag := by
  constructor
  · rintro (hraised | ⟨o', ho, hu⟩)
    · exact Or.inl (Or.inl hraised)
    · rcases List.mem_append.mp ho with ho | ho
      · exact Or.inl (Or.inr ⟨o', ho, hu⟩)
      · obtain rfl := List.mem_singleton.mp ho
        exact Or.inr hu
  · rintro ((hraised | ⟨o', ho, hu⟩) | hu)
    · exact Or.inl hraised
    · exact Or.inr ⟨o', List.mem_append_left _ ho, hu⟩
    · exact Or.inr ⟨o, List.mem_append_right _ (List.mem_singleton_self _), hu⟩

theorem CancelledOutside.mono (h : CancelledOutside token f₀ past) (hpast : ∀ o ∈ past, o ∈ log) :
    CancelledOutside token f₀ log := by
  obtain ⟨flag, hflag, hraised⟩ := h
  refine ⟨flag, hflag, hraised.imp_right ?_⟩
  rintro ⟨o, ho, hu⟩
  exact ⟨o, hpast o ho, hu⟩

namespace Session

theorem size_le (h : Session token f₀ log f) : f₀.raised.size ≤ f.raised.size := by
  induction h with
  | start => exact Nat.le_refl _
  | next _ happens ih => exact Nat.le_trans ih happens.size_le

theorem isRaised_iff (h : Session token f₀ log f) (hflag : flag < f₀.raised.size) :
    f.isRaised flag = true ↔ RaisedOutside f₀ log flag := by
  induction h with
  | start => simp [RaisedOutside]
  | next before happens ih =>
    rw [raisedOutside_append, happens.isRaised_iff (Nat.lt_of_lt_of_le hflag before.size_le), ih]

theorem raised_iff (h : Session token f₀ log f) (hknows : f₀.Knows token) :
    (∃ flag ∈ token.own :: token.above, f.isRaised flag = true) ↔ CancelledOutside token f₀ log :=
  exists_congr fun flag => and_congr_right fun hflag => h.isRaised_iff (hknows flag hflag)

/-- Whatever has happened did so at the end of a session. -/
theorem split (h : Session token f₀ log f) (hlog : log = past ++ o :: later) :
    ∃ f₁ f₂, Session token f₀ past f₁ ∧ Happens token f₁ o f₂ := by
  -- On the session, from its end: what has happened is the last thing, or is in the session before it.
  induction h generalizing later with
  | start => cases past <;> cases hlog
  | @next log f f' o' before happens ih =>
    rcases List.eq_nil_or_concat later with rfl | ⟨rest, last, rfl⟩
    · obtain ⟨rfl, hlast⟩ := List.append_inj' hlog rfl
      cases hlast
      exact ⟨f, f', before, happens⟩
    · rw [List.concat_eq_append, ← List.cons_append, ← List.append_assoc] at hlog
      exact ih (List.append_inj' hlog rfl).1

end Session

/-- Any number of runs below one token, on any clusters, with units that go on in any order and others who raise tokens
    at any moment. A token that was there at first is raised in the end just if it was then, or was raised from outside.
    A run says that it was stopped only if its token or one above it was raised from outside before the run's end; if
    not, a unit that fails makes the run return a cause, with which some unit's own work has ended. A run that starts
    after that says that it was stopped in the first iteration, and it does come to its end, whichever unit goes on. -/
theorem failures_reported_and_contained (hknows : f₀.Knows token) (h : Session token f₀ log f) :
    (∀ flag < f₀.raised.size, f.isRaised flag = true ↔ RaisedOutside f₀ log flag) ∧
    (∀ past o later, log = past ++ o :: later →
      (∀ e, o.result? = some (.error e) → e.isCancelled = true → CancelledOutside token f₀ (past ++ [o])) ∧
      ∀ x, o = .ended x →
        (¬CancelledOutside token f₀ (past ++ [o]) → ∀ e₀, .error e₀ ∈ x.final.results →
          ∃ i e, x.result = .error e ∧ e.isCancelled = false ∧ x.final.results[i]? = some (.error e) ∧
            .failed i e ∈ x.troubles) ∧
        (CancelledOutside token f₀ past → x.result = .error (.cancelled 0))) ∧
    (¬CancelledOutside token f₀ log → ∀ o ∈ log, ∀ e, o.result? = some (.error e) → e.isCancelled = false) ∧
    (CancelledOutside token f₀ log → ∀ (c : Cluster) (d : Dataset) (k : Kernel) (config : PipelineConfig) (r : Run),
      c.prepare d k config token f = .ok r →
        (∃ bound, ∀ (moves : List Move) (s : Pipeline World), Pipeline.follow? r.hardware moves r.pipeline = some s →
          moves.countP Move.isStep ≤ bound ∧ (s.isFinished = false → ∃ unit t, s.step? r.hardware unit = some t)) ∧
        ∃ patience flags', c.run patience d k config token f = some (.error (.cancelled 0), flags')) := by
  have hcancelled : ∀ {past o later}, log = past ++ o :: later → ∀ e, o.result? = some (.error e) →
      e.isCancelled = true → CancelledOutside token f₀ (past ++ [o]) := by
    intro past o later hlog e he hc
    obtain ⟨f₁, f₂, before, happens⟩ := h.split hlog
    exact ((before.next happens).raised_iff hknows).mp (happens.cancelled he hc)
  refine ⟨fun flag hflag => h.isRaised_iff hflag, fun past o later hlog => ⟨hcancelled hlog, ?_⟩,
    fun hlow o ho e he => ?_, fun houtside c d k config r hr => ?_⟩
  · rintro x rfl
    obtain ⟨f₁, f₂, before, happens⟩ := h.split hlog
    refine ⟨fun hlow e₀ he₀ => happens.reported (fun flag hflag => ?_) he₀, fun houtside => happens.stopped ?_⟩
    · refine Bool.eq_false_iff.mpr fun hraised => hlow ?_
      exact ((before.next happens).raised_iff hknows).mp ⟨flag, hflag, hraised⟩
    · exact CancelFlags.isCancelled_iff.mpr ((before.raised_iff hknows).mpr houtside)
  · obtain ⟨past, later, hlog⟩ := List.append_of_mem ho
    refine Bool.eq_false_iff.mpr fun hc => hlow ((hcancelled hlog e he hc).mono fun o' ho' => ?_)
    rw [hlog]
    rcases List.mem_append.mp ho' with ho' | ho'
    · exact List.mem_append_left _ ho'
    · rw [List.mem_singleton.mp ho']
      exact List.mem_append_right _ List.mem_cons_self
  · have hraised := CancelFlags.isCancelled_iff.mpr ((h.raised_iff hknows).mpr houtside)
    obtain ⟨⟨bound, hbound⟩, hrun⟩ := Cluster.run_of_raised hr hraised
    exact ⟨⟨bound, fun moves s hmoves => ⟨(hbound moves s hmoves).1, (hbound moves s hmoves).2.1⟩⟩, hrun⟩

/-! ### A refused transfer -/

theorem World.attempt_refused {w : World} (topology : Topology) (engine : Engine) (unit : Nat) {x : Transfer}
    {e : Error} (h : w.queue.start w.memory x = .error e) :
    (World.hardware topology engine).attempt unit (.transfer x) w = (some (.failed e), w) := by
  simp only [Hardware.attempt, World.hardware, World.transfer, h]

namespace Cluster

/-- Two units, with a scratchpad where there is no memory. -/
def unplugged : Cluster :=
  .make ⟨2, 0, 1, Nat.zero_lt_two, Nat.one_lt_two, Nat.zero_ne_one⟩
    ⟨0, 64, 8, Scratchpad.isPowerOfTwo_eight, by decide, by decide, by decide⟩

/-- One product, in a single tile. -/
def single : Dataset := ⟨[2], [3], [6]⟩

def singlePlan : TilePlan where
  length := 1
  tileLength := 1
  tiles := 1
  depth := .double
  slots := 1
  layout := ⟨[("a", ⟨0, 0, 4⟩), ("b", ⟨0, 8, 4⟩), ("o", ⟨0, 16, 4⟩)], 20, 64⟩
  a := ⟨0, 0, 4⟩
  b := ⟨0, 8, 4⟩
  o := ⟨0, 16, 4⟩
  backing := ⟨0x80000000, 0x80000008, 0x80000010⟩

/-- The moves of two units that have both been stopped, from the first barrier on. -/
def leaving : List Move := [0, 0, 1, 0, 0, 0, 1, 1, 0, 0, 0, 1, 1, 0, 1].map .step

/-- The run of the product, set up below a token with another one above it. -/
def unpluggedRun (flags : CancelFlags) (m : Memory) : Run :=
  unplugged.setUp single Kernel.mac (.tiled 1) ⟨1, [0]⟩ flags singlePlan .mac m

theorem unplugged_refuses {m : Memory} (hm : m.Snax 24) (q : TransferQueue) :
    ∃ fault, q.start m ⟨0, 0x80000000, 4⟩ = .error (.transferFailed fault) := by
  have hnowhere : m.contains 0 4 = false := by
    rw [Memory.contains_eq_any, hm.1]
    decide
  unfold TransferQueue.start TransferQueue.refusal?
  by_cases hsource : m.contains 0x80000000 4 = true
  · exact ⟨_, by simp [hsource, hnowhere]; rfl⟩
  · exact ⟨_, by simp [hsource]; rfl⟩

/-- The mover's first transfer is refused, and the other unit is stopped. -/
theorem unplugged_fails {m : Memory} (hm : m.Snax 24) :
    ∃ s fault, Pipeline.follow? (unpluggedRun ⟨#[false, false]⟩ m).hardware ([0, 0, 0, 1].map .step ++ leaving)
        (unpluggedRun ⟨#[false, false]⟩ m).pipeline = some s ∧ s.isFinished = true ∧
      s.results = [.error (.transferFailed fault), .error (.cancelled 0)] ∧ s.flags = ⟨#[false, false, true]⟩ := by
  obtain ⟨fault, hrefused⟩ := unplugged_refuses hm .empty
  let start := (unpluggedRun ⟨#[false, false]⟩ m).pipeline
  let mover : Worker := ⟨0, .working ⟨.transfer ⟨0, 0x80000000, 4⟩, none⟩
    [⟨.transfer ⟨8, 0x80000008, 4⟩, some (.load, 0)⟩], none, ⟨0, .dataMover, #[], 0, 0⟩⟩
  have hchecked : start.move? (unpluggedRun ⟨#[false, false]⟩ m).hardware (.step 0) =
      some (start.put 0 mover start.world) := by cbv
  have hfailed : (start.put 0 mover start.world).move? (unpluggedRun ⟨#[false, false]⟩ m).hardware (.step 0) =
      some ((start.put 0 mover start.world).put 0 (mover.fail (.transferFailed fault)) start.world) := by
    have hanswer := World.attempt_refused (w := start.world) unplugged.topology
      ⟨Kernel.mac, .standard, unplugged.clock⟩ 0 hrefused
    exact Pipeline.step?_ended (s := start.put 0 mover start.world) (w := mover) rfl rfl hanswer
  have hleft : ∃ s, Pipeline.follow? (unpluggedRun ⟨#[false, false]⟩ m).hardware ([0, 1].map .step ++ leaving)
        ((start.put 0 mover start.world).put 0 (mover.fail (.transferFailed fault)) start.world) = some s ∧
      s.isFinished = true ∧ s.results = [.error (.transferFailed fault), .error (.cancelled 0)] ∧
      s.flags = ⟨#[false, false, true]⟩ := by
    refine ⟨?left, ?moves, ?_, ?_, ?_⟩
    case moves =>
      cbv
      rfl
    all_goals rfl
  obtain ⟨s, hleft, hend⟩ := hleft
  refine ⟨s, fault, ?_, hend⟩
  exact Option.bind_eq_some_iff.mpr ⟨_, hchecked, Option.bind_eq_some_iff.mpr ⟨_, hfailed, hleft⟩⟩

theorem unplugged_stops (m : Memory) :
    ∃ s, Pipeline.follow? (unpluggedRun ⟨#[true, false, true]⟩ m).hardware ([0, 1].map .step ++ leaving)
        (unpluggedRun ⟨#[true, false, true]⟩ m).pipeline = some s ∧ s.isFinished = true := by
  refine ⟨?left, ?moves, ?_⟩
  case moves =>
    cbv
    rfl
  rfl

end Cluster

/-- The run returns why its transfer was refused and raises nobody else's token. Then the token above is raised from
    outside, and the next run returns that it was stopped. -/
theorem refusal_reported_and_contained :
    ∃ x y f, Session ⟨1, [0]⟩ ⟨#[false, false]⟩ [.ended x, .raised ⟨0, []⟩, .ended y] f ∧
      (∃ i e, x.result = .error e ∧ e.isCancelled = false ∧ .failed i e ∈ x.troubles) ∧
      x.final.flags.isCancelled ⟨1, [0]⟩ = false ∧ y.result = .error (.cancelled 0) := by
  obtain ⟨m, hplaced⟩ := Cluster.exists_placed (c := Cluster.unplugged) (d := Cluster.single) (k := Kernel.mac)
    (by rfl) (show TilePlan.make 1 (.tiled 1) _ _ = .ok Cluster.singlePlan from rfl) (by rfl) rfl rfl
  have hprepare : ∀ flags, Cluster.unplugged.prepare Cluster.single Kernel.mac (.tiled 1) ⟨1, [0]⟩ flags =
      .ok (Cluster.unpluggedRun flags m) := fun flags => Cluster.prepare_eq_ok.mpr ⟨_, _, _, _, m, hplaced, rfl⟩
  have hsteps : ∀ (positions : List Nat) (u : CancelToken), Move.raise u ∉ positions.map .step ++ Cluster.leaving := by
    simp [Cluster.leaving]
  have hgenuine : Kernel.mac.Genuine := Kernel.BuiltIn.genuine .mac
  obtain ⟨s, fault, hs, hfinished, hresults, hflags⟩ := Cluster.unplugged_fails (hplaced.inputs rfl rfl).1
  obtain ⟨t, ht, htfinished⟩ := Cluster.unplugged_stops m
  have hfailed : Happens ⟨1, [0]⟩ ⟨#[false, false]⟩
      (.ended ⟨Cluster.unpluggedRun ⟨#[false, false]⟩ m, [0, 0, 0, 1].map .step ++ Cluster.leaving, s⟩)
      ⟨#[false, false, true]⟩ :=
    hflags ▸ .ended hgenuine (hprepare _) (fun u hu => absurd hu (hsteps _ u)) hs hfinished
  have hraised : Happens ⟨1, [0]⟩ ⟨#[false, false, true]⟩ (.raised ⟨0, []⟩) ⟨#[true, false, true]⟩ := .raised ⟨0, []⟩
  have hstopped : Happens ⟨1, [0]⟩ ⟨#[true, false, true]⟩
      (.ended ⟨Cluster.unpluggedRun ⟨#[true, false, true]⟩ m, [0, 1].map .step ++ Cluster.leaving, t⟩) t.flags :=
    .ended hgenuine (hprepare _) (fun u hu => absurd hu (hsteps _ u)) ht htfinished
  have hsession := ((Session.start.next hfailed).next hraised).next hstopped
  have hknows : CancelFlags.Knows ⟨#[false, false]⟩ ⟨1, [0]⟩ := by
    unfold CancelFlags.Knows
    decide
  obtain ⟨-, hruns, -⟩ := failures_reported_and_contained hknows hsession
  refine ⟨_, _, _, hsession, ?_, ?_, ?_⟩
  · have hlow : ¬CancelledOutside ⟨1, [0]⟩ ⟨#[false, false]⟩
        [.ended ⟨Cluster.unpluggedRun ⟨#[false, false]⟩ m, [0, 0, 0, 1].map .step ++ Cluster.leaving, s⟩] := by
      rintro ⟨flag, hflag, hraised | ⟨o, ho, u, hu, -⟩⟩
      · simp only [List.mem_cons, List.not_mem_nil, or_false] at hflag
        rcases hflag with rfl | rfl <;> cases hraised
      · obtain rfl := List.mem_singleton.mp ho
        exact hsteps _ u hu
    obtain ⟨-, hreports⟩ := hruns [] _ _ rfl
    have herror : .error (.transferFailed fault) ∈ s.results := hresults ▸ List.mem_cons_self
    obtain ⟨i, e, hresult, hc, -, hfailed⟩ := (hreports _ rfl).1 hlow _ herror
    exact ⟨i, e, hresult, hc, hfailed⟩
  · rw [show Completed.final _ = s from rfl, hflags]
    rfl
  · refine ((hruns [_, _] _ [] rfl).2 _ rfl).2 ⟨0, by decide, Or.inr ⟨_, List.mem_cons_of_mem _ List.mem_cons_self, ?_⟩⟩
    exact ⟨⟨0, []⟩, rfl, rfl⟩

end TileOffload
