import Mathlib.Algebra.Ring.Nat
import TileOffload.Pipeline

/-! # Steps of a pipeline

What a unit's step can be, one case for each phase, and what is reached by moves one after another. Notes
taken of the moves give the history of a run. Driving the units comes to an end when every step leaves less to
do. -/

namespace TileOffload

/-- Whether a unit moves. -/
def Move.isStep : Move → Bool
  | .step _ => true
  | .raise _ => false

theorem sum_map_le {α : Type} {f g : α → Nat} {l : List α} (h : ∀ (j : Nat) (z : α), l[j]? = some z → g z ≤ f z) :
    (l.map g).sum ≤ (l.map f).sum := by
  induction l with
  | nil => exact Nat.le_refl _
  | cons x l ih =>
    simp only [List.map_cons, List.sum_cons]
    exact Nat.add_le_add (h 0 x rfl) (ih fun j z hz => h (j + 1) z hz)

/-- A sum decreases with one of its summands when no other grows. -/
theorem sum_map_set_lt {α : Type} {f g : α → Nat} {x y : α} {l : List α} {i : Nat} (hx : l[i]? = some x) (hlt : g y < f x)
    (hle : ∀ (j : Nat) (z : α), j ≠ i → l[j]? = some z → g z ≤ f z) : ((l.set i y).map g).sum < (l.map f).sum := by
  induction l generalizing i with
  | nil => cases hx
  | cons z l ih =>
    cases i with
    | zero =>
      cases hx
      simp only [List.set_cons_zero, List.map_cons, List.sum_cons]
      exact Nat.add_lt_add_of_lt_of_le hlt (sum_map_le fun j v hv => hle (j + 1) v (Nat.succ_ne_zero j) hv)
    | succ i =>
      simp only [List.set_cons_succ, List.map_cons, List.sum_cons]
      refine Nat.add_lt_add_of_le_of_lt (hle 0 z (Nat.succ_ne_zero i).symm rfl) (ih hx fun j v hne hv => ?_)
      exact hle (j + 1) v (fun h => hne (Nat.succ.inj h)) hv

/-- The sum that tells the iterations of a plan is exact but for the two largest numbers of tiles. -/
theorem TilePlan.iterations_eq {p : TilePlan} (h : p.tiles + 2 < Size.limit) : p.iterations = p.tiles + 2 :=
  Size.wrap_of_lt h

namespace Worker

variable {w : Worker} {plan : TilePlan}

theorem entered_kept (w : Worker) (plan : TilePlan) :
    (w.entered plan).report = w.report ∧ (w.entered plan).iteration = w.iteration ∧
      (w.entered plan).failure = w.failure := by
  unfold entered
  split <;> exact ⟨rfl, rfl, rfl⟩

theorem entered_of_pos (h : 0 < plan.iterations) : w.entered plan = w := if_neg (Nat.ne_of_gt h)

theorem phase_create (unit : Nat) (role : Role) (hasTransfers hasDevice : Bool) :
    (create unit role hasTransfers hasDevice).phase = .raising ∨
      (create unit role hasTransfers hasDevice).phase = .checking := by
  unfold create
  dsimp only
  split
  · exact Or.inl rfl
  · exact Or.inr rfl

end Worker

namespace Pipeline

variable {σ ε : Type} {hardware : Hardware σ} {s t : Pipeline σ}

/-- Where a plan has an iteration, units begin with the first and no token is raised yet. -/
theorem create_of_pos {plan : TilePlan} (h : 0 < plan.iterations) (topology : Topology) (units : List Nat)
    (hardware : Hardware σ) (token : CancelToken) (flags : CancelFlags) (world : σ) :
    create plan topology units hardware token flags world =
      { plan, token, flags, world
        workers := units.map fun u => .create u (topology.roleOf u) (hardware.hasTransfers u) (hardware.hasDevice u) } := by
  have hnone : ((units.map fun u => Worker.create u (topology.roleOf u) (hardware.hasTransfers u)
      (hardware.hasDevice u)).any fun w => w.phase == .finished && w.failure.isSome) = false := by
    rw [List.any_map, List.any_eq_false]
    intro u _
    rcases Worker.phase_create u (topology.roleOf u) (hardware.hasTransfers u) (hardware.hasDevice u) with hp | hp <;>
      simp [hp]
  simp only [create, Worker.entered_of_pos h, hnone, Bool.false_eq_true, if_false]

theorem set_self {α : Type} {l : List α} {i : Nat} {x : α} (h : l[i]? = some x) : l.set i x = l := by
  obtain ⟨hlt, rfl⟩ := List.getElem?_eq_some_iff.mp h
  exact List.set_getElem_self hlt

theorem getElem?_set_self {α : Type} {l : List α} {i : Nat} {x y : α} (h : l[i]? = some x) : (l.set i y)[i]? = some y :=
  List.getElem?_set_self (List.getElem?_eq_some_iff.mp h).1

/-- A step of the unit at a position, from the worker `w` it is before the step. -/
inductive Stepped (hardware : Hardware σ) (s : Pipeline σ) (position : Nat) (w : Worker) : Pipeline σ → Prop
  | checked (phase : w.phase = .checking) :
    Stepped hardware s position w (s.put position (w.checked s.plan (s.flags.isCancelled s.token)) s.world)
  | worked {task : Task} {rest : List Task} {world : σ} (phase : w.phase = .working task rest)
      (answer : hardware.attempt w.report.unit task.job s.world = (none, world)) :
    Stepped hardware s position w { s with world }
  | ended {task : Task} {rest : List Task} {outcome : Outcome Nat} {world : σ} (phase : w.phase = .working task rest)
      (answer : hardware.attempt w.report.unit task.job s.world = (some outcome, world)) :
    Stepped hardware s position w (s.put position (w.ended task rest outcome) world)
  | raised (phase : w.phase = .raising) :
    Stepped hardware s position w
      ({ s with flags := s.flags.raise s.token }.put position { w with phase := .settling } s.world)
  | settled {world : σ} (phase : w.phase = .settling) (answer : hardware.settle w.report.unit s.world = (false, world)) :
    Stepped hardware s position w { s with world }
  | arrived {world : σ} (phase : w.phase = .settling) (answer : hardware.settle w.report.unit s.world = (true, world)) :
    Stepped hardware s position w (s.put position { w with phase := .waiting } world)
  | passed (phase : w.phase = .waiting) (met : ∀ v ∈ s.workers, v.hasArrived w.iteration = true) :
    Stepped hardware s position w (s.put position (w.passed s.plan) s.world)

theorem stepped_of_step? {position : Nat} (h : s.step? hardware position = some t) :
    ∃ w, s.workers[position]? = some w ∧ Stepped hardware s position w t := by
  obtain ⟨w, hw, h⟩ := Option.bind_eq_some_iff.mp h
  refine ⟨w, hw, ?_⟩
  unfold stepWorker at h
  split at h
  · rename_i hp
    cases h
    exact .checked hp
  · rename_i task rest hp
    split at h
    · rename_i world ha
      cases h
      exact .worked hp ha
    · rename_i outcome world ha
      cases h
      exact .ended hp ha
  · rename_i hp
    cases h
    exact .raised hp
  · rename_i hp
    split at h
    · rename_i world ha
      cases h
      exact .settled hp ha
    · rename_i world ha
      cases h
      exact .arrived hp ha
  · rename_i hp
    split at h
    · rename_i hall
      cases h
      exact .passed hp (List.all_eq_true.mp hall)
    · cases h
  · cases h

/-- A unit that neither waits nor is through can take a step, and so can one that waits for nobody. -/
theorem step?_isSome {position : Nat} {w : Worker} (hw : s.workers[position]? = some w) (hf : w.phase ≠ .finished)
    (hmet : w.phase = .waiting → ∀ v ∈ s.workers, v.hasArrived w.iteration = true) :
    ∃ t, s.step? hardware position = some t := by
  simp only [step?, hw, Option.bind_some]
  unfold stepWorker
  split
  · exact ⟨_, rfl⟩
  · split <;> exact ⟨_, rfl⟩
  · exact ⟨_, rfl⟩
  · split <;> exact ⟨_, rfl⟩
  · rename_i hp
    rw [if_pos (List.all_eq_true.mpr (hmet hp))]
    exact ⟨_, rfl⟩
  · rename_i hp
    exact absurd hp hf

theorem step?_ended {position : Nat} {w : Worker} {task : Task} {rest : List Task} {outcome : Outcome Nat} {world : σ}
    (hw : s.workers[position]? = some w) (hp : w.phase = .working task rest)
    (ha : hardware.attempt w.report.unit task.job s.world = (some outcome, world)) :
    s.step? hardware position = some (s.put position (w.ended task rest outcome) world) := by
  simp only [step?, hw, Option.bind_some, stepWorker, hp, ha]

theorem Stepped.frame {position : Nat} {w : Worker} (h : Stepped hardware s position w t) :
    t.plan = s.plan ∧ t.token = s.token ∧ t.workers.length = s.workers.length := by
  cases h <;> simp [put]

theorem move?_frame {m : Move} (h : s.move? hardware m = some t) :
    t.plan = s.plan ∧ t.token = s.token ∧ t.workers.length = s.workers.length := by
  cases m with
  | raise token =>
    cases h
    exact ⟨rfl, rfl, rfl⟩
  | step position =>
    obtain ⟨w, -, hstep⟩ := stepped_of_step? h
    exact hstep.frame

theorem phase_of_isFinished (h : s.isFinished = true) {w : Worker} (hw : w ∈ s.workers) : w.phase = .finished := by
  simpa [Worker.isFinished] using List.all_eq_true.mp h w hw

/-! ### Runs -/

/-- What comes of moves one after another, from `s₀` on, with a note of some of them. -/
inductive Reached (hardware : Hardware σ) (note : Pipeline σ → Move → Option ε) (s₀ : Pipeline σ) :
    Pipeline σ → List ε → Prop
  | start : Reached hardware note s₀ s₀ []
  | move {s t : Pipeline σ} {log : List ε} (m : Move) (before : Reached hardware note s₀ s log)
      (step : s.move? hardware m = some t) : Reached hardware note s₀ t (log ++ (note s m).toList)

/-- The notes of moves one after another. -/
def history (hardware : Hardware σ) (note : Pipeline σ → Move → Option ε) : List Move → Pipeline σ → List ε
  | [], _ => []
  | m :: moves, s => (note s m).toList ++ (s.move? hardware m).elim [] (history hardware note moves)

theorem Reached.follow {note : Pipeline σ → Move → Option ε} {s₀ : Pipeline σ} {moves : List Move} :
    ∀ {s : Pipeline σ} {log : List ε}, Reached hardware note s₀ s log → follow? hardware moves s = some t →
      Reached hardware note s₀ t (log ++ history hardware note moves s) := by
  induction moves with
  | nil =>
    intro s log hr h
    cases h
    rw [history, List.append_nil]
    exact hr
  | cons m moves ih =>
    intro s log hr h
    obtain ⟨u, hu, h⟩ := Option.bind_eq_some_iff.mp h
    have := ih (hr.move m hu) h
    rw [List.append_assoc] at this
    simpa only [history, hu, Option.elim_some] using this

theorem reached_of_follow? (note : Pipeline σ → Move → Option ε) {moves : List Move}
    (h : follow? hardware moves s = some t) :
    Reached hardware note s t (history hardware note moves s) :=
  Reached.start.follow h

theorem follow?_append (moves later : List Move) (s : Pipeline σ) :
    follow? hardware (moves ++ later) s = (follow? hardware moves s).bind (follow? hardware later) := by
  induction moves generalizing s with
  | nil => rfl
  | cons m moves ih =>
    rw [List.cons_append, follow?, follow?, Option.bind_assoc]
    exact congrArg _ (funext ih)

theorem history_append {note : Pipeline σ → Move → Option ε} {moves later : List Move}
    (h : follow? hardware moves s = some t) :
    history hardware note (moves ++ later) s = history hardware note moves s ++ history hardware note later t := by
  induction moves generalizing s with
  | nil =>
    cases h
    rfl
  | cons m moves ih =>
    obtain ⟨u, hu, h⟩ := Option.bind_eq_some_iff.mp h
    rw [List.cons_append, history, history, hu, Option.elim_some, Option.elim_some, ih h, List.append_assoc]

/-- What is noted in states that every move keeps as they are. -/
theorem forall_mem_history {note : Pipeline σ → Move → Option ε} {P : Pipeline σ → Prop} {Q : ε → Prop}
    (step : ∀ {s t} m, P s → s.move? hardware m = some t → P t) (noted : ∀ {s} m x, P s → note s m = some x → Q x)
    (hs : P s) (moves : List Move) : ∀ x ∈ history hardware note moves s, Q x := by
  induction moves generalizing s with
  | nil => exact List.forall_mem_nil _
  | cons m moves ih =>
    intro x hx
    rcases List.mem_append.mp hx with hx | hx
    · exact noted m x hs (Option.mem_toList.mp hx)
    · cases hm : s.move? hardware m with
      | none =>
        rw [hm] at hx
        cases hx
      | some t =>
        rw [hm] at hx
        exact ih (step m hs hm) x hx

/-- What holds at the start and is kept by every move holds whatever is reached. -/
theorem Reached.invariant {note : Pipeline σ → Move → Option ε} {s₀ : Pipeline σ} {P : Pipeline σ → List ε → Prop}
    (start : P s₀ []) (step : ∀ {s t log} m, P s log → s.move? hardware m = some t → P t (log ++ (note s m).toList))
    {log : List ε} (h : Reached hardware note s₀ s log) : P s log := by
  induction h with
  | start => exact start
  | move m _ hm ih => exact step m ih hm

theorem Reached.frame {note : Pipeline σ → Move → Option ε} {s₀ : Pipeline σ} {log : List ε}
    (h : Reached hardware note s₀ s log) :
    s.plan = s₀.plan ∧ s.token = s₀.token ∧ s.workers.length = s₀.workers.length := by
  induction h with
  | start => exact ⟨rfl, rfl, rfl⟩
  | move m _ hm ih =>
    obtain ⟨h₁, h₂, h₃⟩ := move?_frame hm
    exact ⟨h₁.trans ih.1, h₂.trans ih.2.1, h₃.trans ih.2.2⟩

/-! ### Driving a pipeline -/

variable {P : Pipeline σ → Prop} {position : Nat}

/-- Driving the units from a position on, one after another, comes to an end, in a state that satisfies `P`. -/
def Ends (hardware : Hardware σ) (P : Pipeline σ → Prop) (position : Nat) (s : Pipeline σ) : Prop :=
  ∃ patience t, drive hardware patience position s = some t ∧ t.isFinished = true ∧ P t

theorem lt_of_step? (h : s.step? hardware position = some t) : position < s.workers.length := by
  obtain ⟨w, hw, -⟩ := Option.bind_eq_some_iff.mp h
  exact (List.getElem?_eq_some_iff.mp hw).1

theorem le_turn (s : Pipeline σ) (position : Nat) : position ≤ s.turn position := by
  unfold turn
  split <;> omega

theorem turn_eq {w : Worker} (hw : s.workers[position]? = some w) (hp : w.phase ≠ .waiting) : s.turn position = position := by
  simp [turn, hw, hp]

theorem Ends.step (h : Ends hardware P (t.turn position) t) (ht : s.step? hardware position = some t) :
    Ends hardware P position s := by
  obtain ⟨patience, u, hu⟩ := h
  refine ⟨patience + 1, u, ?_, hu.2⟩
  rw [drive, if_pos (lt_of_step? ht), ht]
  exact hu.1

theorem Ends.skip (h : Ends hardware P (position + 1) s) (hlt : position < s.workers.length)
    (hnone : s.step? hardware position = none) : Ends hardware P position s := by
  obtain ⟨patience, u, hu⟩ := h
  refine ⟨patience + 1, u, ?_, hu.2⟩
  rw [drive, if_pos hlt, hnone]
  exact hu.1

theorem Ends.again (h : Ends hardware P 0 s) (hend : s.workers.length ≤ position) (hfinished : s.isFinished = false) :
    Ends hardware P position s := by
  obtain ⟨patience, u, hu⟩ := h
  refine ⟨patience + 1, u, ?_, hu.2⟩
  rw [drive, if_neg (Nat.not_lt.mpr hend), hfinished]
  exact hu.1

/-- Driving the units is one way in which they may go on. -/
theorem follow_of_drive {patience : Nat} (h : drive hardware patience position s = some t) :
    ∃ positions : List Nat, follow? hardware (positions.map .step) s = some t ∧ t.isFinished = true := by
  -- On the looks: a unit that can go on adds its position, one that cannot is passed over.
  induction patience generalizing position s with
  | zero => cases h
  | succ patience ih =>
    rw [drive] at h
    split at h
    · split at h
      · rename_i u hu
        obtain ⟨positions, hpositions, hfinished⟩ := ih h
        exact ⟨position :: positions, Option.bind_eq_some_iff.mpr ⟨u, hu, hpositions⟩, hfinished⟩
      · exact ih h
    · split at h
      · cases h
        exact ⟨[], rfl, ‹_›⟩
      · exact ih h

theorem ends_of_later (hgo : ∀ {position t}, s.step? hardware position = some t → Ends hardware P position s)
    (distance : Nat) : ∀ {position t}, s.step? hardware (position + distance) = some t → Ends hardware P position s := by
  -- On the distance of a unit that can go on: all units before it are passed over.
  induction distance with
  | zero => exact fun ht => hgo ht
  | succ distance ih =>
    intro position t ht
    cases hnow : s.step? hardware position with
    | some u => exact hgo hnow
    | none =>
      have hlt := lt_of_step? ht
      have hlater : s.step? hardware (position + 1 + distance) = some t := by
        rwa [Nat.add_right_comm, Nat.add_assoc]
      exact (ih hlater).skip (by omega) hnow

/-- Units each step of which leaves less to do have only so many steps, whoever goes on and raises a token. -/
theorem follow_of_measure (measure : Pipeline σ → Nat) {moves : List Move}
    (hless : ∀ {s t position}, P s → s.step? hardware position = some t → P t ∧ measure t < measure s)
    (hraise : ∀ {s u}, .raise u ∈ moves → P s →
      P { s with flags := s.flags.raise u } ∧ measure { s with flags := s.flags.raise u } ≤ measure s)
    (hs : P s) (h : follow? hardware moves s = some t) : P t ∧ moves.countP Move.isStep + measure t ≤ measure s := by
  -- On the moves: a step makes the measure less, and a raise never makes it more.
  induction moves generalizing s with
  | nil =>
    cases h
    exact ⟨hs, by simp⟩
  | cons m moves ih =>
    obtain ⟨u, hu, h⟩ := Option.bind_eq_some_iff.mp h
    have hrest := fun hu => ih (fun hm => hraise (List.mem_cons_of_mem _ hm)) hu h
    rw [List.countP_cons]
    cases m with
    | step position =>
      obtain ⟨hu, hlt⟩ := hless hs hu
      obtain ⟨ht, hle⟩ := hrest hu
      refine ⟨ht, ?_⟩
      simp only [Move.isStep, if_true]
      omega
    | raise token =>
      cases hu
      obtain ⟨hu, hle⟩ := hraise List.mem_cons_self hs
      obtain ⟨ht, hle'⟩ := hrest hu
      refine ⟨ht, ?_⟩
      simp only [Move.isStep, Bool.false_eq_true, if_false]
      omega

/-- The same when nobody raises a token. -/
theorem follow_steps_of_measure (measure : Pipeline σ → Nat) {positions : List Nat}
    (hless : ∀ {s t position}, P s → s.step? hardware position = some t → P t ∧ measure t < measure s) (hs : P s)
    (h : follow? hardware (positions.map .step) s = some t) : P t ∧ positions.length + measure t ≤ measure s := by
  have hsteps : (positions.map Move.step).countP Move.isStep = positions.length := by
    rw [List.countP_map]
    exact List.countP_eq_length.mpr fun _ _ => rfl
  have hraise : ∀ {u : CancelToken}, Move.raise u ∉ positions.map Move.step := by simp
  rw [← hsteps]
  exact follow_of_measure measure hless (fun hu => absurd hu hraise) hs h

/-- Units come to an end if they do after every step that can be taken, and a step can be taken as long as not all are
    through. -/
theorem ends_of_steps (hstep : ∀ {position t}, s.step? hardware position = some t → Ends hardware P position s)
    (hgo : s.isFinished = false → ∃ position t, s.step? hardware position = some t) (hs : P s) (position : Nat) :
    Ends hardware P position s := by
  have hend : ∀ {position}, s.workers.length ≤ position → Ends hardware P position s := by
    intro position hle
    cases hfinished : s.isFinished with
    | true => exact ⟨1, s, by simp [drive, Nat.not_lt.mpr hle, hfinished], hfinished, hs⟩
    | false =>
      obtain ⟨i, t, ht⟩ := hgo hfinished
      have hlater : s.step? hardware (0 + i) = some t := by rwa [Nat.zero_add]
      exact (ends_of_later hstep i hlater).again hle hfinished
  -- From any position on, either a unit can go on or the last one is passed over.
  induction hk : s.workers.length - position generalizing position with
  | zero => exact hend (by omega)
  | succ k ihk =>
    cases hnow : s.step? hardware position with
    | some u => exact hstep hnow
    | none => exact (ihk (position + 1) (by omega)).skip (by omega) hnow

/-- The looks that driving the units from a position on takes, at most. A unit before the position that can go on will be
    come back to. -/
def looksLeft (hardware : Hardware σ) (measure : Pipeline σ → Nat) (position : Nat) (s : Pipeline σ) : Nat :=
  measure s * (2 * s.workers.length + 2) + (s.workers.length - position) +
    if (List.range position).any fun i => (s.step? hardware i).isSome then s.workers.length + 1 else 0

/-- Driving units, each step of which leaves less to do, and one of which can go on as long as not all are through, is
    over after so many looks. -/
theorem drive_of_measure (measure : Pipeline σ → Nat)
    (hless : ∀ {s t position}, P s → s.step? hardware position = some t → P t ∧ measure t < measure s)
    (hgo : ∀ {s}, P s → s.isFinished = false → ∃ position t, s.step? hardware position = some t) {patience : Nat}
    (hs : P s) (hpatience : looksLeft hardware measure position s < patience) :
    ∃ t, drive hardware patience position s = some t ∧ t.isFinished = true ∧ P t := by
  -- On the looks: a step leaves less to do, and pays for looking at all units once more; a unit that cannot go on is
  -- passed over, and is not looked at again before another has gone on.
  induction patience generalizing s position with
  | zero => exact absurd hpatience (Nat.not_lt_zero _)
  | succ patience ih =>
    rw [drive]
    unfold looksLeft at hpatience
    split
    · rename_i hlt
      cases hnow : s.step? hardware position with
      | some t =>
        obtain ⟨ht, hmeasure⟩ := hless hs hnow
        refine ih ht ?_
        have hlength := (move?_frame (m := .step position) hnow).2.2
        have hmul := Nat.mul_le_mul_right (2 * s.workers.length + 2) (Nat.succ_le_of_lt hmeasure)
        rw [Nat.succ_mul] at hmul
        have hturn := le_turn t position
        unfold looksLeft
        rw [hlength]
        split <;> omega
      | none =>
        refine ih hs ?_
        have hsame : ((List.range (position + 1)).any fun i => (s.step? hardware i).isSome) =
            (List.range position).any fun i => (s.step? hardware i).isSome := by
          simp [List.range_succ, hnow]
        unfold looksLeft
        rw [hsame]
        omega
    · rename_i hend
      cases hfinished : s.isFinished with
      | true => exact ⟨s, rfl, hfinished, hs⟩
      | false =>
        -- Some unit can go on, and has been passed over.
        obtain ⟨i, t, ht⟩ := hgo hs hfinished
        have hpassed : ((List.range position).any fun i => (s.step? hardware i).isSome) = true := by
          refine List.any_eq_true.mpr ⟨i, List.mem_range.mpr ?_, by rw [ht]; rfl⟩
          exact Nat.lt_of_lt_of_le (lt_of_step? ht) (Nat.le_of_not_lt hend)
        rw [hpassed, if_pos rfl] at hpatience
        refine ih hs ?_
        unfold looksLeft
        simp only [List.range_zero, List.any_nil, Bool.false_eq_true, if_false]
        omega

/-- Units each step of which leaves less to do, and one of which can go on as long as not all are through, come
    to an end. -/
theorem ends_of_measure (measure : Pipeline σ → Nat)
    (hless : ∀ {s t position}, P s → s.step? hardware position = some t → P t ∧ measure t < measure s)
    (hgo : ∀ {s}, P s → s.isFinished = false → ∃ position t, s.step? hardware position = some t) (hs : P s)
    (position : Nat) : Ends hardware P position s :=
  ⟨_, drive_of_measure measure hless hgo hs (Nat.lt_succ_self _)⟩

end Pipeline

end TileOffload
