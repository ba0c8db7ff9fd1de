import TileOffload.Proofs.Staging

/-! # Staging, step by step

Every step of the mover, of the compute unit and of anyone who raises a token keeps the staging invariant. -/

namespace TileOffload.TilePlan

/-- The staging invariant: memory, the two units at work, and the order of what has happened. -/
structure Staged (p : TilePlan) (d : Dataset) (k : Kernel) (b : Kernel.BuiltIn) (bytes : Nat) (m₀ : Memory) (M C : Worker)
    (raised : Bool) (w : World) (log : List StagingEvent) : Prop where
  stock : Stock p d k bytes m₀ M C raised w.memory log
  moving : Moving p d k M w log
  driving : Driving p d k b C w
  order : p.InOrder log

variable {p : TilePlan} {d : Dataset} {k : Kernel} {b : Kernel.BuiltIn} {bytes : Nat} {m m₀ : Memory}
  {M C M' C' : Worker} {raised raised' : Bool} {w w' : World} {log log' : List StagingEvent}

/-- The same memory with other windows: whatever has to be there by now was there or has come. -/
theorem Stock.turn (h : Stock p d k bytes m₀ M C raised m log) (hlog : ∀ e ∈ log, e ∈ log')
    (hin : ∀ t < p.tiles, InputsDue M' C' raised' t →
      InputsDue M C raised t ∨ Landed p d k m log' (t, .a) ∧ Landed p d k m log' (t, .b))
    (hout : ∀ t < p.tiles, OutputDue M' C' raised' t → OutputDue M C raised t ∨ Ready p d k m log' t)
    (hstore : ∀ t < p.tiles, M'.hasArrived (t + 2) = true → raised' = false →
      M.hasArrived (t + 2) = true ∧ raised = false ∨ Landed p d k m log' (t, .o)) :
    Stock p d k bytes m₀ M' C' raised' m log' := by
  refine ⟨h.snax, h.inputs, h.outputs, fun t ht hdue => ?_, fun t ht hdue => ?_, fun t ht ha hr => ?_⟩
  · rcases hin t ht hdue with hx | hx
    · obtain ⟨ha, hb⟩ := h.loaded t ht hx
      exact ⟨⟨ha.1, hlog _ ha.2⟩, hb.1, hlog _ hb.2⟩
    · exact hx
  · rcases hout t ht hdue with hx | hx
    · exact ⟨(h.computed t ht hx).1, hlog _ (h.computed t ht hx).2⟩
    · exact hx
  · rcases hstore t ht ha hr with hx | hx
    · exact ⟨(h.stored t ht hx.1 hx.2).1, hlog _ (h.stored t ht hx.1 hx.2).2⟩
    · exact hx

theorem Stock.raise (h : Stock p d k bytes m₀ M C raised m log) (hr : raised = true → raised' = true) :
    Stock p d k bytes m₀ M C raised' m log := by
  have hlow : raised' = false → raised = false := by
    intro hx
    cases hraised : raised with
    | false => rfl
    | true =>
      rw [hr hraised] at hx
      cases hx
  exact h.turn (fun _ => id) (fun t _ hdue => Or.inl ⟨hdue.1, hdue.2.1, hdue.2.2.imp_left hlow⟩)
    (fun t _ hdue => Or.inl ⟨hdue.1, hdue.2.1, hdue.2.2.imp_left hlow⟩) fun t _ ha hx => Or.inl ⟨ha, hlow hx⟩

theorem Staged.raise (h : Staged p d k b bytes m₀ M C raised w log) (hr : raised = true → raised' = true) :
    Staged p d k b bytes m₀ M C raised' w log :=
  ⟨h.stock.raise hr, h.moving, h.driving, h.order⟩

/-! ### The mover -/

/-- The mover in another phase of the same iteration, not at the barrier before or after. -/
theorem Stock.mover_turn (h : Stock p d k bytes m₀ M C raised m log) (hlog : ∀ e ∈ log, e ∈ log')
    (hi : M'.iteration = M.iteration) (hp : M.phase ≠ .waiting) (hp' : M'.phase ≠ .waiting)
    (hbusy : M'.phase ≠ .checking → M'.failure = none → raised = false ∨ M.phase ≠ .checking ∧ M.failure = none) :
    Stock p d k bytes m₀ M' C raised m log' := by
  have hcongr : ∀ i, M'.hasArrived i = M.hasArrived i := hasArrived_congr hi (by simp [hp, hp'])
  refine h.turn hlog (fun t _ hdue => Or.inl ?_) (fun t _ hdue => Or.inl ?_) fun t _ ha hr => Or.inl ⟨?_, hr⟩
  · rwa [InputsDue, hcongr] at hdue
  · obtain ⟨hdone, hfree, hdue⟩ := hdue
    rw [hcongr] at hfree
    refine ⟨hdone, hfree, ?_⟩
    rcases hdue with hr | ⟨hiter, hphase, hfail⟩
    · exact Or.inl hr
    · exact (hbusy hphase hfail).imp_right fun hb => ⟨hi ▸ hiter, hb⟩
  · rwa [hcongr] at ha

theorem moving_rest (hp : M.phase = .checking ∨ M.phase = .waiting ∨ M.phase = .finished) (hl : w.landing = none)
    (hq : w.queue.pending = []) : Moving p d k M w log := by
  refine ⟨fun hx => ?_, fun _ => ⟨hl, hq⟩, fun task rest hx => ?_, fun hx => ?_⟩ <;>
    rcases hp with hp | hp | hp <;> simp [hp] at hx

/-- A mover that has come to the end of its tasks lands what it has started. -/
theorem moving_settling (hp : M.phase = .settling) {left : List (Nat × Lane)}
    (hlegs : left = if M.failure = none then p.legs M.iteration else []) (hl : w.landing = none)
    (hq : w.queue.pending = left.map fun x => p.leg x.1 x.2) : Moving p d k M w log := by
  refine ⟨by simp [hp], by simp [hp], by simp [hp], fun _ => ⟨[], left, ?_, nofun, Or.inl ⟨hl, rfl, hq⟩⟩⟩
  rw [List.nil_append]
  exact hlegs

theorem moving_proceed (hfail : M.failure = none) (started : List (Nat × Lane)) {left : List (Nat × Lane)}
    (hlegs : p.legs M.iteration = started ++ left) (hl : w.landing = none)
    (hq : w.queue.pending = started.map fun x => p.leg x.1 x.2) :
    Moving p d k (M.proceed (left.map p.legTask)) w log := by
  cases left with
  | nil =>
    rw [List.append_nil] at hlegs
    refine moving_settling rfl ?_ hl hq
    rw [if_pos (by exact hfail)]
    exact hlegs.symm
  | cons x left =>
    refine ⟨by simp [Worker.proceed], by simp [Worker.proceed], fun task rest hx => ⟨hl, started, x :: left, hlegs, ?_, hq⟩,
      by simp [Worker.proceed]⟩
    cases hx
    rfl

theorem Driving.keep (h : Driving p d k b C w) (hm : w'.memory = w.memory) (hd : w'.device = w.device)
    (hp : w'.phase = w.phase) : Driving p d k b C w' := by
  refine ⟨h.driven.of_eq (by rw [hd]) (by rw [hd]), hp ▸ h.idle, fun task rest hx => ?_⟩
  have hengaged := h.engaged task rest hx
  unfold World.Engaged at hengaged ⊢
  rw [hm, hd, hp]
  exact hengaged

theorem Staged.mover_checked (hs : p.Sited bytes) (team : Team p M C raised)
    (h : Staged p d k b bytes m₀ M C raised w log) (hp : M.phase = .checking) :
    Staged p d k b bytes m₀ (M.checked p raised) C raised w log := by
  obtain ⟨hl, hq⟩ := h.moving.quiet (Or.inl hp)
  unfold Worker.checked
  split
  · refine ⟨h.stock.mover_turn (fun _ => id) rfl (by simp [hp]) nofun (fun _ hx => by cases hx), ?_, h.driving, h.order⟩
    exact moving_settling rfl rfl hl hq
  · rename_i hr
    rw [team.mover, hs.tasks_mover]
    have hphase : ∀ tasks, (M.proceed tasks).phase ≠ .waiting := fun tasks => by cases tasks <;> nofun
    refine ⟨h.stock.mover_turn (fun _ => id) (Worker.proceed_kept _ _).2.1 (by simp [hp]) (hphase _) fun _ _ =>
      Or.inl (by simpa using hr), ?_, h.driving, h.order⟩
    exact moving_proceed (team.soundM.healthy (Or.inl hp)) [] rfl hl hq

theorem leg_inj (hs : p.Sited bytes) {t u : Nat} {l : Lane} (ht : t < p.tiles) (hu : u < p.tiles)
    (h : p.leg t l = p.leg u .o) : l = .o ∧ t = u := by
  have hpos : 0 < p.tileBytes := Nat.mul_pos hs.tileLength_pos (by decide)
  have hmeet : ∀ {s s' : Span}, s = s' → 0 < s.len → ¬s.Apart s' := by
    rintro s _ rfl hlen hx
    simp only [Span.Apart, Span.stop] at hx
    omega
  have hspan : (⟨(p.leg t l).dst.toNat, (p.leg t l).len⟩ : Span) = (p.backTile u).span .o := by
    rw [h]
    exact dst_back hs hu
  by_cases hl : l = .o
  · subst hl
    refine ⟨rfl, Classical.byContradiction fun hne => ?_⟩
    rw [dst_back hs ht] at hspan
    refine hmeet hspan ?_ (hs.back_apart ht hu (Or.inr hne))
    rw [hs.span_backTile ht]
    exact hpos
  · rw [dst_slot p t hl] at hspan
    refine absurd (hs.slot_apart_back t l hu .o) (hmeet hspan ?_)
    exact hpos

theorem Staged.mover_started (hs : p.Sited bytes) (team : Team p M C raised)
    (h : Staged p d k b bytes m₀ M C raised w log) {task : Task} {rest : List Task} (hp : M.phase = .working task rest) :
    ∃ x, task.job = .transfer x ∧ w.transfer x = (some (.done ()), { w with queue :=
        { w.queue with pending := w.queue.pending ++ [x], issued := w.queue.issued + 1 } }) ∧
      Staged p d k b bytes m₀ ((M.record task.completes 0).proceed rest) C raised { w with queue :=
        { w.queue with pending := w.queue.pending ++ [x], issued := w.queue.issued + 1 } } (log ++ [.issued x]) := by
  obtain ⟨hl, started, left, hlegs, hleft, hq⟩ := h.moving.starting task rest hp
  obtain ⟨⟨t, l⟩, left, rfl, rfl, rfl⟩ := List.map_eq_cons_iff.mp hleft
  have hmem : (t, l) ∈ p.legs M.iteration := by
    rw [hlegs]
    exact List.mem_append_right _ List.mem_cons_self
  obtain ⟨ht, hi⟩ := mem_legs.mp hmem
  have hfail := team.soundM.healthy (Or.inr ⟨_, _, hp⟩)
  obtain ⟨-, -, hiter, hfailure, -⟩ := Worker.record_kept M (p.legTask (t, l)).completes 0
  have hlog : ∀ e ∈ log, e ∈ log ++ [StagingEvent.issued (p.leg t l)] := fun e he => List.mem_append_left _ he
  refine ⟨p.leg t l, rfl, World.transfer_leg hs h.stock.snax ht l, ?_, ?_, ?_, ?_⟩
  · have hphase : ∀ (v : Worker) tasks, (v.proceed tasks).phase ≠ .waiting := fun v tasks => by cases tasks <;> nofun
    exact h.stock.mover_turn hlog ((Worker.proceed_kept _ _).2.1.trans hiter) (by simp [hp]) (hphase _ _)
      fun _ _ => Or.inr ⟨by simp [hp], hfail⟩
  · refine moving_proceed (hfailure.trans hfail) (started ++ [(t, l)]) ?_ hl ?_
    · rw [hiter, hlegs, List.append_assoc]
      rfl
    · simp [hq]
  · exact h.driving.keep rfl rfl rfl
  · refine h.order.snoc fun u task hstore hjob => ?_
    -- The transfer is a store only if the leg is, and then the tile has been computed.
    have hu : u < p.tiles := by
      unfold storeTasks at hstore
      split at hstore
      · rename_i T _ hT _
        exact (scratchpadTile_eq_ok hT).1
      · obtain rfl := List.mem_singleton.mp hstore
        cases hjob
      · obtain rfl := List.mem_singleton.mp hstore
        cases hjob
    rw [storeTasks, hs.placed u hu, hs.backingTile_eq hu] at hstore
    obtain rfl := List.mem_singleton.mp hstore
    obtain ⟨rfl, rfl⟩ := leg_inj hs ht hu (Job.transfer.inj hjob).symm
    have hi' : M.iteration = t + 2 := hi
    have hfree : M.hasArrived (t + 2) = false := not_hasArrived (by omega) (by simp [hp])
    exact ⟨p.slotTile t, rfl, (h.stock.computed t ht
      ⟨Or.inl (team.ahead _ (by omega)), hfree, Or.inr ⟨hi', by simp [hp], hfail⟩⟩).2⟩

theorem Staged.mover_took (h : Staged p d k b bytes m₀ M C raised w log) (hp : M.phase = .settling)
    (hl : w.landing = none) :
    Staged p d k b bytes m₀ M C raised { w with landing := some w.queue.pending, queue.pending := [] } log := by
  refine ⟨h.stock, ⟨h.moving.calm, by simp [hp], by simp [hp], fun _ => ?_⟩,
    h.driving.keep rfl rfl rfl, h.order⟩
  obtain ⟨landed, left, hlegs, hlanded, ⟨-, rfl, hq⟩ | ⟨hl', -⟩⟩ := h.moving.landing hp
  · exact ⟨[], left, hlegs, hlanded, Or.inr ⟨congrArg some hq, rfl⟩⟩
  · rw [hl] at hl'
    cases hl'

theorem Staged.mover_landed (hs : p.Sited bytes) (hf : d.Fits p) (team : Team p M C raised)
    (h : Staged p d k b bytes m₀ M C raised w log) (hp : M.phase = .settling) {x : Transfer} {rest : List Transfer}
    (hl : w.landing = some (x :: rest)) :
    ∃ m, w.memory.copy x.dst x.src x.len = .ok m ∧ w.land = (false, { w with memory := m, landing := some rest }) ∧
      Staged p d k b bytes m₀ M C raised { w with memory := m, landing := some rest } (log ++ [.landed x]) := by
  obtain ⟨landed, left, hlegs, hlanded, ⟨hl', -⟩ | ⟨hl', hq⟩⟩ := h.moving.landing hp
  · rw [hl] at hl'
    cases hl'
  rw [hl, Option.some.injEq] at hl'
  obtain ⟨⟨t, l⟩, left, rfl, rfl, rfl⟩ := List.map_eq_cons_iff.mp hl'.symm
  have hmem : (t, l) ∈ if M.failure = none then p.legs M.iteration else [] := by
    rw [← hlegs]
    exact List.mem_append_right _ List.mem_cons_self
  have hfail : M.failure = none := by
    split at hmem
    · assumption
    · cases hmem
  rw [if_pos hfail] at hmem hlegs
  obtain ⟨ht, hi⟩ := mem_legs.mp hmem
  obtain ⟨m, hland, hcopy, hwrote, hbrought⟩ := World.land_leg hs h.stock.snax ht hl
  have hholds := hbrought _ ((hf.bytes_words (k := k) ht l).trans (p.len_leg t l).symm)
    (h.stock.source hs hf team hp hfail ht hi)
  have hlog : ∀ e ∈ log, e ∈ log ++ [StagingEvent.landed (p.leg t l)] := fun e he => List.mem_append_left _ he
  have hnew : StagingEvent.landed (p.leg t l) ∈ log ++ [.landed (p.leg t l)] :=
    List.mem_append_right _ List.mem_cons_self
  refine ⟨m, hcopy, hland, h.stock.wrote_leg hs hf team hp ht hi hlog hwrote hholds, ?_, ?_, h.order.snoc trivial⟩
  · refine ⟨h.moving.calm, by simp [hp], by simp [hp], fun _ => ?_⟩
    refine ⟨landed ++ [(t, l)], left, ?_, fun y hy => ?_, Or.inr ⟨rfl, hq⟩⟩
    · rw [if_pos hfail, List.append_assoc]
      exact hlegs
    rcases List.mem_append.mp hy with hy | hy
    · -- Another leg of the same iteration has another lane.
      obtain ⟨u, l'⟩ := y
      obtain ⟨hu, hi'⟩ := mem_legs.mp (hlegs ▸ List.mem_append_left _ hy : (u, l') ∈ p.legs M.iteration)
      have htime : legTime (t, l) = legTime (u, l') := hi.symm.trans hi'
      by_cases hlane : l' = l
      · subst hlane
        obtain rfl : u = t := by
          simp only [legTime] at htime
          split at htime <;> omega
        exact ⟨hholds, hnew⟩
      refine (hlanded _ hy).of_apart hs hf hu hlog hwrote (fun hl' => ?_) fun hl' => ?_
      · by_cases ho : l = .o
        · subst ho
          rw [dst_back hs ht]
          exact hs.slot_apart_back u l' ht .o
        · rw [dst_slot p t ho]
          exact hs.lanes_apart u t l' l hlane
      · exact back_apart_leg hs ht hu fun ho => absurd (hl'.trans ho.symm) hlane
    · obtain rfl := List.mem_singleton.mp hy
      exact ⟨hholds, hnew⟩
  · exact h.driving.wrote_leg hs hf team ht rfl rfl hwrote

theorem Staged.mover_arrived (team : Team p M C raised) (h : Staged p d k b bytes m₀ M C raised w log)
    (hp : M.phase = .settling) (hl : w.landing = some []) :
    Staged p d k b bytes m₀ { M with phase := .waiting } C raised { w with landing := none } log := by
  have hq : w.queue.pending = [] := by
    obtain ⟨-, -, -, -, ⟨hl', -⟩ | ⟨-, hq⟩⟩ := h.moving.landing hp
    · rw [hl] at hl'
      cases hl'
    · exact hq
  have hwait : M.phase ≠ .waiting := by simp [hp]
  have htold : M.failure ≠ none → raised = true := fun hx => (team.soundM.told hx).resolve_left h.moving.calm
  have harrived : ∀ {i l}, M.failure = none → i < p.tiles → M.iteration = legTime (i, l) →
      Landed p d k w.memory log (i, l) := fun hfail hi htime =>
    h.moving.all_landed hp hl hfail _ (mem_legs.mpr ⟨hi, htime⟩)
  refine ⟨h.stock.turn (fun _ => id) (fun t ht hdue => ?_) (fun t ht hdue => ?_) (fun t ht ha hr => ?_),
    moving_rest (Or.inr (Or.inl rfl)) rfl hq, h.driving.keep rfl rfl rfl, h.order⟩
  · obtain ⟨ha, hfree, hx⟩ := hdue
    rcases hasArrived_waiting ha with ha | rfl
    · exact Or.inl ⟨ha, hfree, hx⟩
    by_cases hfail : M.failure = none
    · exact Or.inr ⟨harrived hfail ht rfl, harrived hfail ht rfl⟩
    · -- The token is raised, and the compute unit cannot have gone on without the mover.
      rcases hx with hr | ⟨hi, -⟩
      · rw [htold hfail] at hr
        cases hr
      · exact absurd (lt_of_hasArrived (team.behind M.iteration (by omega)) hwait) (Nat.lt_irrefl _)
  · obtain ⟨hdone, hfree, hx⟩ := hdue
    exact Or.inl ⟨hdone, not_hasArrived_of_waiting hfree, hx.imp_right fun hb => ⟨hb.1, by simp [hp], hb.2.2⟩⟩
  · rcases hasArrived_waiting ha with ha | hi
    · exact Or.inl ⟨ha, hr⟩
    · refine Or.inr (harrived (Classical.byContradiction fun hx => ?_) ht hi)
      rw [htold hx] at hr
      cases hr

theorem Staged.mover_passed (hs : p.Sited bytes) (h : Staged p d k b bytes m₀ M C raised w log) (hp : M.phase = .waiting) :
    Staged p d k b bytes m₀ (M.passed p) C raised w log := by
  have hcongr := hasArrived_passed (p := p) hp
  obtain ⟨hl, hq⟩ := h.moving.quiet (Or.inr (Or.inl hp))
  refine ⟨h.stock.turn (fun _ => id) (fun t ht hdue => Or.inl ?_) (fun t ht hdue => Or.inl ?_) fun t ht ha hr => Or.inl ?_,
    ?_, h.driving, h.order⟩
  · rwa [InputsDue, hcongr] at hdue
  · obtain ⟨hdone, hfree, hx⟩ := hdue
    rw [hcongr] at hfree
    refine ⟨hdone, hfree, hx.imp_right fun ⟨hi, hphase, hfail⟩ => ?_⟩
    -- A mover that is past the barrier has not looked at the token, unless it is through.
    rw [Pipeline.iteration_passed] at hi
    have hlast := hs.iterations_eq
    by_cases hend : p.iterations ≤ M.iteration + 1
    · omega
    · have hfail' : M.failure = none := hfail
      simp [Worker.passed, hend, hfail'] at hphase
  · rw [hcongr] at ha
    exact ⟨ha, hr⟩
  · unfold Worker.passed
    split
    · exact moving_rest (Or.inr (Or.inr rfl)) hl hq
    · split
      · rename_i hfail
        have hfail' : ¬M.failure = none := by simpa [Option.isSome_iff_ne_none] using hfail
        exact moving_settling rfl (if_neg hfail').symm hl hq
      · exact moving_rest (Or.inl rfl) hl hq

/-- The steps of the mover: what becomes of it and of what the units share, and what that does to the tiles. -/
inductive MoverStep (p : TilePlan) (M : Worker) (raised : Bool) (w : World) :
    Worker → World → Option StagingEvent → Prop
  | checked (phase : M.phase = .checking) : MoverStep p M raised w (M.checked p raised) w none
  | started {task : Task} {rest : List Task} {x : Transfer} (phase : M.phase = .working task rest)
      (job : task.job = .transfer x) :
    MoverStep p M raised w ((M.record task.completes 0).proceed rest) { w with queue :=
      { w.queue with pending := w.queue.pending ++ [x], issued := w.queue.issued + 1 } } (some (.issued x))
  | took (phase : M.phase = .settling) (landing : w.landing = none) :
    MoverStep p M raised w M { w with landing := some w.queue.pending, queue.pending := [] } none
  | landed {x : Transfer} {rest : List Transfer} {m : Memory} (phase : M.phase = .settling)
      (landing : w.landing = some (x :: rest)) (copied : w.memory.copy x.dst x.src x.len = .ok m) :
    MoverStep p M raised w M { w with memory := m, landing := some rest } (some (.landed x))
  | arrived (phase : M.phase = .settling) (landing : w.landing = some []) :
    MoverStep p M raised w { M with phase := .waiting } { w with landing := none } none
  | passed (phase : M.phase = .waiting) : MoverStep p M raised w (M.passed p) w none

theorem Staged.mover_step (hs : p.Sited bytes) (hf : d.Fits p) (team : Team p M C raised)
    (h : Staged p d k b bytes m₀ M C raised w log) {e : Option StagingEvent} (hstep : MoverStep p M raised w M' w' e) :
    Staged p d k b bytes m₀ M' C raised w' (log ++ e.toList) := by
  cases hstep with
  | checked phase =>
    rw [Option.toList_none, List.append_nil]
    exact h.mover_checked hs team phase
  | started phase job =>
    obtain ⟨x, hjob, -, hstarted⟩ := h.mover_started hs team phase
    obtain rfl := Job.transfer.inj (job.symm.trans hjob)
    exact hstarted
  | took phase landing =>
    rw [Option.toList_none, List.append_nil]
    exact h.mover_took phase landing
  | landed phase landing copied =>
    obtain ⟨m, hcopy, -, hlanded⟩ := h.mover_landed hs hf team phase landing
    obtain rfl := Except.ok.inj (copied.symm.trans hcopy)
    exact hlanded
  | arrived phase landing =>
    rw [Option.toList_none, List.append_nil]
    exact h.mover_arrived team phase landing
  | passed phase =>
    rw [Option.toList_none, List.append_nil]
    exact h.mover_passed hs phase

/-! ### The compute unit -/

/-- The compute unit in another phase of the same iteration, not at the barrier before or after. -/
theorem Stock.compute_turn (h : Stock p d k bytes m₀ M C raised m log) (hlog : ∀ e ∈ log, e ∈ log')
    (hi : C'.iteration = C.iteration) (hp : C.phase ≠ .waiting) (hp' : C'.phase ≠ .waiting)
    (hbusy : (∃ task rest, C'.phase = .working task rest) → raised = false)
    (hdone : ∀ t < p.tiles, C'.iteration = t + 1 → C'.phase = .settling → C'.failure = none → Ready p d k m log' t) :
    Stock p d k bytes m₀ M C' raised m log' := by
  have hcongr : ∀ i, C'.hasArrived i = C.hasArrived i := hasArrived_congr hi (by simp [hp, hp'])
  refine h.turn hlog (fun t _ hdue => Or.inl ?_) (fun t ht hdue => ?_) fun t _ ha hr => Or.inl ⟨ha, hr⟩
  · obtain ⟨ha, hfree, hx⟩ := hdue
    rw [hcongr] at hfree
    exact ⟨ha, hfree, Or.inl (hx.elim id fun hx => hbusy hx.2)⟩
  · obtain ⟨hx, hfree, hb⟩ := hdue
    rcases hx with hx | ⟨hiter, hphase, hfail⟩
    · rw [hcongr] at hx
      exact Or.inl ⟨Or.inl hx, hfree, hb⟩
    · exact Or.inr (hdone t ht hiter hphase hfail)

theorem Driving.resting (h : Driving p d k b C w) (hc : ∀ task rest, C.phase ≠ .working task rest)
    (hc' : ∀ task rest, C'.phase ≠ .working task rest) : Driving p d k b C' w :=
  ⟨h.driven, fun _ => h.idle hc, fun task rest hx => absurd hx (hc' task rest)⟩

theorem Staged.compute_checked (hs : p.Sited bytes) (team : Team p M C raised)
    (h : Staged p d k b bytes m₀ M C raised w log) (hp : C.phase = .checking) :
    Staged p d k b bytes m₀ M (C.checked p raised) raised w log := by
  have hrest : ∀ task rest, C.phase ≠ .working task rest := by simp [hp]
  have hidle := h.driving.idle hrest
  unfold Worker.checked
  split
  · refine ⟨h.stock.compute_turn (fun _ => id) rfl (by simp [hp]) nofun ?_ ?_, h.moving,
      h.driving.resting hrest nofun, h.order⟩
    · rintro ⟨_, _, hx⟩
      cases hx
    · intro _ _ _ _ hx
      cases hx
  · rename_i hr
    have hphase : ∀ tasks, (C.proceed tasks).phase ≠ .waiting := fun tasks => by cases tasks <;> nofun
    refine ⟨h.stock.compute_turn (fun _ => id) (Worker.proceed_kept _ _).2.1 (by simp [hp]) (hphase _)
      (fun _ => by simpa using hr) fun t ht hi hset _ => ?_, h.moving,
      ⟨h.driving.driven, fun _ => hidle, fun _ _ _ => by simp [World.Engaged, hidle]⟩, h.order⟩
    -- There is a tile to compute, so the unit does not settle yet.
    rw [(Worker.proceed_kept _ _).2.1] at hi
    rw [team.computer, hs.tasks_compute, if_pos (by omega)] at hset
    cases hset

/-- What the engine finds in the input slots of the tile it works on. -/
theorem Staged.fetched (team : Team p M C raised) (h : Staged p d k b bytes m₀ M C raised w log) {t : Nat} {task : Task}
    {rest : List Task} (hp : C.phase = .working task rest) (hi : C.iteration = t + 1) (ht : t < p.tiles) :
    Landed p d k w.memory log (t, .a) ∧ Landed p d k w.memory log (t, .b) :=
  h.stock.loaded t ht ⟨team.behind t (by omega), not_hasArrived (by omega) (by simp [hp]), Or.inr ⟨hi, task, rest, hp⟩⟩

/-- The start register is written only once the loads have landed. -/
theorem Staged.launch_due (hs : p.Sited bytes) (team : Team p M C raised)
    (h : Staged p d k b bytes m₀ M C raised w log) {t : Nat} {task : Task} {rest : List Task}
    (hp : C.phase = .working task rest) (hi : C.iteration = t + 1) (ht : t < p.tiles) :
    p.Due log (.launched (p.slotTile t)) := by
  intro load hload x hx
  obtain ⟨ha, hb⟩ := h.fetched team hp hi ht
  rw [loadTasks, hs.placed _ (by exact ht), hs.backingTile_eq (by exact ht)] at hload
  simp only [List.mem_cons, List.not_mem_nil, or_false] at hload
  rcases hload with rfl | rfl
  · cases hx
    exact ha.2
  · cases hx
    exact hb.2

theorem Staged.compute_worked (hs : p.Sited bytes) (hf : d.Fits p) (hk : k.Follows b) (team : Team p M C raised)
    (h : Staged p d k b bytes m₀ M C raised w log) {t : Nat} {task : Task} {rest : List Task}
    (hp : C.phase = .working task rest) (hi : C.iteration = t + 1) (ht : t < p.tiles) {engine : Engine}
    (hkernel : engine.kernel = k) {answer : Option (Outcome Nat)}
    (hstep : w.compute engine (p.slotTile t) = (answer, w')) :
    World.Worked p d k b t w answer w' ∧ Stock p d k bytes m₀ M C raised w'.memory log ∧ Moving p d k M w' log := by
  obtain ⟨ha, hb⟩ := h.fetched team hp hi ht
  have hengaged := h.driving.engaged task rest hp
  rw [show C.iteration - 1 = t by omega] at hengaged
  have hworked := World.worked_compute hk hf ht hkernel h.stock.snax h.driving.driven hengaged ha.1 hb.1 hstep
  exact ⟨hworked, h.stock.wrote_output hs hf team hp hi ht hworked.memory,
    h.moving.wrote_output hs hf hworked.queue hworked.landing hworked.memory⟩

theorem Staged.note (h : Staged p d k b bytes m₀ M C raised w log) {e : StagingEvent} (he : p.Due log e) :
    Staged p d k b bytes m₀ M C raised w (log ++ [e]) := by
  have hlog : ∀ e' ∈ log, e' ∈ log ++ [e] := fun e' he' => List.mem_append_left _ he'
  refine ⟨h.stock.turn hlog (fun _ _ => Or.inl) (fun _ _ => Or.inl) fun _ _ ha hr => Or.inl ⟨ha, hr⟩,
    ⟨h.moving.calm, h.moving.quiet, h.moving.starting, fun hp => ?_⟩, h.driving, h.order.snoc he⟩
  obtain ⟨landed, left, hlegs, hlanded, hqueue⟩ := h.moving.landing hp
  exact ⟨landed, left, hlegs, fun x hx => ⟨(hlanded x hx).1, hlog _ (hlanded x hx).2⟩, hqueue⟩

theorem Staged.compute_goesOn (hs : p.Sited bytes) (hf : d.Fits p) (hk : k.Follows b) (team : Team p M C raised)
    (h : Staged p d k b bytes m₀ M C raised w log) {t : Nat} {task : Task} {rest : List Task}
    (hp : C.phase = .working task rest) (hi : C.iteration = t + 1) (ht : t < p.tiles) {engine : Engine}
    (hkernel : engine.kernel = k) (hstep : w.compute engine (p.slotTile t) = (none, w')) :
    Staged p d k b bytes m₀ M C raised w' log := by
  obtain ⟨hworked, hstock, hmoving⟩ := h.compute_worked hs hf hk team hp hi ht hkernel hstep
  refine ⟨hstock, hmoving, ⟨hworked.driven, fun hx => absurd hp (hx task rest), fun _ _ _ => ?_⟩, h.order⟩
  rw [show C.iteration - 1 = t by omega]
  exact hworked.goesOn rfl

theorem Staged.compute_ended (hs : p.Sited bytes) (hf : d.Fits p) (hk : k.Follows b) (team : Team p M C raised)
    (h : Staged p d k b bytes m₀ M C raised w log) {t : Nat} {task : Task} (hp : C.phase = .working task [])
    (hi : C.iteration = t + 1) (ht : t < p.tiles) {engine : Engine} (hkernel : engine.kernel = k)
    {outcome : Outcome Nat} (hstep : w.compute engine (p.slotTile t) = (some outcome, w'))
    (hnoted : ∀ polls, outcome = .done polls → .computed (p.slotTile t) ∈ log) :
    Staged p d k b bytes m₀ M (C.ended task [] outcome) raised w' log := by
  obtain ⟨hworked, hstock, hmoving⟩ := h.compute_worked hs hf hk team hp hi ht hkernel hstep
  have hidle := hworked.ends nofun
  obtain ⟨hi', hwait, hrest⟩ : (C.ended task [] outcome).iteration = C.iteration ∧
      (C.ended task [] outcome).phase ≠ .waiting ∧
      ∀ task' rest', (C.ended task [] outcome).phase ≠ .working task' rest' := by
    cases outcome with
    | done polls => exact ⟨(Worker.record_kept C task.completes polls).2.2.1, nofun, nofun⟩
    | failed e => exact ⟨rfl, nofun, nofun⟩
    | panicked => exact ⟨rfl, nofun, nofun⟩
  refine ⟨hstock.compute_turn (fun _ => id) hi' (by simp [hp]) hwait ?_ ?_, hmoving,
    ⟨hworked.driven, fun _ => hidle, fun task' rest' hx => absurd hx (hrest task' rest')⟩, h.order⟩
  · rintro ⟨task', rest', hx⟩
    exact absurd hx (hrest task' rest')
  · intro u hu hiu hset hfail
    obtain rfl : u = t := by omega
    cases outcome with
    | done polls => exact ⟨hworked.done polls rfl, hnoted polls rfl⟩
    | failed e => cases hset
    | panicked => cases hset

theorem Staged.compute_raised (team : Team p M C raised) (h : Staged p d k b bytes m₀ M C raised w log)
    (hp : C.phase = .raising) (hr : raised' = true) :
    Staged p d k b bytes m₀ M { C with phase := .settling } raised' w log := by
  have hrest : ∀ task rest, C.phase ≠ .working task rest := by simp [hp]
  have hstock : Stock p d k bytes m₀ M { C with phase := .settling } raised w.memory log := by
    refine h.stock.compute_turn (fun _ => id) rfl (by simp [hp]) nofun ?_ ?_
    · rintro ⟨_, _, hx⟩
      cases hx
    · exact fun t _ _ _ hfail => absurd hfail (team.soundC.failed hp)
  exact ⟨hstock.raise fun _ => hr, h.moving, h.driving.resting hrest nofun, h.order⟩

theorem Staged.compute_arrived (team : Team p M C raised) (h : Staged p d k b bytes m₀ M C raised w log)
    (hp : C.phase = .settling) : Staged p d k b bytes m₀ M { C with phase := .waiting } raised w log := by
  have hrest : ∀ task rest, C.phase ≠ .working task rest := by simp [hp]
  have hwait : C.phase ≠ .waiting := by simp [hp]
  refine ⟨h.stock.turn (fun _ => id) (fun t _ hdue => Or.inl ?_) (fun t _ hdue => Or.inl ?_) fun t _ ha hr =>
    Or.inl ⟨ha, hr⟩, h.moving, h.driving.resting hrest nofun, h.order⟩
  · obtain ⟨ha, hfree, hx⟩ := hdue
    refine ⟨ha, not_hasArrived_of_waiting hfree, Or.inl (hx.elim id ?_)⟩
    rintro ⟨-, _, _, hx⟩
    cases hx
  · obtain ⟨hx, hfree, hb⟩ := hdue
    have harrived := hx.resolve_right fun hx => by cases hx.2.1
    rcases hasArrived_waiting harrived with ha | hi
    · exact ⟨Or.inl ha, hfree, hb⟩
    by_cases hfail : C.failure = none
    · exact ⟨Or.inr ⟨hi, hp, hfail⟩, hfree, hb⟩
    · -- The unit has failed, so the token is raised, and the mover cannot have gone on without it.
      have htold : raised = true := (team.soundC.told hfail).resolve_left (by simp [hp])
      rcases hb with hr | ⟨hiM, -⟩
      · rw [htold] at hr
        cases hr
      · have := lt_of_hasArrived (team.ahead C.iteration (by omega)) hwait
        omega

theorem Staged.compute_passed (h : Staged p d k b bytes m₀ M C raised w log) (hp : C.phase = .waiting) :
    Staged p d k b bytes m₀ M (C.passed p) raised w log := by
  have hcongr := hasArrived_passed (p := p) hp
  have hrest : ∀ task rest, C.phase ≠ .working task rest := by simp [hp]
  have hphase : (∀ task rest, (C.passed p).phase ≠ .working task rest) ∧
      ((C.passed p).phase = .settling → (C.passed p).failure ≠ none) := by
    unfold Worker.passed
    split
    · exact ⟨nofun, nofun⟩
    · split
      · rename_i hfail
        exact ⟨nofun, fun _ => by simpa [Option.isSome_iff_ne_none] using hfail⟩
      · exact ⟨nofun, nofun⟩
  refine ⟨h.stock.turn (fun _ => id) (fun t _ hdue => Or.inl ?_) (fun t _ hdue => Or.inl ?_) fun t _ ha hr =>
    Or.inl ⟨ha, hr⟩, h.moving, h.driving.resting hrest hphase.1, h.order⟩
  · obtain ⟨ha, hfree, hx⟩ := hdue
    rw [hcongr] at hfree
    refine ⟨ha, hfree, Or.inl (hx.elim id ?_)⟩
    rintro ⟨-, task, rest, hx⟩
    exact absurd hx (hphase.1 task rest)
  · obtain ⟨hx, hfree, hb⟩ := hdue
    rw [hcongr] at hx
    exact ⟨Or.inl (hx.resolve_right fun hx => hphase.2 hx.2.1 hx.2.2), hfree, hb⟩

end TileOffload.TilePlan
