import TileOffload.Proofs.Lockstep
import TileOffload.Proofs.Parts
import TileOffload.Proofs.Roster

/-! # Staging

What the memory holds at every moment of a run, told from the two units that have work: the mover `M` and the
compute unit `C`. Between the landing of a tile's inputs and its computation the input slots hold its
elements, and between its computation and its store the output slot holds its results, unless the token is
raised before the unit that comes next has looked at it. That unit then does not touch the tile, and a unit
that has looked is covered by the second part of a window.

This file holds the invariant and how the writes of the two units keep it. -/

namespace TileOffload

/-- What a run's history tells of its tiles. -/
inductive StagingEvent
  /-- A transfer is started. -/
  | issued (x : Transfer)
  /-- A transfer has taken effect. -/
  | landed (x : Transfer)
  /-- The start register is written for a tile. -/
  | launched (tile : Tile)
  /-- The computation of a tile has ended well. -/
  | computed (tile : Tile)
deriving DecidableEq, Repr

namespace TilePlan

/-- What has to come before an event: both loads of a tile that is launched have landed, and a tile whose store is
    started has been computed. -/
def Due (p : TilePlan) (before : List StagingEvent) : StagingEvent → Prop
  | .launched tile => ∀ task ∈ p.loadTasks tile.index, ∀ x, task.job = .transfer x → .landed x ∈ before
  | .issued x => ∀ t, ∀ task ∈ p.storeTasks t, task.job = .transfer x →
      ∃ tile, tile.index = t ∧ .computed tile ∈ before
  | _ => True

/-- Nothing happens before what has to come before it. -/
def InOrder (p : TilePlan) (log : List StagingEvent) : Prop :=
  ∀ before e after, log = before ++ e :: after → p.Due before e

variable {p : TilePlan} {d : Dataset} {k : Kernel} {b : Kernel.BuiltIn} {bytes : Nat}

theorem inOrder_nil : p.InOrder [] := fun before e after h => by simp at h

theorem InOrder.snoc {log : List StagingEvent} {e : StagingEvent} (h : p.InOrder log) (he : p.Due log e) :
    p.InOrder (log ++ [e]) := by
  intro before e' after heq
  rcases List.eq_nil_or_concat after with rfl | ⟨after', z, rfl⟩
  · obtain ⟨rfl, he'⟩ := List.append_inj' heq rfl
    cases he'
    exact he
  · have hsplit : log ++ [e] = (before ++ e' :: after') ++ [z] := by simpa using heq
    exact h before e' after' (List.append_inj' hsplit rfl).1

/-! ### Windows -/

/-- The inputs of tile `t` have to be in their slots. -/
def InputsDue (M C : Worker) (raised : Bool) (t : Nat) : Prop :=
  M.hasArrived t = true ∧ C.hasArrived (t + 1) = false ∧
    (raised = false ∨ C.iteration = t + 1 ∧ ∃ task rest, C.phase = .working task rest)

/-- The results of tile `t` have to be in its output slot. -/
def OutputDue (M C : Worker) (raised : Bool) (t : Nat) : Prop :=
  (C.hasArrived (t + 1) = true ∨ C.iteration = t + 1 ∧ C.phase = .settling ∧ C.failure = none) ∧
    M.hasArrived (t + 2) = false ∧ (raised = false ∨ M.iteration = t + 2 ∧ M.phase ≠ .checking ∧ M.failure = none)

/-- A leg has brought the elements of its tile to their destination. -/
def Landed (p : TilePlan) (d : Dataset) (k : Kernel) (m : Memory) (log : List StagingEvent) (x : Nat × Lane) : Prop :=
  m.Holds (p.leg x.1 x.2).dst.toNat (p.words d k x.1 x.2) ∧ .landed (p.leg x.1 x.2) ∈ log

/-- The results of a tile are in its output slot. -/
def Ready (p : TilePlan) (d : Dataset) (k : Kernel) (m : Memory) (log : List StagingEvent) (t : Nat) : Prop :=
  m.Holds (p.slotWord t .o).toNat (p.words d k t .o) ∧ .computed (p.slotTile t) ∈ log

/-- What is in memory; `m₀` is the memory before the run. -/
structure Stock (p : TilePlan) (d : Dataset) (k : Kernel) (bytes : Nat) (m₀ : Memory) (M C : Worker) (raised : Bool)
    (m : Memory) (log : List StagingEvent) : Prop where
  snax : m.Snax bytes
  inputs : ∀ l, l ≠ .o → m.Holds (p.backing.addr l).toNat (d.vector k l)
  outputs : ∀ t < p.tiles,
    m.Holds (p.backWord t .o).toNat (p.words d k t .o) ∨ m.AgreeOn m₀ ((p.backTile t).span .o)
  loaded : ∀ t < p.tiles, InputsDue M C raised t → Landed p d k m log (t, .a) ∧ Landed p d k m log (t, .b)
  computed : ∀ t < p.tiles, OutputDue M C raised t → Ready p d k m log t
  stored : ∀ t < p.tiles, M.hasArrived (t + 2) = true → raised = false → Landed p d k m log (t, .o)

/-- How far the mover has come with the legs of its iteration: it queues them, and lands them before the barrier. -/
structure Moving (p : TilePlan) (d : Dataset) (k : Kernel) (M : Worker) (w : World) (log : List StagingEvent) :
    Prop where
  calm : M.phase ≠ .raising
  quiet : M.phase = .checking ∨ M.phase = .waiting ∨ M.phase = .finished → w.landing = none ∧ w.queue.pending = []
  starting : ∀ task rest, M.phase = .working task rest → w.landing = none ∧
    ∃ started left, p.legs M.iteration = started ++ left ∧ left.map p.legTask = task :: rest ∧
      w.queue.pending = started.map fun x => p.leg x.1 x.2
  landing : M.phase = .settling →
    ∃ landed left, landed ++ left = (if M.failure = none then p.legs M.iteration else []) ∧
      (∀ x ∈ landed, Landed p d k w.memory log x) ∧
      (w.landing = none ∧ landed = [] ∧ w.queue.pending = (left.map fun x => p.leg x.1 x.2) ∨
        w.landing = some (left.map fun x => p.leg x.1 x.2) ∧ w.queue.pending = [])

/-- How far the compute unit has come with the tile of its iteration. -/
structure Driving (p : TilePlan) (d : Dataset) (k : Kernel) (b : Kernel.BuiltIn) (C : Worker) (w : World) : Prop where
  driven : w.Driven k
  idle : (∀ task rest, C.phase ≠ .working task rest) → w.phase = .idle
  engaged : ∀ task rest, C.phase = .working task rest → w.Engaged p d k b (C.iteration - 1)

/-- The two units that have work, and how they stand to each other and to the token. -/
structure Team (p : TilePlan) (M C : Worker) (raised : Bool) : Prop where
  ahead : ∀ i < M.iteration, C.hasArrived i = true
  behind : ∀ i < C.iteration, M.hasArrived i = true
  mover : M.report.role = .dataMover
  computer : C.report.role = .compute
  soundM : M.Sound p raised
  soundC : C.Sound p raised

variable {m m' m₀ : Memory} {M C M' C' : Worker} {raised raised' : Bool} {log log' : List StagingEvent} {w w' : World}

theorem Landed.keep {x : Nat × Lane} (h : Landed p d k m log x) (hlog : ∀ e ∈ log, e ∈ log') {s : Span}
    (hw : m.Wrote m' s)
    (ha : Span.Apart ⟨(p.leg x.1 x.2).dst.toNat, Bytes.perWord * (p.words d k x.1 x.2).length⟩ s) :
    Landed p d k m' log' x :=
  ⟨hw.holds h.1 ha, hlog _ h.2⟩

theorem not_hasArrived {i : Nat} (hi : M.iteration ≤ i) (hp : M.phase ≠ .waiting) : M.hasArrived i = false := by
  rw [← Bool.not_eq_true, Pipeline.hasArrived_iff]
  rintro (h | ⟨-, h⟩)
  · omega
  · exact hp h

theorem lt_of_hasArrived {i : Nat} (h : M.hasArrived i = true) (hp : M.phase ≠ .waiting) : i < M.iteration := by
  rcases Pipeline.hasArrived_iff.mp h with h | ⟨-, h⟩
  · exact h
  · exact absurd h hp

theorem hasArrived_congr (hi : M'.iteration = M.iteration) (hp : M'.phase = .waiting ↔ M.phase = .waiting) (i : Nat) :
    M'.hasArrived i = M.hasArrived i := by
  rw [Bool.eq_iff_iff, Pipeline.hasArrived_iff, Pipeline.hasArrived_iff, hi, hp]

theorem hasArrived_passed (hp : M.phase = .waiting) (i : Nat) : (M.passed p).hasArrived i = M.hasArrived i := by
  rw [Bool.eq_iff_iff, Pipeline.hasArrived_iff, Pipeline.hasArrived_iff, Pipeline.iteration_passed]
  simp only [Pipeline.phase_passed.1, hp, and_true, and_false, or_false]
  omega

theorem not_hasArrived_of_waiting {i : Nat} (h : ({ M with phase := .waiting } : Worker).hasArrived i = false) :
    M.hasArrived i = false := by
  rw [← Bool.not_eq_true, Pipeline.hasArrived_iff] at h ⊢
  rintro (hx | ⟨hx, -⟩)
  · exact h (Or.inl hx)
  · exact h (Or.inr ⟨hx, rfl⟩)

theorem hasArrived_waiting {i : Nat} (h : ({ M with phase := .waiting } : Worker).hasArrived i = true) :
    M.hasArrived i = true ∨ M.iteration = i := by
  rcases Pipeline.hasArrived_iff.mp h with h | ⟨h, -⟩
  · exact Or.inl (Pipeline.hasArrived_iff.mpr (Or.inl h))
  · exact Or.inr h

/-! ### Writes -/

theorem span_words (hf : d.Fits p) {t : Nat} (ht : t < p.tiles) (x : Word) (l : Lane) :
    (⟨x.toNat, Bytes.perWord * (p.words d k t l).length⟩ : Span) = ⟨x.toNat, p.tileBytes⟩ := by
  rw [hf.bytes_words ht]

theorem span_vector (hf : d.Fits p) (l : Lane) :
    (⟨(p.backing.addr l).toNat, Bytes.perWord * (d.vector k l).length⟩ : Span) = p.vector l := by
  rw [hf.length_vector, vector, tileBytes, Chip.elementBytes, Bytes.perWord]
  congr 1
  rw [Nat.mul_comm, Nat.mul_assoc]

/-- The next transfer to land is a leg of the mover's iteration. -/
theorem Moving.next_leg (h : Moving p d k M w log) (hp : M.phase = .settling) {x : Transfer} {rest : List Transfer}
    (hl : w.landing = some (x :: rest)) :
    M.failure = none ∧ ∃ t l, x = p.leg t l ∧ t < p.tiles ∧ M.iteration = legTime (t, l) := by
  obtain ⟨landed, left, hlegs, -, ⟨hl', -⟩ | ⟨hl', -⟩⟩ := h.landing hp
  · rw [hl] at hl'
    cases hl'
  rw [hl, Option.some.injEq] at hl'
  obtain ⟨⟨t, l⟩, left, rfl, rfl, rfl⟩ := List.map_eq_cons_iff.mp hl'.symm
  have hmem : (t, l) ∈ if M.failure = none then p.legs M.iteration else [] := by
    rw [← hlegs]
    exact List.mem_append_right _ List.mem_cons_self
  split at hmem
  · rename_i hfail
    obtain ⟨ht, hi⟩ := mem_legs.mp hmem
    exact ⟨hfail, t, l, rfl, ht, hi⟩
  · cases hmem

theorem Moving.all_landed (h : Moving p d k M w log) (hp : M.phase = .settling) (hl : w.landing = some [])
    (hfail : M.failure = none) : ∀ x ∈ p.legs M.iteration, Landed p d k w.memory log x := by
  obtain ⟨landed, left, hlegs, hlanded, ⟨hl', -⟩ | ⟨hl', -⟩⟩ := h.landing hp
  · rw [hl] at hl'
    cases hl'
  rw [hl, Option.some.injEq] at hl'
  obtain rfl := List.map_eq_nil_iff.mp hl'.symm
  rw [List.append_nil, if_pos hfail] at hlegs
  exact hlegs ▸ hlanded

/-- What a leg has brought stays when something apart from its destination is written. -/
theorem Landed.of_apart (hs : p.Sited bytes) (hf : d.Fits p) {t : Nat} {l : Lane} (ht : t < p.tiles)
    (h : Landed p d k m log (t, l)) (hlog : ∀ e ∈ log, e ∈ log') {s : Span} (hw : m.Wrote m' s)
    (hslot : l ≠ .o → ((p.slotTile t).span l).Apart s) (hback : l = .o → ((p.backTile t).span .o).Apart s) :
    Landed p d k m' log' (t, l) := by
  refine h.keep hlog hw ?_
  rw [span_words hf ht]
  cases l with
  | a => exact hslot (fun hx => by cases hx)
  | b => exact hslot (fun hx => by cases hx)
  | o => exact hs.span_back ht .o ▸ hback rfl

/-- The compute unit's writes for the tile of its iteration keep what is in memory. -/
theorem Stock.wrote_output (hs : p.Sited bytes) (hf : d.Fits p) (team : Team p M C raised)
    (h : Stock p d k bytes m₀ M C raised m log) {t : Nat} {task : Task} {rest : List Task}
    (hc : C.phase = .working task rest) (hi : C.iteration = t + 1) (ht : t < p.tiles)
    (hw : m.Wrote m' ((p.slotTile t).span .o)) : Stock p d k bytes m₀ M C raised m' log := by
  have hstorage := hs.slot_apart_storage t .o
  have hwait : C.phase ≠ .waiting := by simp [hc]
  have keep : ∀ {u l}, u < p.tiles → Landed p d k m log (u, l) → Landed p d k m' log (u, l) := fun {u l} hu hx =>
    hx.of_apart hs hf hu (fun _ => id) hw (fun hl => hs.lanes_apart u t l .o hl)
      fun _ => (hs.slot_apart_back t .o hu .o).symm
  refine ⟨hw.snax h.snax, fun l hl => ?_, fun u hu => ?_, fun u hu hdue => ?_, fun u hu hdue => ?_, fun u hu ha hr => ?_⟩
  · refine hw.holds (h.inputs l hl) ?_
    rw [span_vector hf]
    exact (hstorage.mono (Span.Within.refl _) (hs.vector_within l)).symm
  · have hapart := (hs.slot_apart_back t .o hu .o).symm
    rcases h.outputs u hu with hh | hh
    · refine Or.inl (hw.holds hh ?_)
      rw [span_words hf hu, ← hs.span_back hu]
      exact hapart
    · exact Or.inr ((hw.apart _ hapart).trans hh)
  · exact ⟨keep hu (h.loaded u hu hdue).1, keep hu (h.loaded u hu hdue).2⟩
  · -- The results still in a slot are those of the tile before.
    obtain ⟨hdone, hfree, -⟩ := id hdue
    have hlt : u + 1 < C.iteration := by
      rcases hdone with hdone | ⟨-, hset, -⟩
      · exact lt_of_hasArrived hdone hwait
      · rw [hc] at hset
        cases hset
    have hle : ¬u + 2 < C.iteration := by
      intro hx
      rw [team.behind _ hx] at hfree
      cases hfree
    obtain rfl : t = u + 1 := by omega
    refine ⟨hw.holds (h.computed u hu hdue).1 ?_, (h.computed u hu hdue).2⟩
    rw [span_words hf hu, ← Sited.span_slot]
    exact (hs.next_apart u ht .o .o).symm
  · exact keep hu (h.stored u hu ha hr)

theorem Moving.wrote_output (hs : p.Sited bytes) (hf : d.Fits p) (h : Moving p d k M w log) (hq : w'.queue = w.queue)
    (hl : w'.landing = w.landing) {t : Nat} (hw : w.memory.Wrote w'.memory ((p.slotTile t).span .o)) :
    Moving p d k M w' log := by
  refine ⟨h.calm, by rw [hq, hl]; exact h.quiet, by rw [hq, hl]; exact h.starting, fun hp => ?_⟩
  obtain ⟨landed, left, hlegs, hlanded, hqueue⟩ := h.landing hp
  refine ⟨landed, left, hlegs, fun x hx => ?_, by rw [hq, hl]; exact hqueue⟩
  have hmem : x ∈ if M.failure = none then p.legs M.iteration else [] := hlegs ▸ List.mem_append_left _ hx
  split at hmem
  · obtain ⟨hlt, -⟩ := mem_legs.mp hmem
    exact (hlanded x hx).of_apart hs hf hlt (fun _ => id) hw (fun hl => hs.lanes_apart x.1 t x.2 .o hl)
      fun _ => (hs.slot_apart_back t .o hlt .o).symm
  · cases hmem

theorem holds_back (hs : p.Sited bytes) (hf : d.Fits p) {t : Nat} (ht : t < p.tiles) {l : Lane}
    (h : m.Holds (p.backing.addr l).toNat (d.vector k l)) : m.Holds (p.backWord t l).toNat (p.words d k t l) := by
  have hle := Nat.mul_le_mul_right p.tileLength (Nat.succ_le_of_lt ht)
  rw [Nat.succ_mul] at hle
  have hslice := h.slice (by rw [hf.length_vector]; exact hle)
  have haddr : (p.backing.addr l).toNat + Bytes.perWord * (t * p.tileLength) = (p.backWord t l).toNat := by
    rw [hs.toNat_backWord ht, tileBytes, Chip.elementBytes, Bytes.perWord, Nat.mul_comm 4, Nat.mul_assoc]
  rwa [haddr] at hslice

theorem dst_slot (p : TilePlan) (t : Nat) {l : Lane} (hl : l ≠ .o) :
    (⟨(p.leg t l).dst.toNat, (p.leg t l).len⟩ : Span) = (p.slotTile t).span l := by
  cases l with
  | a => rfl
  | b => rfl
  | o => exact absurd rfl hl

theorem dst_back (hs : p.Sited bytes) {t : Nat} (ht : t < p.tiles) :
    (⟨(p.leg t .o).dst.toNat, (p.leg t .o).len⟩ : Span) = (p.backTile t).span .o := (hs.span_back ht .o).symm

/-- A leg leaves the results in backing storage alone, but for those it brings. -/
theorem back_apart_leg (hs : p.Sited bytes) {t u : Nat} {l : Lane} (ht : t < p.tiles) (hu : u < p.tiles)
    (hne : l = .o → u ≠ t) : ((p.backTile u).span .o).Apart ⟨(p.leg t l).dst.toNat, (p.leg t l).len⟩ := by
  by_cases hl : l = .o
  · subst hl
    rw [dst_back hs ht]
    exact hs.back_apart hu ht (Or.inr (hne rfl))
  · rw [dst_slot p t hl]
    exact (hs.slot_apart_back t l hu .o).symm

/-- The elements of a tile are at the source of a leg when the leg lands. -/
theorem Stock.source (hs : p.Sited bytes) (hf : d.Fits p) (team : Team p M C raised)
    (h : Stock p d k bytes m₀ M C raised m log) {t : Nat} {l : Lane} (hm : M.phase = .settling) (hfail : M.failure = none)
    (ht : t < p.tiles) (hi : M.iteration = legTime (t, l)) :
    m.Holds (p.leg t l).src.toNat (p.words d k t l) := by
  cases l with
  | a => exact holds_back hs hf ht (h.inputs .a nofun)
  | b => exact holds_back hs hf ht (h.inputs .b nofun)
  | o =>
    have hi' : M.iteration = t + 2 := hi
    have hfree : M.hasArrived (t + 2) = false := not_hasArrived (by omega) (by simp [hm])
    exact (h.computed t ht ⟨Or.inl (team.ahead _ (by omega)), hfree, Or.inr ⟨hi', by simp [hm], hfail⟩⟩).1

/-- The landing of a leg keeps what is in memory, and adds to it. -/
theorem Stock.wrote_leg (hs : p.Sited bytes) (hf : d.Fits p) (team : Team p M C raised)
    (h : Stock p d k bytes m₀ M C raised m log) {t : Nat} {l : Lane} (hm : M.phase = .settling) (ht : t < p.tiles)
    (hi : M.iteration = legTime (t, l)) (hlog : ∀ e ∈ log, e ∈ log')
    (hw : m.Wrote m' ⟨(p.leg t l).dst.toNat, (p.leg t l).len⟩)
    (hbrought : m'.Holds (p.leg t l).dst.toNat (p.words d k t l)) : Stock p d k bytes m₀ M C raised m' log' := by
  have hwait : M.phase ≠ .waiting := by simp [hm]
  -- Whichever way the leg goes, its destination is apart from all that has to stay.
  have hvector : ∀ l', l' ≠ .o → (p.vector l').Apart ⟨(p.leg t l).dst.toNat, (p.leg t l).len⟩ := by
    intro l' hl'
    by_cases hl : l = .o
    · subst hl
      rw [dst_back hs ht]
      exact (hs.vectors_apart l' .o hl').mono (Span.Within.refl _) (hs.backed.back_within_vector ht .o)
    · rw [dst_slot p t hl]
      exact ((hs.slot_apart_storage t l).mono (Span.Within.refl _) (hs.vector_within l')).symm
  have hback : ∀ u < p.tiles, (l = .o → u ≠ t) →
      ((p.backTile u).span .o).Apart ⟨(p.leg t l).dst.toNat, (p.leg t l).len⟩ := fun u hu => back_apart_leg hs ht hu
  have hslot : ∀ u l', (l = .o ∨ l ≠ l' ∨ u + 1 = t) →
      ((p.slotTile u).span l').Apart ⟨(p.leg t l).dst.toNat, (p.leg t l).len⟩ := by
    intro u l' hcase
    by_cases hl : l = .o
    · subst hl
      rw [dst_back hs ht]
      exact hs.slot_apart_back u l' ht .o
    · rw [dst_slot p t hl]
      rcases hcase with hcase | hcase | rfl
      · exact absurd hcase hl
      · exact (hs.lanes_apart t u l l' hcase).symm
      · exact (hs.next_apart u ht l l').symm
  refine ⟨hw.snax h.snax, fun l' hl' => ?_, fun u hu => ?_, fun u hu hdue => ?_, fun u hu hdue => ?_, fun u hu ha hr => ?_⟩
  · refine hw.holds (h.inputs l' hl') ?_
    rw [span_vector hf]
    exact hvector l' hl'
  · by_cases hsame : l = .o ∧ u = t
    · obtain ⟨rfl, rfl⟩ := hsame
      exact Or.inl hbrought
    · have hapart := hback u hu fun hl hut => hsame ⟨hl, hut⟩
      rcases h.outputs u hu with hh | hh
      · refine Or.inl (hw.holds hh ?_)
        rw [span_words hf hu, ← hs.span_back hu]
        exact hapart
      · exact Or.inr ((hw.apart _ hapart).trans hh)
  · -- Loads land for the tile after the one whose inputs are due.
    obtain ⟨harrived, hfree, -⟩ := id hdue
    have hnext : l = .o ∨ u + 1 = t := by
      by_cases hl : l = .o
      · exact Or.inl hl
      · have hi' : M.iteration = t := by simpa [legTime, hl] using hi
        have hlt := lt_of_hasArrived harrived hwait
        have hle : ¬u + 1 < M.iteration := by
          intro hx
          rw [team.ahead _ hx] at hfree
          cases hfree
        exact Or.inr (by omega)
    have keep : ∀ l', l' ≠ .o → Landed p d k m log (u, l') → Landed p d k m' log' (u, l') := fun l' hl' hx =>
      hx.of_apart hs hf hu hlog hw (fun _ => hslot u l' (hnext.imp_right Or.inr)) fun ho => absurd ho hl'
    exact ⟨keep .a (fun hx => by cases hx) (h.loaded u hu hdue).1, keep .b (fun hx => by cases hx) (h.loaded u hu hdue).2⟩
  · refine ⟨hw.holds (h.computed u hu hdue).1 ?_, hlog _ (h.computed u hu hdue).2⟩
    rw [span_words hf hu, ← Sited.span_slot]
    exact hslot u .o (Classical.or_iff_not_imp_left.mpr fun hl => Or.inl hl)
  · refine (h.stored u hu ha hr).of_apart hs hf hu hlog hw (fun hx => absurd rfl hx) fun _ => hback u hu fun hl hut => ?_
    subst hl hut
    have := lt_of_hasArrived ha hwait
    have hi' : M.iteration = u + 2 := hi
    omega

theorem Team.working (hs : p.Sited bytes) (team : Team p M C raised) {task : Task} {rest : List Task}
    (hc : C.phase = .working task rest) :
    ∃ t < p.tiles, C.iteration = t + 1 ∧ task = ⟨.compute (p.slotTile t), some (.compute, t)⟩ ∧ rest = [] := by
  obtain ⟨done, htasks⟩ := team.soundC.queued task rest hc
  rw [team.computer, hs.tasks_compute] at htasks
  split at htasks
  · rename_i hi
    refine ⟨C.iteration - 1, by omega, by omega, ?_⟩
    cases done with
    | nil =>
      cases htasks
      exact ⟨rfl, rfl⟩
    | cons x done => simp at htasks
  · simp at htasks

/-- What the mover writes keeps the state of the engine. -/
theorem Driving.wrote_leg (hs : p.Sited bytes) (hf : d.Fits p) (team : Team p M C raised) (h : Driving p d k b C w)
    {t : Nat} {l : Lane} (ht : t < p.tiles) (hdevice : w'.device = w.device) (hphase : w'.phase = w.phase)
    (hw : w.memory.Wrote w'.memory ⟨(p.leg t l).dst.toNat, (p.leg t l).len⟩) : Driving p d k b C w' := by
  refine ⟨h.driven.of_eq (by rw [hdevice]) (by rw [hdevice]), hphase ▸ h.idle, fun task rest hc => ?_⟩
  obtain ⟨u, hu, hi, -, -⟩ := team.working hs hc
  have hengaged := h.engaged task rest hc
  rw [show C.iteration - 1 = u by omega] at hengaged ⊢
  have hapart : Span.Apart ⟨(p.slotWord u .o).toNat, Bytes.perWord * (p.words d k u .o).length⟩
      ⟨(p.leg t l).dst.toNat, (p.leg t l).len⟩ := by
    rw [span_words hf hu, ← Sited.span_slot]
    by_cases hl : l = .o
    · subst hl
      rw [dst_back hs ht]
      exact hs.slot_apart_back u .o ht .o
    · rw [dst_slot p t hl]
      exact hs.lanes_apart u t .o l (Ne.symm hl)
  unfold World.Engaged at hengaged ⊢
  rw [hphase, hdevice]
  cases hp : w.phase <;> rw [hp] at hengaged
  case polling => exact hw.holds hengaged hapart
  case clearing => exact hw.holds hengaged hapart
  all_goals exact hengaged

end TilePlan

end TileOffload
