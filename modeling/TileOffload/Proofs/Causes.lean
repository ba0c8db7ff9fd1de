import TileOffload.Cluster
import TileOffload.Proofs.Hazards

/-! # Causes

To have been stopped is no cause of a failure: no check, memory, device or plan ever fails that way. Main statements:
the setup of a run and every answer of its hardware, as long as the kernel does the same. -/

namespace TileOffload

variable {α β : Type}

/-- All errors that it may fail with satisfy `P`. -/
def FailsWith (P : Error → Prop) (x : Except Error α) : Prop := ∀ e, x = .error e → P e

variable {P Q : Error → Prop}

theorem failsWith_ok (a : α) : FailsWith P (.ok a) := nofun

theorem failsWith_error {e : Error} (h : P e) : FailsWith P (.error e : Except Error α) := by
  intro e' h'
  cases h'
  exact h

theorem FailsWith.mono {x : Except Error α} (hx : FailsWith P x) (h : ∀ e, P e → Q e) : FailsWith Q x :=
  fun e he => h e (hx e he)

theorem FailsWith.bind {x : Except Error α} {f : α → Except Error β} (hx : FailsWith P x)
    (hf : ∀ a, FailsWith P (f a)) : FailsWith P (x >>= f) := by
  cases x with
  | error e => exact failsWith_error (hx e rfl)
  | ok a => exact hf a

theorem failsWith_unless {c : Prop} [Decidable c] {e : Error} {f : PUnit → Except Error β} {x : Except Error β}
    (he : P e) (hx : FailsWith P x) : FailsWith P (if c then throw e >>= f else x) := by
  split
  · exact failsWith_error he
  · exact hx

theorem failsWith_ite {c : Prop} [Decidable c] {x y : Except Error α} (hx : FailsWith P x) (hy : FailsWith P y) :
    FailsWith P (if c then x else y) := by
  split
  · exact hx
  · exact hy

theorem FailsWith.map {x : Except Error α} (hx : FailsWith P x) (f : α → β) : FailsWith P (x.map f) := by
  cases x with
  | error e => exact failsWith_error (hx e rfl)
  | ok a => exact failsWith_ok _

/-- Failures are causes. -/
abbrev Genuine (x : Except Error α) : Prop := FailsWith (·.isCancelled = false) x

/-! ### Plans -/

theorem genuine_backingFor (length : Nat) : Genuine (Cluster.backingFor length) := by
  unfold Cluster.backingFor
  split
  · exact failsWith_error rfl
  · exact failsWith_ite (failsWith_error rfl) (failsWith_ok _)

/-- The failures of a check of the plan. -/
abbrev Configured (x : Except Error α) : Prop := FailsWith (·.isConfiguration = true) x

theorem configured_allocate (s : Scratchpad) (operands : List Operand) : Configured (s.allocate operands) := by
  unfold Scratchpad.allocate
  split
  · exact failsWith_error rfl
  · exact failsWith_ite (failsWith_ok _) (failsWith_error rfl)

theorem configured_make (length : Nat) (config : PipelineConfig) (s : Scratchpad) (backing : Backing) :
    Configured (TilePlan.make length config s backing) := by
  have hneeded : ∀ (n : Option Nat) (fault : PlanFault), Configured (TilePlan.needed n fault) := by
    intro n fault
    cases n with
    | none => exact failsWith_error rfl
    | some n => exact failsWith_ok n
  have haligned : ∀ (name : String) (addr : Word), Configured (TilePlan.checkAligned name addr) := fun name addr =>
    failsWith_ite (failsWith_ok _) (failsWith_error rfl)
  have hplaced : ∀ (layout : Layout) (name : String), Configured (TilePlan.placed layout name) := by
    intro layout name
    unfold TilePlan.placed
    split
    · exact failsWith_ok _
    · exact failsWith_error rfl
  unfold TilePlan.make
  refine failsWith_unless rfl (failsWith_unless rfl (failsWith_unless rfl ?_))
  refine (hneeded _ _).bind fun tileBytes => ?_
  refine (haligned _ _).bind fun _ => (haligned _ _).bind fun _ => (haligned _ _).bind fun _ => ?_
  refine (hneeded _ _).bind fun bytes => (configured_allocate _ _).bind fun layout => ?_
  refine (hplaced _ _).bind fun a => (hplaced _ _).bind fun b => (hplaced _ _).bind fun o => ?_
  exact failsWith_ok _

theorem Error.isCancelled_of_isConfiguration {e : Error} (h : e.isConfiguration = true) : e.isCancelled = false := by
  cases e <;> first | rfl | cases h

theorem genuine_make (length : Nat) (config : PipelineConfig) (s : Scratchpad) (backing : Backing) :
    Genuine (TilePlan.make length config s backing) :=
  (configured_make length config s backing).mono fun _ => Error.isCancelled_of_isConfiguration

variable {p : TilePlan}

theorem genuine_scratchpadTile (tile : Nat) : Genuine (p.scratchpadTile tile) := by
  have hslot : ∀ (r : Region) (index bytes : Nat), Genuine (r.slotAddr index bytes) := by
    intro r index bytes
    unfold Region.slotAddr
    split
    · exact failsWith_ok _
    · exact failsWith_error rfl
  refine FailsWith.bind (failsWith_ite (failsWith_ok _) (failsWith_error rfl)) fun _ => ?_
  exact (hslot _ _ _).bind fun a => (hslot _ _ _).bind fun b => (hslot _ _ _).bind fun o => failsWith_ok _

theorem genuine_backingTile (tile : Nat) : Genuine (p.backingTile tile) := by
  have haddr : ∀ (base : Word) (offset : Nat), Genuine (p.backingAddr base offset) := by
    intro base offset
    unfold TilePlan.backingAddr
    split
    · exact failsWith_ok _
    · exact failsWith_error rfl
  refine FailsWith.bind (failsWith_ite (failsWith_ok _) (failsWith_error rfl)) fun _ => failsWith_unless rfl ?_
  exact (haddr _ _).bind fun a => (haddr _ _).bind fun b => (haddr _ _).bind fun o => failsWith_ok _

theorem refusal_of_loadTasks {tile : Nat} {task : Task} {e : Error} (h : task ∈ p.loadTasks tile)
    (he : task.job = .refuse e) : p.scratchpadTile tile = .error e ∨ p.backingTile tile = .error e := by
  unfold TilePlan.loadTasks at h
  split at h <;> simp at h
  · rcases h with rfl | rfl <;> cases he
  · cases h
    cases he
    exact Or.inl ‹_›
  · cases h
    cases he
    exact Or.inr ‹_›

theorem refusal_of_storeTasks {tile : Nat} {task : Task} {e : Error} (h : task ∈ p.storeTasks tile)
    (he : task.job = .refuse e) : p.scratchpadTile tile = .error e ∨ p.backingTile tile = .error e := by
  unfold TilePlan.storeTasks at h
  split at h <;> simp at h <;> cases h <;> cases he
  · exact Or.inl ‹_›
  · exact Or.inr ‹_›

theorem refusal_of_computeTasks {tile : Nat} {task : Task} {e : Error} (h : task ∈ p.computeTasks tile)
    (he : task.job = .refuse e) : p.scratchpadTile tile = .error e := by
  unfold TilePlan.computeTasks at h
  split at h <;> simp at h <;> cases h <;> cases he
  assumption

/-- A job that is refused is one for a tile of the plan that lacks a place. -/
theorem refusal_of_tasks {role : Role} {i : Nat} {task : Task} (h : task ∈ p.tasks role i) {e : Error}
    (he : task.job = .refuse e) :
    ∃ tile < p.tiles, p.scratchpadTile tile = .error e ∨ p.backingTile tile = .error e := by
  cases role with
  | dataMover =>
    rcases List.mem_append.mp h with h | h
    · cases hs : (p.stages i).load with
      | none =>
        rw [hs] at h
        cases h
      | some tile =>
        rw [hs] at h
        exact ⟨tile, (TilePlan.load_stages.mp hs).2, refusal_of_loadTasks h he⟩
    · cases hs : (p.stages i).store with
      | none =>
        rw [hs] at h
        cases h
      | some tile =>
        rw [hs] at h
        exact ⟨tile, (TilePlan.tile_of_store hs).2, refusal_of_storeTasks h he⟩
  | compute =>
    simp only [TilePlan.tasks] at h
    cases hs : (p.stages i).compute with
    | none =>
      rw [hs] at h
      cases h
    | some tile =>
      rw [hs] at h
      exact ⟨tile, (TilePlan.compute_stages.mp hs).2, Or.inl (refusal_of_computeTasks h he)⟩
  | idle => cases h

theorem refusal_genuine {role : Role} {i : Nat} {task : Task} (h : task ∈ p.tasks role i) {e : Error}
    (he : task.job = .refuse e) : e.isCancelled = false := by
  obtain ⟨tile, -, hfail | hfail⟩ := refusal_of_tasks h he
  · exact genuine_scratchpadTile tile e hfail
  · exact genuine_backingTile tile e hfail

/-! ### Memory -/

variable {m : Memory}

theorem genuine_locate (addr : Word) (len : Nat) : Genuine (m.locate addr len) := by
  unfold Memory.locate
  split
  · exact failsWith_ok _
  · exact failsWith_error rfl

theorem genuine_locateWords (addr : Word) (count : Nat) : Genuine (m.locateWords addr count) :=
  failsWith_ite (genuine_locate addr _) (failsWith_error rfl)

theorem genuine_readWords (addr : Word) (count : Nat) : Genuine (m.readWords addr count) :=
  (genuine_locateWords addr count).bind fun _ => failsWith_ok _

theorem genuine_writeWords (addr : Word) (words : List Word) : Genuine (m.writeWords addr words) :=
  (genuine_locateWords addr words.length).bind fun _ => failsWith_ok _

theorem genuine_copy (dst src : Word) (len : Nat) : Genuine (m.copy dst src len) :=
  (genuine_locate dst len).bind fun _ => (genuine_locate src len).bind fun _ => failsWith_ok _

theorem genuine_snax (backing : Nat) : Genuine (Memory.snax backing) := by
  have hadd : ∀ (m : Memory) (name : String) (base : Word) (len : Nat), Genuine (m.addBank name base len) := by
    intro m name base len
    refine failsWith_unless rfl (failsWith_unless rfl (failsWith_unless rfl ?_))
    split
    · exact failsWith_error rfl
    · exact failsWith_ok _
  exact failsWith_unless rfl ((hadd _ _ _ _).bind fun m => hadd _ _ _ _)

/-! ### Devices -/

variable {a : Accelerator}

theorem genuine_checkDescriptor {σ : Type} (d : Device σ) (desc : Descriptor) : Genuine (d.checkDescriptor desc) := by
  refine FailsWith.bind (failsWith_ite (failsWith_ok _) (failsWith_error rfl)) fun _ => ?_
  exact failsWith_ite (failsWith_error rfl) (failsWith_ok _)

theorem genuine_observe {σ : Type} (d : Device σ) (status : Word) : Genuine (d.observe status).1 := by
  unfold Device.observe RegisterMap.verdict
  split
  · rename_i e h
    split at h
    · cases h
      exact failsWith_error rfl
    · split at h <;> cases h
  · exact failsWith_ok _
  · exact failsWith_ok _

theorem genuine_begin : Genuine a.begin := by
  have hpass : Genuine a.configuredPass := by
    unfold Accelerator.configuredPass
    split
    · exact failsWith_ite (failsWith_error rfl) (failsWith_ite (failsWith_error rfl) (failsWith_ok _))
    · unfold Accelerator.aluPass
      split
      · exact failsWith_error rfl
      · split
        · exact failsWith_error rfl
        · exact failsWith_ite (failsWith_error rfl) (failsWith_ok _)
  have hoperands : ∀ p, Genuine (a.checkOperands p) := by
    intro p
    unfold Accelerator.checkOperands
    dsimp only
    split
    · exact failsWith_error rfl
    · exact failsWith_ok _
  exact failsWith_unless rfl (hpass.bind fun p => (hoperands p).bind fun _ => failsWith_ok _)

theorem genuine_write (r value : Word) : Genuine (a.write m r value) := by
  have hconfigure : Genuine (a.configure r value) :=
    failsWith_ite (failsWith_ok _) (failsWith_ite (failsWith_error rfl) (failsWith_ok _))
  refine failsWith_ite ?_ ?_
  · refine genuine_begin.bind fun p => (genuine_readWords p.a p.len).bind fun xs => ?_
    exact (genuine_readWords p.b p.len).bind fun ys => (genuine_writeWords p.o _).bind fun _ => failsWith_ok _
  · exact hconfigure.map _

/-! ### Hardware -/

/-- The kernel never fails for being stopped. -/
def Kernel.Genuine (k : Kernel) : Prop := ∀ tile e, k.describe tile = .failed e → e.isCancelled = false

theorem Kernel.BuiltIn.genuine (b : BuiltIn) : b.kernel.Genuine := by
  have hlength : ∀ (what : String) (n : Nat), TileOffload.Genuine (lengthRegister what n) := by
    intro what n
    unfold lengthRegister
    split
    · exact failsWith_ok _
    · exact failsWith_error rfl
  have hbuild : ∀ (map : RegisterMap) (config : List RegisterWrite),
      TileOffload.Genuine (Descriptor.build map config) := by
    intro map config
    unfold Descriptor.build
    split
    · exact failsWith_error rfl
    · split
      · exact failsWith_error rfl
      · exact failsWith_ok _
  have hdescribe : ∀ {x : Except Error Descriptor} {e : Error}, TileOffload.Genuine x → Outcome.ofExcept x = .failed e →
      e.isCancelled = false := by
    intro x e hx h
    cases x <;> cases h
    exact hx _ rfl
  intro tile e h
  cases b with
  | mac => exact hdescribe ((hlength _ _).bind fun n => hbuild _ _) h
  | alu mode => exact hdescribe ((hlength _ _).bind fun n => hbuild _ _) h

namespace World

variable {w w' : World} {e : Error}

theorem transfer_genuine {t : Transfer} (h : w.transfer t = (some (.failed e), w')) : e.isCancelled = false := by
  unfold transfer TransferQueue.start at h
  split at h
  · cases h
  · rename_i e' hfail
    cases h
    split at hfail <;> cases hfail
    rfl

theorem abandon_inj {e' : Error} (h : w.abandon e' = (some (.failed e), w')) : e' = e := by
  cases h
  rfl

theorem compute_genuine {engine : Engine} (hk : engine.kernel.Genuine) {tile : Tile}
    (h : w.compute engine tile = (some (.failed e), w')) : e.isCancelled = false := by
  unfold compute at h
  split at h
  · split at h
    · cases h
    · rename_i e' hdescribe
      exact hk tile e (abandon_inj h ▸ hdescribe)
    · split at h
      · rename_i e' hfail
        exact genuine_checkDescriptor _ _ e (abandon_inj h ▸ hfail)
      · cases h
  · cases h
  · split at h
    · rename_i e' hfail
      exact genuine_write _ _ e (abandon_inj h ▸ hfail)
    · cases h
  · split at h
    · rename_i e' hfail
      exact genuine_begin e (abandon_inj h ▸ hfail)
    · cases h
  · split at h
    · rename_i e' hfail
      exact genuine_readWords _ _ e (abandon_inj h ▸ hfail)
    · cases h
  · split at h
    · rename_i e' hfail
      exact genuine_readWords _ _ e (abandon_inj h ▸ hfail)
    · cases h
  · split at h
    · rename_i e' hfail
      exact genuine_writeWords _ _ e (abandon_inj h ▸ hfail)
    · cases h
  · dsimp only at h
    split at h
    · rename_i e' device hfail
      exact genuine_observe _ _ e (abandon_inj h ▸ congrArg Prod.fst hfail)
    · cases h
    · split at h
      · rw [← abandon_inj h]
        rfl
      · cases h
  · split at h
    · cases h
    · split at h
      · rename_i e' hfail
        exact genuine_write _ _ e (abandon_inj h ▸ hfail)
      · cases h

/-- Only a failed landing leaves a failure with the queue. -/
theorem land_fault {P : Error → Prop} (hcopy : ∀ m dst src len e, Memory.copy m dst src len = .error e → P e)
    (h : ∀ e, w.queue.fault = some e → P e) : ∀ e, w.land.2.queue.fault = some e → P e := by
  intro e hfault
  unfold land at hfault
  split at hfault
  · exact h e hfault
  · exact h e hfault
  · split at hfault
    · exact h e hfault
    · rename_i e' hfail
      simp only [TransferQueue.recordFault] at hfault
      rcases Option.or_eq_some_iff.mp hfault with hf | ⟨-, hf⟩
      · exact h e hf
      · cases hf
        exact hcopy _ _ _ _ e hfail

/-- The work for a tile has nothing to do with the transfers of the data mover. -/
theorem compute_transfers (w : World) (engine : Engine) (tile : Tile) :
    (w.compute engine tile).2.queue = w.queue ∧ (w.compute engine tile).2.landing = w.landing := by
  unfold compute
  split
  · split
    · exact ⟨rfl, rfl⟩
    · exact ⟨rfl, rfl⟩
    · split <;> exact ⟨rfl, rfl⟩
  · exact ⟨rfl, rfl⟩
  · split <;> exact ⟨rfl, rfl⟩
  · split <;> exact ⟨rfl, rfl⟩
  · split <;> exact ⟨rfl, rfl⟩
  · split <;> exact ⟨rfl, rfl⟩
  · split <;> exact ⟨rfl, rfl⟩
  · dsimp only
    split
    · exact ⟨rfl, rfl⟩
    · exact ⟨rfl, rfl⟩
    · split <;> exact ⟨rfl, rfl⟩
  · split
    · exact ⟨rfl, rfl⟩
    · split <;> exact ⟨rfl, rfl⟩

theorem transfer_fault (w : World) (t : Transfer) : (w.transfer t).2.queue.fault = w.queue.fault := by
  unfold transfer TransferQueue.start
  split
  · rename_i hstart
    split at hstart <;> cases hstart
    rfl
  · rfl

theorem attempt_fault (w : World) (topology : Topology) (engine : Engine) (unit : Nat) (job : Job) :
    ((World.hardware topology engine).attempt unit job w).2.queue.fault = w.queue.fault := by
  cases job with
  | refuse e => rfl
  | compute tile => exact congrArg TransferQueue.fault (compute_transfers w engine tile).1
  | transfer t =>
    rw [← transfer_fault w t]
    unfold Hardware.attempt
    dsimp only [World.hardware]
    split <;> (rename_i h; rw [h])

end World

theorem Cluster.genuine_prepare (c : Cluster) (d : Dataset) (k : Kernel) (config : PipelineConfig) (token : CancelToken)
    (flags : CancelFlags) : TileOffload.Genuine (c.prepare d k config token flags) := by
  unfold prepare
  refine (genuine_backingFor _).bind fun backing => (genuine_make _ _ _ _).bind fun plan => ?_
  split
  · refine (genuine_snax _).bind fun m => (genuine_writeWords _ _).bind fun m => ?_
    refine (genuine_writeWords _ _).bind fun m => ?_
    exact FailsWith.bind (failsWith_ite (failsWith_ok _) (failsWith_error rfl)) fun engine => failsWith_ok _
  · exact failsWith_error rfl

end TileOffload
