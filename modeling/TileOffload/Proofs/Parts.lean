import TileOffload.Proofs.Launch
import TileOffload.Proofs.Schedule

/-! # The parts of the hardware's work

What one part of a unit's work does to the memory that all units share. The compute unit's work for a tile
writes the output slot of the tile and nothing else, and once it has ended well the results are there; the
data mover's landing of a leg writes the leg's destination and nothing else. -/

namespace TileOffload

/-! ### Elements -/

/-- A vector that is moved in a run: both inputs, and the results that the kernel gives. -/
def Dataset.vector (d : Dataset) (k : Kernel) : Lane → List Word
  | .a => d.a
  | .b => d.b
  | .o => k.golden d.a d.b

/-- The elements of a tile. -/
def TilePlan.words (p : TilePlan) (d : Dataset) (k : Kernel) (t : Nat) (l : Lane) : List Word :=
  ((d.vector k l).drop (t * p.tileLength)).take p.tileLength

/-- The inputs of the dataset are as long as the plan. -/
structure Dataset.Fits (d : Dataset) (p : TilePlan) : Prop where
  a : d.a.length = p.tiles * p.tileLength
  b : d.b.length = p.tiles * p.tileLength

variable {p : TilePlan} {d : Dataset} {k : Kernel} {bytes : Nat}

theorem Dataset.Fits.length_vector (h : d.Fits p) (l : Lane) : (d.vector k l).length = p.tiles * p.tileLength := by
  cases l with
  | a => exact h.a
  | b => exact h.b
  | o => rw [vector, Kernel.golden, List.length_zipWith, h.a, h.b, Nat.min_self]

theorem Dataset.Fits.length_words (h : d.Fits p) {t : Nat} (ht : t < p.tiles) (l : Lane) :
    (p.words d k t l).length = p.tileLength := by
  have := Nat.mul_le_mul_right p.tileLength (Nat.succ_le_of_lt ht)
  rw [Nat.succ_mul] at this
  rw [TilePlan.words, List.length_take, List.length_drop, h.length_vector]
  omega

theorem TilePlan.words_golden (p : TilePlan) (d : Dataset) (k : Kernel) (t : Nat) :
    List.zipWith k.reference (p.words d k t .a) (p.words d k t .b) = p.words d k t .o := by
  rw [words, words, words, Dataset.vector, Dataset.vector, Dataset.vector, Kernel.golden, List.drop_zipWith,
    List.take_zipWith]

theorem Dataset.Fits.bytes_words (h : d.Fits p) {t : Nat} (ht : t < p.tiles) (l : Lane) :
    Bytes.perWord * (p.words d k t l).length = p.tileBytes := by
  rw [h.length_words ht, Nat.mul_comm]
  rfl

/-! ### Places in memory -/

theorem Memory.Snax.maps_tcdm {m : Memory} (h : m.Snax bytes) {addr : Word} {len : Nat}
    (hin : Span.Within ⟨addr.toNat, len⟩ Chip.tcdm) : m.maps addr len = true :=
  maps_iff.mpr ⟨Chip.tcdm, by rw [h.1]; exact List.mem_cons_of_mem _ (List.mem_singleton_self _), hin⟩

theorem TilePlan.Backed.maps_back {m : Memory} (h : p.Backed bytes) (hm : m.Snax bytes) {t : Nat} (ht : t < p.tiles)
    (l : Lane) : m.maps (p.backWord t l) p.tileBytes = true := by
  refine Memory.maps_iff.mpr ⟨Chip.storage bytes, by rw [hm.1]; exact List.mem_cons_self, ?_⟩
  have := h.back_within ht l
  rwa [h.span_backTile ht, ← h.toNat_backWord ht] at this

namespace TilePlan.Sited

variable {m : Memory}

theorem maps_slot (h : p.Sited bytes) (hm : m.Snax bytes) (t : Nat) (l : Lane) :
    m.maps (p.slotWord t l) p.tileBytes = true := by
  have := h.slot_within t l
  rw [Tile.span, addr_slotTile] at this
  exact hm.maps_tcdm this

theorem maps_back (h : p.Sited bytes) (hm : m.Snax bytes) {t : Nat} (ht : t < p.tiles) (l : Lane) :
    m.maps (p.backWord t l) p.tileBytes = true := h.backed.maps_back hm ht l

theorem span_slot (p : TilePlan) (t : Nat) (l : Lane) :
    (p.slotTile t).span l = ⟨(p.slotWord t l).toNat, p.tileBytes⟩ := by
  rw [Tile.span, addr_slotTile]
  rfl

theorem span_back (h : p.Sited bytes) {t : Nat} (ht : t < p.tiles) (l : Lane) :
    (p.backTile t).span l = ⟨(p.backWord t l).toNat, p.tileBytes⟩ := by
  rw [h.span_backTile ht, h.toNat_backWord ht]

end TilePlan.Sited

/-! ### Computing a tile -/

theorem Device.observe_kept {σ : Type} {e e' : Device σ} {status : Word} {answer : Except Error Completion}
    (h : e.observe status = (answer, e')) : e'.map = e.map ∧ e'.target = e.target := by
  unfold observe at h
  split at h <;> cases h <;> exact ⟨rfl, rfl⟩

namespace World

/-- The device is the one that the kernel drives. -/
def Driven (k : Kernel) (w : World) : Prop :=
  w.device.map = k.map ∧ Personality.ofMap? k.map = some w.device.target.personality

/-- How far the work for tile `t` has come: what the registers, the operands fetched so far and the output slot
    hold in each phase. -/
def Engaged (p : TilePlan) (d : Dataset) (k : Kernel) (b : Kernel.BuiltIn) (t : Nat) (w : World) : Prop :=
  match w.phase with
  | .idle => True
  | .configuring rest => ∃ desc written, k.describe (p.slotTile t) = .done desc ∧ desc.config = written ++ rest ∧
      ∀ r ∈ written, w.device.target.register r.register = r.value
  | .launching => ∃ desc, k.describe (p.slotTile t) = .done desc ∧
      ∀ r ∈ desc.config, w.device.target.register r.register = r.value
  | .fetchingA pass => pass = Accelerator.passOf b (p.slotTile t)
  | .fetchingB pass xs => pass = Accelerator.passOf b (p.slotTile t) ∧ xs = p.words d k t .a
  | .storing pass results => pass = Accelerator.passOf b (p.slotTile t) ∧ results = p.words d k t .o
  | .polling _ | .clearing _ => w.memory.Holds (p.slotWord t .o).toNat (p.words d k t .o)

/-- What a part of the work for tile `t` changes. -/
structure Worked (p : TilePlan) (d : Dataset) (k : Kernel) (b : Kernel.BuiltIn) (t : Nat) (w : World)
    (answer : Option (Outcome Nat)) (w' : World) : Prop where
  queue : w'.queue = w.queue
  landing : w'.landing = w.landing
  driven : w'.Driven k
  memory : w.memory.Wrote w'.memory ((p.slotTile t).span .o)
  goesOn : answer = none → w'.Engaged p d k b t
  ends : answer ≠ none → w'.phase = .idle
  done : ∀ polls, answer = some (.done polls) → w'.memory.Holds (p.slotWord t .o).toNat (p.words d k t .o)

variable {b : Kernel.BuiltIn} {t : Nat} {w w' : World} {answer : Option (Outcome Nat)} {engine : Engine}

theorem Driven.map_target (h : w.Driven k) : w.device.target.map = k.map := Accelerator.ofMap?_eq_some h.2

/-- The registers that a transaction configures differ, and none of them is a control register. -/
theorem config_of_describe (hk : k.Follows b) {tile : Tile} {desc : Descriptor} (hd : k.describe tile = .done desc) :
    (∀ r ∈ desc.config, k.map.isControl r.register = false) ∧
      desc.config.Pairwise fun r r' => r'.register ≠ r.register := by
  obtain ⟨-, -, hc, hp⟩ := Descriptor.build_eq_ok (Kernel.BuiltIn.describe_built (hk.describe_eq hd))
  exact ⟨hk.map_eq ▸ hc, hp⟩

theorem Driven.of_eq (h : w.Driven k) (hm : w'.device.map = w.device.map)
    (hp : w'.device.target.personality = w.device.target.personality) : w'.Driven k := by
  rw [Driven, hm, hp]
  exact h

theorem worked_abandon {v : World} {e : Error} (h : v.abandon e = (answer, w')) (hq : v.queue = w.queue)
    (hl : v.landing = w.landing) (hd : v.Driven k) (hm : v.memory = w.memory) : Worked p d k b t w answer w' := by
  cases h
  exact ⟨hq, hl, hd, hm ▸ .refl _ _, nofun, fun _ => rfl, nofun⟩

theorem worked_goOn {v : World} {phase : EnginePhase} (h : v.goOn phase = (answer, w')) (hq : v.queue = w.queue)
    (hl : v.landing = w.landing) (hd : v.Driven k)
    (hm : w.memory.Wrote v.memory ((p.slotTile t).span .o))
    (hen : Engaged p d k b t { v with phase }) : Worked p d k b t w answer w' := by
  cases h
  exact ⟨hq, hl, hd, hm, fun _ => hen, fun hx => absurd rfl hx, nofun⟩

theorem worked_completed {v : World} {polls : Nat} (h : v.completed polls = (answer, w')) (hq : v.queue = w.queue)
    (hl : v.landing = w.landing) (hd : v.Driven k) (hm : v.memory = w.memory)
    (hh : w.memory.Holds (p.slotWord t .o).toNat (p.words d k t .o)) : Worked p d k b t w answer w' := by
  cases h
  exact ⟨hq, hl, hd, hm ▸ .refl _ _, nofun, fun _ => rfl, fun _ _ => hm ▸ hh⟩

theorem worked_configuring (hk : k.Follows b) (hd : w.Driven k) (hen : w.Engaged p d k b t) {rest : List RegisterWrite}
    (hp : w.phase = .configuring rest) (h : w.compute engine (p.slotTile t) = (answer, w')) :
    Worked p d k b t w answer w' := by
  simp only [Engaged, hp] at hen
  obtain ⟨desc, written, hdesc, hconfig, hregs⟩ := hen
  cases rest with
  | nil =>
    simp only [compute, hp] at h
    rw [List.append_nil] at hconfig
    exact worked_goOn h rfl rfl hd (.refl _ _) ⟨desc, hdesc, hconfig ▸ hregs⟩
  | cons r rest =>
    obtain ⟨hcontrol, hdistinct⟩ := config_of_describe hk hdesc
    have hr : r ∈ desc.config := by
      rw [hconfig]
      exact List.mem_append_right _ List.mem_cons_self
    simp only [compute, hp, Accelerator.write_config w.memory (hd.map_target ▸ hcontrol r hr)] at h
    exact worked_goOn h rfl rfl (hd.of_eq rfl rfl) (.refl _ _)
      ⟨desc, written ++ [r], hdesc, by rw [hconfig, List.append_assoc]; rfl,
        Accelerator.register_written (hconfig ▸ hdistinct) hregs⟩

theorem worked_polling (hd : w.Driven k) (hen : w.Engaged p d k b t) {polls : Nat} (hp : w.phase = .polling polls)
    (h : w.compute engine (p.slotTile t) = (answer, w')) : Worked p d k b t w answer w' := by
  simp only [Engaged, hp] at hen
  have hpersonality := Accelerator.personality_read w.device.target w.device.map.status
  have hobserved : ∀ {device : Device Accelerator} {status : Word} {completion : Except Error Completion},
      { w.device with target := (w.device.target.read w.device.map.status).2 }.observe status = (completion, device) →
      Driven k { w with device } := by
    intro device status completion he
    obtain ⟨hmap, htarget⟩ := Device.observe_kept he
    exact hd.of_eq hmap (htarget ▸ hpersonality)
  simp only [compute, hp] at h
  split at h
  · rename_i he
    exact worked_abandon h rfl rfl (hobserved he) rfl
  · rename_i he
    exact worked_goOn h rfl rfl (hobserved he) (.refl _ _) hen
  · rename_i he
    split at h
    · exact worked_abandon h rfl rfl (hobserved he) rfl
    · exact worked_goOn h rfl rfl (hobserved he) (.refl _ _) hen

theorem worked_clearing (hd : w.Driven k) (hen : w.Engaged p d k b t) {polls : Nat} (hp : w.phase = .clearing polls)
    (h : w.compute engine (p.slotTile t) = (answer, w')) : Worked p d k b t w answer w' := by
  simp only [Engaged, hp] at hen
  simp only [compute, hp] at h
  split at h
  · exact worked_completed h rfl rfl hd rfl hen
  · rename_i r hclear
    rw [Accelerator.write_clear w.memory (hd.map_target ▸ hd.1 ▸ hclear)] at h
    exact worked_completed h rfl rfl (hd.of_eq rfl rfl) rfl hen

/-- One part of the work for a tile, while the input slots of the tile hold its elements. -/
theorem worked_compute (hk : k.Follows b) (hf : d.Fits p) (ht : t < p.tiles) (hkernel : engine.kernel = k)
    (hm : w.memory.Snax bytes) (hd : w.Driven k) (hen : w.Engaged p d k b t)
    (ha : w.memory.Holds (p.slotWord t .a).toNat (p.words d k t .a))
    (hb : w.memory.Holds (p.slotWord t .b).toNat (p.words d k t .b))
    (h : w.compute engine (p.slotTile t) = (answer, w')) : Worked p d k b t w answer w' := by
  have hread : ∀ l xs, w.memory.readWords (p.slotWord t l) p.tileLength = .ok xs →
      w.memory.Holds (p.slotWord t l).toNat (p.words d k t l) → xs = p.words d k t l := by
    intro l xs h hh
    rw [← hf.length_words (k := k) ht l] at h
    exact Memory.readWords_eq hm.2 h hh
  cases hp : w.phase with
  | idle =>
    simp only [compute, hp, hkernel] at h
    split at h
    · cases h
      exact ⟨rfl, rfl, hd, .refl _ _, nofun, fun _ => hp, nofun⟩
    · exact worked_abandon h rfl rfl hd rfl
    · rename_i desc hdesc
      split at h
      · exact worked_abandon h rfl rfl hd rfl
      · exact worked_goOn h rfl rfl hd (.refl _ _) ⟨desc, [], hdesc, rfl, nofun⟩
  | configuring rest => exact worked_configuring hk hd hen hp h
  | launching =>
    simp only [Engaged, hp] at hen
    obtain ⟨desc, hdesc, hregs⟩ := hen
    simp only [compute, hp] at h
    split at h
    · exact worked_abandon h rfl rfl hd rfl
    · rename_i pass hpass
      have hpass' := Accelerator.begin_eq_ok hpass
      rw [Accelerator.configuredPass_of_describe (hk.map_eq ▸ hd.2) (hk.describe_eq hdesc) hregs] at hpass'
      exact worked_goOn h rfl rfl hd (.refl _ _) (Except.ok.inj hpass').symm
  | fetchingA pass =>
    simp only [Engaged, hp] at hen
    subst hen
    simp only [compute, hp] at h
    split at h
    · exact worked_abandon h rfl rfl hd rfl
    · rename_i xs hxs
      exact worked_goOn h rfl rfl hd (.refl _ _) ⟨rfl, hread .a xs hxs ha⟩
  | fetchingB pass xs =>
    simp only [Engaged, hp] at hen
    obtain ⟨rfl, rfl⟩ := hen
    simp only [compute, hp] at h
    split at h
    · exact worked_abandon h rfl rfl hd rfl
    · rename_i ys hys
      obtain rfl := hread .b ys hys hb
      refine worked_goOn h rfl rfl hd (.refl _ _) ⟨rfl, ?_⟩
      rw [← TilePlan.words_golden, hk.reference_eq]
      rfl
  | storing pass results =>
    simp only [Engaged, hp] at hen
    obtain ⟨rfl, rfl⟩ := hen
    simp only [compute, hp] at h
    split at h
    · exact worked_abandon h rfl rfl hd rfl
    · rename_i m hwrite
      obtain ⟨hwrote, hholds⟩ := Memory.wrote_writeWords hm.2 hwrite
      rw [hf.bytes_words ht] at hwrote
      exact worked_goOn h rfl rfl (hd.of_eq rfl rfl) hwrote hholds
  | polling polls => exact worked_polling hd hen hp h
  | clearing polls => exact worked_clearing hd hen hp h

/-! ### Moving a leg -/

theorem maps_leg (hs : p.Sited bytes) (hm : w.memory.Snax bytes) (ht : t < p.tiles) (l : Lane) :
    w.memory.maps (p.leg t l).src (p.leg t l).len = true ∧
      w.memory.maps (p.leg t l).dst (p.leg t l).len = true := by
  have hslot := hs.maps_slot hm t l
  have hback := hs.maps_back hm ht l
  cases l
  · exact ⟨hback, hslot⟩
  · exact ⟨hback, hslot⟩
  · exact ⟨hslot, hback⟩

theorem transfer_leg (hs : p.Sited bytes) (hm : w.memory.Snax bytes) (ht : t < p.tiles) (l : Lane) :
    w.transfer (p.leg t l) = (some (.done ()), { w with queue :=
      { w.queue with pending := w.queue.pending ++ [p.leg t l], issued := w.queue.issued + 1 } }) := by
  obtain ⟨hsrc, hdst⟩ := maps_leg hs hm ht l
  simp [transfer, TransferQueue.start, TransferQueue.refusal?, Memory.contains_of_maps hsrc, Memory.contains_of_maps hdst]

/-- A leg that lands writes its destination and nothing else, and brings there what was at its source. -/
theorem land_leg (hs : p.Sited bytes) (hm : w.memory.Snax bytes) (ht : t < p.tiles) {l : Lane} {rest : List Transfer}
    (hl : w.landing = some (p.leg t l :: rest)) :
    ∃ m, w.land = (false, { w with memory := m, landing := some rest }) ∧
      w.memory.copy (p.leg t l).dst (p.leg t l).src (p.leg t l).len = .ok m ∧
      w.memory.Wrote m ⟨(p.leg t l).dst.toNat, (p.leg t l).len⟩ ∧
      ∀ ws : List Word, Bytes.perWord * ws.length = (p.leg t l).len → w.memory.Holds (p.leg t l).src.toNat ws →
        m.Holds (p.leg t l).dst.toNat ws := by
  obtain ⟨hsrc, hdst⟩ := maps_leg hs hm ht l
  obtain ⟨m, hcopy⟩ := Memory.exists_copy hdst hsrc
  obtain ⟨hwrote, hholds⟩ := Memory.wrote_copy hm.2 hcopy
  refine ⟨m, ?_, hcopy, hwrote, hholds⟩
  simp only [land, hl, hcopy]

end World

end TileOffload
