import TileOffload.Cluster
import TileOffload.Proofs.FlatMemory
import TileOffload.Proofs.Hazards
import TileOffload.Proofs.Steps

/-! # What an iteration asks of the units

The vectors of a dataset lie one behind the other in backing storage, far from the scratchpad. In an
iteration the data mover has at most three transfers, the legs: both inputs of one tile go into their slots,
and the output of an earlier one comes back. The compute unit has at most one launch. -/

namespace TileOffload

/-- The addresses of the TCDM. -/
def Chip.tcdm : Span := ⟨tcdmBase.toNat, tcdmSize⟩

/-- The addresses of that many bytes of backing storage. -/
def Chip.storage (bytes : Nat) : Span := ⟨backingBase.toNat, bytes⟩

theorem Chip.inTcdm_iff {addr : Word} {len : Nat} : inTcdm addr len = true ↔ Span.Within ⟨addr.toNat, len⟩ tcdm := by
  rw [inTcdm, Bool.and_eq_true, decide_eq_true_iff, decide_eq_true_iff]
  exact Iff.rfl

theorem Chip.tcdm_apart_storage (bytes : Nat) : tcdm.Apart (storage bytes) :=
  Or.inl (by simp only [tcdm, storage, Span.stop]; decide)

/-- Three vectors of that many elements lie in so many bytes of backing storage, and none meets another. -/
structure Backing.Laid (b : Backing) (length bytes : Nat) : Prop where
  within : ∀ l, Span.Within ⟨(b.addr l).toNat, length * Chip.elementBytes⟩ (Chip.storage bytes)
  apart : ∀ l k, l ≠ k →
    Span.Apart ⟨(b.addr l).toNat, length * Chip.elementBytes⟩ ⟨(b.addr k).toNat, length * Chip.elementBytes⟩
  words : 4 ∣ bytes
  limited : bytes ≤ Chip.backingLimit

namespace Cluster

/-- The bytes from one vector in backing storage to the next. -/
def stride (length : Nat) : Nat := Size.roundUp (length * Chip.elementBytes) Chip.defaultAlignment

variable {length bytes : Nat} {b : Backing}

theorem length_le_stride (length : Nat) : length * Chip.elementBytes ≤ stride length := Size.le_roundUp (by decide) _

theorem stride_eq_some {m : Nat} :
    (Size.mul? length Chip.elementBytes).bind (Size.alignUp? · Chip.defaultAlignment) = some m ↔
      m = stride length ∧ m < Size.limit := by
  have halign : Chip.defaultAlignment ∣ Size.limit := by decide
  simp only [Option.bind_eq_some_iff, Size.mul?_eq_some, Size.alignUp?_eq_some_exact (by decide) halign]
  constructor
  · rintro ⟨_, ⟨rfl, -⟩, hm⟩
    exact hm
  · rintro ⟨rfl, hlt⟩
    exact ⟨_, ⟨rfl, Nat.lt_of_le_of_lt (length_le_stride length) hlt⟩, rfl, hlt⟩

/-- Three vectors are placed when they fit, one behind the other. -/
theorem backingFor_eq_ok : backingFor length = .ok (b, bytes) ↔
    3 * stride length ≤ Chip.backingLimit ∧ bytes = 3 * stride length ∧
      b = ⟨Chip.backingBase, Chip.backingBase + UInt32.ofNat (stride length),
        Chip.backingBase + 2 * UInt32.ofNat (stride length)⟩ := by
  have hlimit : Chip.backingLimit < Size.largest := by decide
  have hlargest : Size.largest = Size.limit - 1 := rfl
  unfold backingFor
  split
  · rename_i hnone
    simp only [reduceCtorEq, false_iff, not_and]
    intro hfits
    rw [stride_eq_some.mpr ⟨rfl, by omega⟩] at hnone
    cases hnone
  · rename_i m hm
    obtain ⟨rfl, -⟩ := stride_eq_some.mp hm
    dsimp only
    split
    · simp only [reduceCtorEq, false_iff, not_and]
      omega
    · rename_i hfits
      rw [Nat.min_eq_left (by omega)] at hfits ⊢
      constructor
      · intro h
        cases h
        exact ⟨Nat.not_lt.mp hfits, rfl, rfl⟩
      · rintro ⟨-, rfl, rfl⟩
        rfl

theorem toNat_backingFor (h : backingFor length = .ok (b, bytes)) :
    b.a.toNat = Chip.backingBase.toNat ∧ b.b.toNat = Chip.backingBase.toNat + stride length ∧
      b.o.toNat = Chip.backingBase.toNat + 2 * stride length := by
  obtain ⟨hfits, -, rfl⟩ := backingFor_eq_ok.mp h
  have hlimit : Chip.backingLimit = 4194304 := rfl
  have hbase : Chip.backingBase.toNat = 2147483648 := rfl
  refine ⟨rfl, ?_, ?_⟩
  · rw [UInt32.toNat_add, hbase, UInt32.toNat_ofNat']
    omega
  · rw [UInt32.toNat_add, hbase, UInt32.toNat_mul, UInt32.toNat_ofNat']
    simp only [UInt32.reduceToNat]
    omega

end Cluster

theorem laid_of_backingFor {length bytes : Nat} {b : Backing} (h : Cluster.backingFor length = .ok (b, bytes)) :
    b.Laid length bytes := by
  obtain ⟨ha, hb, ho⟩ := Cluster.toNat_backingFor h
  obtain ⟨hfits, rfl, -⟩ := Cluster.backingFor_eq_ok.mp h
  have hle := Cluster.length_le_stride length
  have hdvd : 8 ∣ Cluster.stride length := Size.dvd_roundUp _ _
  refine ⟨fun l => ?_, fun l k hne => ?_, by omega, hfits⟩
  · cases l <;> simp only [Backing.addr, Span.Within, Span.stop, Chip.storage] <;> omega
  · cases l <;> cases k <;> simp only [Backing.addr, Span.Apart, Span.stop, ne_eq, not_true_eq_false] at * <;> omega

/-- The memory of the cluster has a place for each vector. -/
theorem Backing.Laid.maps {length bytes : Nat} {b : Backing} (h : b.Laid length bytes) {m : Memory}
    (hm : m.Snax bytes) (l : Lane) : m.maps (b.addr l) (length * Bytes.perWord) = true :=
  Memory.maps_iff.mpr ⟨Chip.storage bytes, hm.1 ▸ List.mem_cons_self, h.within l⟩

theorem Backing.Laid.readWords_vector {length bytes : Nat} {b : Backing} (h : b.Laid length bytes) {m : Memory}
    (hm : m.Snax bytes) {l : Lane} (ha : 4 ∣ (b.addr l).toNat) {ws : List Word} (hws : ws.length = length)
    (hh : m.Holds (b.addr l).toNat ws) : m.readWords (b.addr l) length = .ok ws := by
  subst hws
  exact Memory.readWords_of_holds hm.2 hh ha (h.maps hm l)

namespace TilePlan

/-- Where a tile of a vector begins in backing storage. -/
def backWord (p : TilePlan) (t : Nat) (l : Lane) : Word :=
  UInt32.ofNat ((p.backing.addr l).toNat + t * p.tileBytes)

/-- The place of a tile in backing storage. -/
def backTile (p : TilePlan) (t : Nat) : Tile :=
  ⟨t, p.backWord t .a, p.backWord t .b, p.backWord t .o, p.tileLength, Chip.elementBytes⟩

/-- The addresses of a vector in backing storage. -/
def vector (p : TilePlan) (l : Lane) : Span := ⟨(p.backing.addr l).toNat, p.tiles * p.tileBytes⟩

/-- The vectors of a plan lie in so many bytes of backing storage. -/
structure Backed (p : TilePlan) (bytes : Nat) : Prop where
  vector_within : ∀ l, (p.vector l).Within (Chip.storage bytes)
  limited : bytes ≤ Chip.backingLimit

/-- An accepted plan with its slots inside the TCDM and its vectors in so many bytes of backing storage: where
    everything is that the units of a cluster move and compute. -/
structure Sited (p : TilePlan) (bytes : Nat) : Prop where
  tileLength_pos : 0 < p.tileLength
  placed : ∀ t < p.tiles, p.scratchpadTile t = .ok (p.slotTile t)
  slot_within : ∀ t l, ((p.slotTile t).span l).Within Chip.tcdm
  lanes_apart : ∀ t u l k, l ≠ k → ((p.slotTile t).span l).Apart ((p.slotTile u).span k)
  next_apart : ∀ t, t + 1 < p.tiles → ∀ l k, ((p.slotTile (t + 1)).span l).Apart ((p.slotTile t).span k)
  vector_within : ∀ l, (p.vector l).Within (Chip.storage bytes)
  vectors_apart : ∀ l k, l ≠ k → (p.vector l).Apart (p.vector k)
  limited : bytes ≤ Chip.backingLimit

variable {p : TilePlan} {bytes : Nat}

theorem Accepted.vector_eq {length : Nat} {config : PipelineConfig} {s : Scratchpad} {backing : Backing}
    (h : p.Accepted length config s backing) (l : Lane) :
    p.vector l = ⟨(backing.addr l).toNat, length * Chip.elementBytes⟩ := by
  rw [vector, h.backing_eq, tileBytes, ← Nat.mul_assoc, h.tiles_mul, h.length_eq]

theorem Accepted.backed {length : Nat} {config : PipelineConfig} {s : Scratchpad} {backing : Backing}
    (h : p.Accepted length config s backing) (hb : backing.Laid length bytes) : p.Backed bytes :=
  ⟨fun l => h.vector_eq l ▸ hb.within l, hb.limited⟩

/-- The regions of vectors that lie in backing storage are small. -/
theorem Accepted.len_le {length : Nat} {config : PipelineConfig} {s : Scratchpad} {backing : Backing}
    (h : p.Accepted length config s backing) (hb : p.Backed bytes) (l : Lane) :
    (p.region l).len ≤ Chip.backingLimit := by
  have hvector := hb.vector_within l
  have hslots := Nat.mul_le_mul_right p.tileBytes h.slots_le_tiles
  have hlimited := hb.limited
  rw [h.len_eq]
  simp only [vector, Span.Within, Span.stop, Chip.storage] at hvector
  omega

/-- Such regions end inside the address space if the first of them begins in the TCDM, wherever the scratchpad ends. The
    gap before a region is less than the alignment, which divides the base. -/
theorem Accepted.stop_le_of_base {length : Nat} {config : PipelineConfig} {s : Scratchpad} {backing : Backing}
    (h : p.Accepted length config s backing) (hb : p.Backed bytes) (hlow : Chip.tcdm.start ≤ s.base.toNat)
    (hhigh : s.base.toNat ≤ Chip.tcdm.stop) : p.stop ≤ addressLimit := by
  have hlow : 268435456 ≤ s.base.toNat := hlow
  have hhigh : s.base.toNat ≤ 268566528 := hhigh
  have halign := Nat.le_of_dvd (by omega) s.alignment_dvd_base
  have hlen := h.len_le hb
  have ha := hlen .a
  have hbl := hlen .b
  have ho := hlen .o
  have hfirst := h.a_first
  have hnear := h.b_near
  have hnear' := h.o_near
  have hbase := h.base_eq .o
  have hlimit : Chip.backingLimit = 4194304 := rfl
  simp only [region, Region.endOffset] at *
  rw [stop, hbase, Region.endOffset, addressLimit]
  omega

theorem Accepted.toNat_first {length : Nat} {config : PipelineConfig} {s : Scratchpad} {backing : Backing}
    (h : p.Accepted length config s backing) : (p.region .a).addr.toNat = s.base.toNat := by
  rw [Region.toNat_addr, h.base_eq, region, h.a_first]
  exact Nat.mod_eq_of_lt s.base.toNat_lt

theorem Accepted.stop_le_of_slot {length : Nat} {config : PipelineConfig} {s : Scratchpad} {backing : Backing}
    (h : p.Accepted length config s backing) (hb : p.Backed bytes)
    (hin : ((p.slotTile 0).span .a).Within Chip.tcdm) : p.stop ≤ addressLimit := by
  have hbase : (p.slotWord 0 .a).toNat = s.base.toNat := by
    rw [← h.toNat_first, Region.toNat_addr, h.toNat_slotWord_mod, h.base_eq, Nat.zero_mod, Nat.zero_mul, Nat.add_zero]
  have hlow : Chip.tcdm.start ≤ (p.slotWord 0 .a).toNat := hin.1
  have hhigh : (p.slotWord 0 .a).toNat + p.tileBytes ≤ Chip.tcdm.stop := hin.2
  exact h.stop_le_of_base hb (by omega) (by omega)

/-- It is enough that the slots of the tiles are inside the TCDM: there are no more slots than tiles. -/
theorem Accepted.sited_of_slots {length : Nat} {config : PipelineConfig} {s : Scratchpad} {backing : Backing}
    (h : p.Accepted length config s backing) (hb : backing.Laid length bytes)
    (hin : ∀ t < p.tiles, ∀ l, ((p.slotTile t).span l).Within Chip.tcdm) : p.Sited bytes where
  tileLength_pos := h.tileLength_pos
  placed := fun t => h.scratchpadTile_eq
  slot_within := fun t l => by
    have hlt := Nat.lt_of_lt_of_le (Nat.mod_lt t h.slots_pos) h.slots_le_tiles
    rw [← slots_shared (Nat.mod_mod t p.slots) l]
    exact hin _ hlt l
  lanes_apart := fun t u l k => h.lanes_apart (h.stop_le_of_slot (h.backed hb) (hin 0 h.tiles_pos .a)) t u
  next_apart := fun t => h.next_apart (h.stop_le_of_slot (h.backed hb) (hin 0 h.tiles_pos .a))
  vector_within := (h.backed hb).vector_within
  vectors_apart := fun l k hne => h.vector_eq l ▸ h.vector_eq k ▸ hb.apart l k hne
  limited := hb.limited

theorem Accepted.sited {length : Nat} {config : PipelineConfig} {s : Scratchpad} {backing : Backing}
    (h : p.Accepted length config s backing) (hb : backing.Laid length bytes)
    (hin : ∀ l, Chip.inTcdm (p.region l).addr (p.region l).len = true) : p.Sited bytes := by
  have hfirst : Span.Within ⟨s.base.toNat, (p.region .a).len⟩ Chip.tcdm := h.toNat_first ▸ Chip.inTcdm_iff.mp (hin .a)
  have hp := h.stop_le_of_base (h.backed hb) hfirst.1 (Nat.le_trans (Nat.le_add_right _ _) hfirst.2)
  exact h.sited_of_slots hb fun t _ l => (h.slot_within hp t l).trans (Chip.inTcdm_iff.mp (hin l))

namespace Backed

theorem toNat_backWord (h : p.Backed bytes) {t : Nat} (ht : t < p.tiles) (l : Lane) :
    (p.backWord t l).toNat = (p.backing.addr l).toNat + t * p.tileBytes := by
  have hw := (h.vector_within l).2
  have hl := h.limited
  have := Nat.mul_le_mul_right p.tileBytes (Nat.le_of_lt ht)
  have hlimit : Chip.backingLimit = 4194304 := rfl
  have hbase : Chip.backingBase.toNat = 2147483648 := rfl
  simp only [vector, Span.stop, Chip.storage] at hw
  rw [backWord, UInt32.toNat_ofNat']
  omega

/-- There are no more tiles than backing storage has bytes. -/
theorem tiles_le (h : p.Backed bytes) (hpos : 0 < p.tileLength) : p.tiles ≤ Chip.backingLimit := by
  have hw := (h.vector_within .a).2
  have hstart := (h.vector_within .a).1
  have hl := h.limited
  have hbytes : 0 < p.tileBytes := Nat.mul_pos hpos (by decide)
  have hmul := Nat.le_mul_of_pos_right p.tiles hbytes
  simp only [vector, Span.stop, Chip.storage] at hw hstart
  omega

theorem narrow (h : p.Backed bytes) (hpos : 0 < p.tiles) : p.tileLength < addressLimit := by
  have hw := (h.vector_within .a).2
  have hstart := (h.vector_within .a).1
  have hl := h.limited
  have hmul := Nat.le_mul_of_pos_left p.tileBytes hpos
  have hlimit : Chip.backingLimit = 4194304 := rfl
  have hbytes : p.tileBytes = p.tileLength * 4 := rfl
  simp only [vector, Span.stop, Chip.storage] at hw hstart
  rw [addressLimit]
  omega

theorem tiles_lt (h : p.Backed bytes) (hpos : 0 < p.tileLength) : p.tiles + 2 < Size.limit := by
  have htiles := h.tiles_le hpos
  have hlimit : Chip.backingLimit = 4194304 := rfl
  rw [Size.limit]
  omega

theorem span_backTile (h : p.Backed bytes) {t : Nat} (ht : t < p.tiles) (l : Lane) :
    (p.backTile t).span l = ⟨(p.backing.addr l).toNat + t * p.tileBytes, p.tileBytes⟩ := by
  have haddr : (p.backTile t).addr l = p.backWord t l := by cases l <;> rfl
  rw [Tile.span, haddr, h.toNat_backWord ht]
  rfl

theorem back_within_vector (h : p.Backed bytes) {t : Nat} (ht : t < p.tiles) (l : Lane) :
    ((p.backTile t).span l).Within (p.vector l) := by
  rw [h.span_backTile ht]
  exact Span.piece_within _ _ ht

theorem back_within (h : p.Backed bytes) {t : Nat} (ht : t < p.tiles) (l : Lane) :
    ((p.backTile t).span l).Within (Chip.storage bytes) :=
  (h.back_within_vector ht l).trans (h.vector_within l)

theorem backingTile_eq (h : p.Backed bytes) {t : Nat} (ht : t < p.tiles) : p.backingTile t = .ok (p.backTile t) := by
  have hl := h.limited
  have hlimit : Chip.backingLimit = 4194304 := rfl
  have hbase : Chip.backingBase.toNat = 2147483648 := rfl
  have hend : addressLimit = 4294967296 := rfl
  have hmul := Nat.mul_le_mul_right p.tileBytes (Nat.le_of_lt ht)
  have hoffset : ¬addressLimit ≤ t * p.tileBytes := by
    have := (h.vector_within .a).2
    simp only [vector, Span.stop, Chip.storage] at this
    omega
  have haddr : ∀ l, p.backingAddr (p.backing.addr l) (t * p.tileBytes) = .ok (p.backWord t l) := by
    intro l
    rw [backingAddr, Word.ofSize?_eq_some.mpr (h.toNat_backWord ht l).symm]
  simp only [backingTile, bind_eq_ok, checkTile_eq_ok, unless_eq_ok, pure_eq_ok]
  exact ⟨(), ht, hoffset, _, haddr .a, _, haddr .b, _, haddr .o, rfl⟩

end Backed

namespace Sited

theorem narrow (h : p.Sited bytes) : p.tileLength < addressLimit := by
  have hw := (h.slot_within 0 .a).2
  have htcdm : Chip.tcdm.stop < addressLimit := by decide
  have hbytes : (p.slotTile 0).bytes = p.tileLength * 4 := rfl
  simp only [Tile.span, Span.stop, hbytes] at hw htcdm
  omega

theorem backed (h : p.Sited bytes) : p.Backed bytes := ⟨h.vector_within, h.limited⟩

theorem tiles_lt (h : p.Sited bytes) : p.tiles + 2 < Size.limit := h.backed.tiles_lt h.tileLength_pos

theorem iterations_eq (h : p.Sited bytes) : p.iterations = p.tiles + 2 := TilePlan.iterations_eq h.tiles_lt

theorem toNat_backWord (h : p.Sited bytes) {t : Nat} (ht : t < p.tiles) (l : Lane) :
    (p.backWord t l).toNat = (p.backing.addr l).toNat + t * p.tileBytes := h.backed.toNat_backWord ht l

theorem span_backTile (h : p.Sited bytes) {t : Nat} (ht : t < p.tiles) (l : Lane) :
    (p.backTile t).span l = ⟨(p.backing.addr l).toNat + t * p.tileBytes, p.tileBytes⟩ := h.backed.span_backTile ht l

theorem back_within (h : p.Sited bytes) {t : Nat} (ht : t < p.tiles) (l : Lane) :
    ((p.backTile t).span l).Within (Chip.storage bytes) := h.backed.back_within ht l

theorem back_apart (h : p.Sited bytes) {t u : Nat} (ht : t < p.tiles) (hu : u < p.tiles) {l k : Lane}
    (hne : l ≠ k ∨ t ≠ u) : ((p.backTile t).span l).Apart ((p.backTile u).span k) := by
  by_cases hlk : l = k
  · subst hlk
    rw [h.span_backTile ht, h.span_backTile hu]
    exact Span.apart_pieces _ _ (hne.resolve_left fun hx => hx rfl)
  · exact (h.vectors_apart l k hlk).mono (h.backed.back_within_vector ht l) (h.backed.back_within_vector hu k)

theorem slot_apart_storage (h : p.Sited bytes) (t : Nat) (l : Lane) :
    ((p.slotTile t).span l).Apart (Chip.storage bytes) :=
  (Chip.tcdm_apart_storage bytes).mono (h.slot_within t l) (Span.Within.refl _)

theorem slot_apart_back (h : p.Sited bytes) (t : Nat) (l : Lane) {u : Nat} (hu : u < p.tiles) (k : Lane) :
    ((p.slotTile t).span l).Apart ((p.backTile u).span k) :=
  (h.slot_apart_storage t l).mono (Span.Within.refl _) (h.back_within hu k)

theorem backingTile_eq (h : p.Sited bytes) {t : Nat} (ht : t < p.tiles) : p.backingTile t = .ok (p.backTile t) :=
  h.backed.backingTile_eq ht

end Sited

/-! ### Legs -/

/-- The transfer of an operand of a tile: inputs go into their slots, the output leaves its slot. -/
def leg (p : TilePlan) (t : Nat) (l : Lane) : Transfer :=
  match l with
  | .o => ⟨p.backWord t .o, p.slotWord t .o, p.tileBytes⟩
  | l => ⟨p.slotWord t l, p.backWord t l, p.tileBytes⟩

theorem len_leg (p : TilePlan) (t : Nat) (l : Lane) : (p.leg t l).len = p.tileBytes := by
  cases l <;> rfl

/-- The task of a leg. -/
def legTask (p : TilePlan) (x : Nat × Lane) : Task :=
  ⟨.transfer (p.leg x.1 x.2),
    match x.2 with
    | .a => none
    | .b => some (.load, x.1)
    | .o => some (.store, x.1)⟩

/-- The legs of an iteration, in order. -/
def legs (p : TilePlan) (i : Nat) : List (Nat × Lane) :=
  (if i < p.tiles then [(i, .a), (i, .b)] else []) ++ if 1 < i ∧ i < p.tiles + 2 then [(i - 2, .o)] else []

/-- The iteration that has a leg. -/
def legTime (x : Nat × Lane) : Nat := if x.2 = .o then x.1 + 2 else x.1

theorem mem_legs {i : Nat} {x : Nat × Lane} : x ∈ p.legs i ↔ x.1 < p.tiles ∧ i = legTime x := by
  obtain ⟨t, l⟩ := x
  simp only [legs, List.mem_append, legTime]
  cases l <;> (split <;> split <;> simp <;> omega)

theorem Sited.tasks_mover (h : p.Sited bytes) (i : Nat) : p.tasks .dataMover i = (p.legs i).map p.legTask := by
  have hload : ∀ t < p.tiles, p.loadTasks t = [(t, Lane.a), (t, .b)].map p.legTask := by
    intro t ht
    rw [loadTasks, h.placed t ht, h.backingTile_eq ht]
    rfl
  have hstore : ∀ t < p.tiles, p.storeTasks t = [(t, Lane.o)].map p.legTask := by
    intro t ht
    rw [storeTasks, h.placed t ht, h.backingTile_eq ht]
    rfl
  simp only [tasks, stages, Stages.at, Size.wrap_of_lt h.tiles_lt, legs, List.map_append]
  congr 1
  · split
    · rename_i ht
      exact hload i ht
    · rfl
  · split
    · rename_i ht
      exact hstore (i - 2) (by omega)
    · rfl

theorem Sited.tasks_compute (h : p.Sited bytes) (i : Nat) :
    p.tasks .compute i =
      if 0 < i ∧ i ≤ p.tiles then [⟨.compute (p.slotTile (i - 1)), some (.compute, i - 1)⟩] else [] := by
  simp only [tasks, stages, Stages.at]
  split
  · rename_i hi
    rw [Option.elim_some, computeTasks, h.placed (i - 1) (by omega)]
  · rfl

theorem tasks_idle (p : TilePlan) (i : Nat) : p.tasks .idle i = [] := rfl

end TilePlan

end TileOffload
