import TileOffload.Plan
import TileOffload.Proofs.Checks
import TileOffload.Proofs.Packing

/-! # Where an accepted plan puts its tiles

An accepted plan has one region for each operand, one behind the other inside the scratchpad, and each
region is a row of slots of one tile each. Tiles take the slots in turn, and there are two slots unless
there is only one tile. Everything else about the places of tiles is arithmetic on these facts. -/

namespace TileOffload

/-- The operands of a tile. -/
inductive Lane
  | a
  | b
  | o
deriving DecidableEq, Repr

/-- Where an operand of the tile begins. -/
def Tile.addr (t : Tile) : Lane → Word
  | .a => t.a
  | .b => t.b
  | .o => t.o

/-- The addresses of an operand of the tile. -/
def Tile.span (t : Tile) (l : Lane) : Span := ⟨(t.addr l).toNat, t.bytes⟩

/-- Where a vector begins in backing storage. -/
def Backing.addr (b : Backing) : Lane → Word
  | .a => b.a
  | .b => b.b
  | .o => b.o

theorem BufferDepth.slots_pos (d : BufferDepth) {tiles : Nat} (h : 0 < tiles) : 0 < d.slots tiles := by
  cases d <;> simp only [slots] <;> omega

namespace TilePlan

/-- The region of an operand. -/
def region (p : TilePlan) : Lane → Region
  | .a => p.a
  | .b => p.b
  | .o => p.o

/-- Where the last region of the plan ends. -/
def stop (p : TilePlan) : Nat := p.o.base.toNat + p.o.endOffset

/-- What an accepted plan is: the cut of the dataset, and its regions inside the scratchpad. -/
structure Accepted (p : TilePlan) (length : Nat) (config : PipelineConfig) (s : Scratchpad) (backing : Backing) :
    Prop where
  length_eq : p.length = length
  tileLength_eq : p.tileLength = config.tileLength
  depth_eq : p.depth = config.depth
  backing_eq : p.backing = backing
  tileLength_pos : 0 < p.tileLength
  tiles_pos : 0 < p.tiles
  tiles_mul : p.tiles * p.tileLength = p.length
  slots_eq : p.slots = p.depth.slots p.tiles
  single : p.depth = .single → p.tiles = 1
  backing_aligned : ∀ l, 4 ∣ (p.backing.addr l).toNat
  regions_eq : p.layout.regions = [("a", p.a), ("b", p.b), ("o", p.o)]
  base_eq : ∀ l, (p.region l).base = s.base
  len_eq : ∀ l, (p.region l).len = p.slots * p.tileBytes
  aligned : ∀ l, s.alignment ∣ (p.region l).offset
  words : ∀ l, 4 ∣ (p.region l).offset
  a_first : p.a.offset = 0
  a_before_b : p.a.endOffset ≤ p.b.offset
  b_near : p.b.offset < p.a.endOffset + s.alignment
  b_before_o : p.b.endOffset ≤ p.o.offset
  o_near : p.o.offset < p.b.endOffset + s.alignment
  o_within : p.o.endOffset ≤ s.capacity

theorem needed_eq_ok {size : Option Nat} {fault : PlanFault} {n : Nat} :
    needed size fault = .ok n ↔ size = some n := by
  unfold needed
  split <;> simp

theorem checkAligned_eq_ok {name : String} {addr : Word} {u : Unit} :
    checkAligned name addr = .ok u ↔ 4 ∣ addr.toNat := by
  unfold checkAligned Chip.elementBytes
  split
  · rename_i h
    exact ⟨fun _ => h, fun _ => rfl⟩
  · rename_i h
    exact ⟨nofun, fun h' => absurd h' h⟩

theorem placed_eq_ok {layout : Layout} {name : String} {r : Region} :
    placed layout name = .ok r ↔ layout.get? name = some r := by
  unfold placed
  split
  · rename_i h
    simp [h]
  · rename_i h
    simp [h]

theorem dvd_alignUp? {s : Scratchpad} {n m : Nat} (hn : 4 ∣ n) (h : Size.alignUp? n s.alignment = some m) : 4 ∣ m := by
  rcases s.alignment_dvd_four_or with hd | hd
  · rw [Size.alignUp?_of_dvd s.alignment_pos (Nat.dvd_trans hd hn) h]
    exact hn
  · exact Nat.dvd_trans hd (Size.dvd_of_alignUp? h)

theorem allocate_three {s : Scratchpad} {bytes : Nat} {l : Layout} (hb : 4 ∣ bytes)
    (h : s.allocate [⟨"a", bytes⟩, ⟨"b", bytes⟩, ⟨"o", bytes⟩] = .ok l) :
    ∃ y z : Nat, l.regions = [("a", ⟨s.base, 0, bytes⟩), ("b", ⟨s.base, y, bytes⟩), ("o", ⟨s.base, z, bytes⟩)] ∧
      (s.alignment ∣ y ∧ s.alignment ∣ z) ∧ (4 ∣ y ∧ 4 ∣ z) ∧ (bytes ≤ y ∧ y < bytes + s.alignment) ∧
      (y + bytes ≤ z ∧ z < y + bytes + s.alignment) ∧ z + bytes ≤ s.capacity := by
  obtain ⟨hp, hu, -⟩ := Scratchpad.allocate_eq_ok h
  obtain ⟨x, _, hx, -, hp₁, hr⟩ := Scratchpad.pack?_cons hp
  obtain ⟨y, _, hy, -, hp₂, rfl⟩ := Scratchpad.pack?_cons hp₁
  obtain ⟨z, _, hz, -, hp₃, rfl⟩ := Scratchpad.pack?_cons hp₂
  simp only [Scratchpad.pack?, Option.some.injEq, Prod.mk.injEq] at hp₃
  obtain ⟨rfl, hlast⟩ := hp₃
  obtain rfl := Size.alignUp?_of_dvd s.alignment_pos (Nat.dvd_zero _) hx
  rw [Nat.zero_add] at hy
  have hyw := dvd_alignUp? hb hy
  have hzw := dvd_alignUp? (Nat.dvd_add hyw hb) hz
  exact ⟨y, z, hr, ⟨Size.dvd_of_alignUp? hy, Size.dvd_of_alignUp? hz⟩, ⟨hyw, hzw⟩,
    ⟨Size.le_of_alignUp? s.alignment_pos hy, Size.lt_of_alignUp? s.alignment_pos hy⟩,
    ⟨Size.le_of_alignUp? s.alignment_pos hz, Size.lt_of_alignUp? s.alignment_pos hz⟩, by omega⟩

theorem accepted_of_make {length : Nat} {config : PipelineConfig} {s : Scratchpad} {backing : Backing} {p : TilePlan}
    (h : make length config s backing = .ok p) : p.Accepted length config s backing := by
  simp only [make, bind_eq_ok, unless_eq_ok, pure_eq_ok] at h
  obtain ⟨hzero, hdiv, hsingle, tileBytes, ht, _, ha, _, hb, _, ho, bytes, hbytes, layout, hl, a, hra, b, hrb, o, hro,
    rfl⟩ := h
  rw [needed_eq_ok, Size.mul?_eq_some] at ht hbytes
  obtain ⟨rfl, -⟩ := ht
  obtain ⟨rfl, -⟩ := hbytes
  rw [checkAligned_eq_ok] at ha hb ho
  rw [placed_eq_ok] at hra hrb hro
  simp only [not_or] at hzero
  have hlen : 0 < config.tileLength := Nat.pos_of_ne_zero hzero.2
  have hdvd : config.tileLength ∣ length := Nat.dvd_of_mod_eq_zero (Classical.not_not.mp hdiv)
  have hword : 4 ∣ config.depth.slots (length / config.tileLength) * (config.tileLength * Chip.elementBytes) :=
    Nat.dvd_mul_left_of_dvd (Nat.dvd_mul_left 4 _) _
  obtain ⟨y, z, hregions, ⟨hay, haz⟩, ⟨hwy, hwz⟩, ⟨hxy, hy⟩, ⟨hyz, hz⟩, hend⟩ := allocate_three hword hl
  simp [Layout.get?, hregions] at hra hrb hro
  subst hra hrb hro
  have hpos : 0 < length / config.tileLength :=
    Nat.div_pos (Nat.le_of_dvd (Nat.pos_of_ne_zero hzero.1) hdvd) hlen
  exact {
    length_eq := rfl
    tileLength_eq := rfl
    depth_eq := rfl
    backing_eq := rfl
    tileLength_pos := hlen
    tiles_pos := hpos
    tiles_mul := Nat.div_mul_cancel hdvd
    slots_eq := rfl
    single := fun hd => Nat.le_antisymm (Nat.not_lt.mp fun h => hsingle ⟨hd, h⟩) hpos
    backing_aligned := fun l => by cases l <;> assumption
    regions_eq := hregions
    base_eq := fun l => by cases l <;> rfl
    len_eq := fun l => by cases l <;> rfl
    aligned := fun l => by
      cases l with
      | a => exact Nat.dvd_zero _
      | b | o => assumption
    words := fun l => by
      cases l with
      | a => exact Nat.dvd_zero _
      | b | o => assumption
    a_first := rfl
    a_before_b := by simpa only [Region.endOffset, Nat.zero_add] using hxy
    b_near := by simpa only [Region.endOffset, Nat.zero_add] using hy
    b_before_o := hyz
    o_near := hz
    o_within := hend }

/-! ### Slots -/

/-- The slot of a tile in the region of an operand. -/
def slotWord (p : TilePlan) (t : Nat) (l : Lane) : Word :=
  (p.region l).addr + UInt32.ofNat (t % p.slots * p.tileBytes)

/-- The slots of a tile. -/
def slotTile (p : TilePlan) (t : Nat) : Tile :=
  ⟨t, p.slotWord t .a, p.slotWord t .b, p.slotWord t .o, p.tileLength, Chip.elementBytes⟩

theorem addr_slotTile (p : TilePlan) (t : Nat) (l : Lane) : (p.slotTile t).addr l = p.slotWord t l := by
  cases l <;> rfl

theorem bytes_slotTile (p : TilePlan) (t : Nat) : (p.slotTile t).bytes = p.tileBytes := rfl

theorem checkTile_eq_ok {p : TilePlan} {t : Nat} {u : Unit} : p.checkTile t = .ok u ↔ t < p.tiles := by
  unfold checkTile
  split
  · rename_i h
    exact ⟨fun _ => h, fun _ => rfl⟩
  · rename_i h
    exact ⟨nofun, fun h' => absurd h' h⟩

theorem scratchpadTile_eq_ok {p : TilePlan} {t : Nat} {T : Tile} (h : p.scratchpadTile t = .ok T) :
    t < p.tiles ∧ T = p.slotTile t := by
  simp only [scratchpadTile, bind_eq_ok, checkTile_eq_ok, pure_eq_ok] at h
  obtain ⟨_, ht, _, ha, _, hb, _, ho, rfl⟩ := h
  rw [Region.eq_of_slotAddr ha, Region.eq_of_slotAddr hb, Region.eq_of_slotAddr ho]
  exact ⟨ht, rfl⟩

namespace Accepted

variable {p : TilePlan} {length : Nat} {config : PipelineConfig} {s : Scratchpad} {backing : Backing}

theorem slots_pos (h : p.Accepted length config s backing) : 0 < p.slots := by
  rw [h.slots_eq]
  exact p.depth.slots_pos h.tiles_pos

theorem slots_le_tiles (h : p.Accepted length config s backing) : p.slots ≤ p.tiles := by
  have := h.tiles_pos
  rw [h.slots_eq]
  cases p.depth <;> simp only [BufferDepth.slots] <;> omega

/-- Where a tile follows another there are two slots or more. -/
theorem two_le_slots (h : p.Accepted length config s backing) (ht : 1 < p.tiles) : 2 ≤ p.slots := by
  rw [h.slots_eq]
  cases hd : p.depth with
  | single =>
    have := h.single hd
    omega
  | double =>
    simp only [BufferDepth.slots]
    omega
  | resident => exact ht

theorem region_end_le (h : p.Accepted length config s backing) (l : Lane) : (p.region l).endOffset ≤ s.capacity := by
  have := h.a_before_b
  have := h.b_before_o
  have := h.o_within
  cases l <;> simp only [region, Region.endOffset] at * <;> omega

theorem region_end_le_stop (h : p.Accepted length config s backing) (l : Lane) :
    s.base.toNat + (p.region l).endOffset ≤ p.stop := by
  have := h.a_before_b
  have := h.b_before_o
  have hbase := h.base_eq .o
  rw [region] at hbase
  rw [stop, hbase]
  cases l <;> simp only [region, Region.endOffset] at * <;> omega

/-- The plan ends inside the address space where the scratchpad does. -/
theorem stop_lt (h : p.Accepted length config s backing) (hs : s.base.toNat + s.capacity < addressLimit) :
    p.stop < addressLimit := by
  have := h.o_within
  have hbase := h.base_eq .o
  rw [region] at hbase
  rw [stop, hbase]
  omega

theorem tileBytes_pos (h : p.Accepted length config s backing) : 0 < p.tileBytes :=
  Nat.mul_pos h.tileLength_pos (by decide)

theorem tileBytes_le_len (h : p.Accepted length config s backing) (l : Lane) : p.tileBytes ≤ (p.region l).len := by
  rw [h.len_eq]
  exact Nat.le_mul_of_pos_left _ h.slots_pos

theorem narrow (h : p.Accepted length config s backing) (hp : p.stop ≤ addressLimit) : p.tileLength < addressLimit := by
  have hend := h.region_end_le_stop .a
  have hlen := h.tileBytes_le_len .a
  have hpos := h.tileLength_pos
  have hbytes : p.tileBytes = p.tileLength * 4 := rfl
  rw [Region.endOffset] at hend
  omega

/-- A region consists of whole words, so it is not the largest there can be. -/
theorem region_len_lt (h : p.Accepted length config s backing) (l : Lane) : (p.region l).len < Size.largest := by
  have hend := h.region_end_le l
  have hcapacity := s.capacity_lt
  have hwords : 4 ∣ (p.region l).len := h.len_eq l ▸ Nat.dvd_mul_left_of_dvd (Nat.dvd_mul_left 4 _) _
  rw [Region.endOffset] at hend
  simp only [Size.largest, Size.limit] at *
  omega

theorem region_span (h : p.Accepted length config s backing) (hp : p.stop ≤ addressLimit) (l : Lane) :
    (p.region l).span = ⟨s.base.toNat + (p.region l).offset, p.slots * p.tileBytes⟩ := by
  have hend := h.region_end_le_stop l
  have hpos := h.tileBytes_pos
  have hlen := h.tileBytes_le_len l
  rw [Region.endOffset] at hend
  rw [Region.span, Region.toNat_addr, h.base_eq, Nat.mod_eq_of_lt (by omega), h.len_eq]

theorem region_within (h : p.Accepted length config s backing) (hp : p.stop ≤ addressLimit) (l : Lane) :
    (p.region l).span.Within s.span := by
  have hl := h.region_end_le l
  rw [Region.endOffset, h.len_eq] at hl
  rw [h.region_span hp]
  constructor <;> simp only [Scratchpad.span, Span.stop] <;> omega

theorem regions_apart (h : p.Accepted length config s backing) (hp : p.stop ≤ addressLimit) {l k : Lane} (hne : l ≠ k) :
    (p.region l).span.Apart (p.region k).span := by
  have hab := h.a_before_b
  have hbo := h.b_before_o
  have hl := fun l => h.len_eq l
  have ha := hl .a
  have hb := hl .b
  have ho := hl .o
  rw [h.region_span hp, h.region_span hp]
  cases l <;> cases k <;>
    simp only [region, Region.endOffset, Span.Apart, Span.stop, ne_eq, not_true_eq_false, reduceCtorEq] at * <;> omega

theorem slotAddr_eq (h : p.Accepted length config s backing) (t : Nat) (l : Lane) :
    (p.region l).slotAddr (t % p.slots) p.tileBytes = .ok (p.slotWord t l) := by
  refine (Region.slotAddr_eq_ok (h.region_len_lt l)).mpr ⟨?_, rfl⟩
  rw [h.len_eq]
  exact Nat.mul_le_mul_right _ (Nat.mod_lt _ h.slots_pos)

theorem toNat_slotWord_mod (h : p.Accepted length config s backing) (t : Nat) (l : Lane) :
    (p.slotWord t l).toNat = (s.base.toNat + (p.region l).offset + t % p.slots * p.tileBytes) % addressLimit := by
  rw [Region.toNat_slotAddr (h.slotAddr_eq t l), h.base_eq]

/-- A slot ends inside its region, in exact arithmetic. -/
theorem slot_end_le (h : p.Accepted length config s backing) (t : Nat) (l : Lane) :
    (p.region l).offset + t % p.slots * p.tileBytes + p.tileBytes ≤ (p.region l).endOffset := by
  have hslot := Nat.mul_le_mul_right p.tileBytes (Nat.succ_le_of_lt (Nat.mod_lt t h.slots_pos))
  rw [Nat.succ_mul] at hslot
  rw [Region.endOffset, h.len_eq]
  omega

theorem toNat_slotWord (h : p.Accepted length config s backing) (hp : p.stop ≤ addressLimit) (t : Nat) (l : Lane) :
    (p.slotWord t l).toNat = s.base.toNat + (p.region l).offset + t % p.slots * p.tileBytes := by
  have hend := h.region_end_le_stop l
  have hslot := h.slot_end_le t l
  have hpos := h.tileBytes_pos
  rw [h.toNat_slotWord_mod, Nat.mod_eq_of_lt (by omega)]

/-- The slots begin at words exactly when the scratchpad does. -/
theorem slotWord_aligned_iff (h : p.Accepted length config s backing) (t : Nat) (l : Lane) :
    4 ∣ (p.slotWord t l).toNat ↔ 4 ∣ s.base.toNat := by
  have hslot : 4 ∣ t % p.slots * p.tileBytes := Nat.dvd_mul_left_of_dvd (Nat.dvd_mul_left _ _) _
  rw [h.toNat_slotWord_mod, Nat.dvd_mod_iff (by decide), Nat.dvd_add_left hslot, Nat.dvd_add_left (h.words l)]

theorem span_slotTile (h : p.Accepted length config s backing) (hp : p.stop ≤ addressLimit) (t : Nat) (l : Lane) :
    (p.slotTile t).span l =
      ⟨s.base.toNat + (p.region l).offset + t % p.slots * p.tileBytes, p.tileBytes⟩ := by
  rw [Tile.span, addr_slotTile, h.toNat_slotWord hp, bytes_slotTile]

theorem scratchpadTile_eq (h : p.Accepted length config s backing) {t : Nat} (ht : t < p.tiles) :
    p.scratchpadTile t = .ok (p.slotTile t) := by
  simp only [scratchpadTile, bind_eq_ok, checkTile_eq_ok, pure_eq_ok]
  exact ⟨(), ht, _, h.slotAddr_eq t .a, _, h.slotAddr_eq t .b, _, h.slotAddr_eq t .o, rfl⟩

theorem slot_within (h : p.Accepted length config s backing) (hp : p.stop ≤ addressLimit) (t : Nat) (l : Lane) :
    ((p.slotTile t).span l).Within (p.region l).span := by
  rw [h.span_slotTile hp, h.region_span hp]
  exact Span.piece_within _ _ (Nat.mod_lt _ h.slots_pos)

theorem lanes_apart (h : p.Accepted length config s backing) (hp : p.stop ≤ addressLimit) (t u : Nat) {l k : Lane}
    (hne : l ≠ k) : ((p.slotTile t).span l).Apart ((p.slotTile u).span k) :=
  (h.regions_apart hp hne).mono (h.slot_within hp t l) (h.slot_within hp u k)

theorem slots_apart (h : p.Accepted length config s backing) (hp : p.stop ≤ addressLimit) {t u : Nat}
    (hne : t % p.slots ≠ u % p.slots) (l : Lane) : ((p.slotTile t).span l).Apart ((p.slotTile u).span l) := by
  rw [h.span_slotTile hp, h.span_slotTile hp]
  exact Span.apart_pieces _ _ hne

end Accepted

theorem slots_shared {p : TilePlan} {t u : Nat} (he : t % p.slots = u % p.slots) (l : Lane) :
    (p.slotTile t).span l = (p.slotTile u).span l := by
  simp only [Tile.span, addr_slotTile, bytes_slotTile, slotWord, he]

namespace Accepted

variable {p : TilePlan} {length : Nat} {config : PipelineConfig} {s : Scratchpad} {backing : Backing}

theorem next_slot_ne (h : p.Accepted length config s backing) {t : Nat} (ht : t + 1 < p.tiles) :
    (t + 1) % p.slots ≠ t % p.slots := by
  intro he
  have hdvd := Nat.dvd_of_mod_eq_zero (Nat.sub_mod_eq_zero_of_mod_eq he)
  rw [Nat.add_sub_cancel_left, Nat.dvd_one] at hdvd
  have := h.two_le_slots (by omega)
  omega

/-- A tile keeps its slots while the next one takes its own. -/
theorem next_apart (h : p.Accepted length config s backing) (hp : p.stop ≤ addressLimit) {t : Nat} (ht : t + 1 < p.tiles)
    (l k : Lane) : ((p.slotTile (t + 1)).span l).Apart ((p.slotTile t).span k) := by
  by_cases hlk : l = k
  · subst hlk
    exact h.slots_apart hp (h.next_slot_ne ht) l
  · exact h.lanes_apart hp _ _ hlk

end Accepted

end TilePlan

end TileOffload
