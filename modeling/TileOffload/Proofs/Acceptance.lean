import TileOffload.Proofs.CanonicalPacking
import TileOffload.Proofs.Placement

/-! # Which plans are accepted

The checks of a plan stand in an order, and some of them guard against sizes that are none. Main statement: together
they amount to one condition in exact arithmetic. So a plan that is accepted stays accepted when it asks for less, with
two slots in place of one for each tile or with smaller tiles, and when there is more room. -/

namespace TileOffload.TilePlan

/-- The bytes that each operand takes in the scratchpad. -/
def operandBytes (length : Nat) (config : PipelineConfig) : Nat :=
  config.depth.slots (length / config.tileLength) * (config.tileLength * Chip.elementBytes)

/-- The operands of a plan, each with so many bytes. -/
def operands (bytes : Nat) : List Operand := [⟨"a", bytes⟩, ⟨"b", bytes⟩, ⟨"o", bytes⟩]

/-- Where the last operand ends in the canonical packing. -/
def packedBytes (length : Nat) (config : PipelineConfig) (s : Scratchpad) : Nat :=
  Packing.lastStop s.alignment 0 (operands (operandBytes length config))

/-- What has to be the case for a plan. -/
structure Acceptable (length : Nat) (config : PipelineConfig) (s : Scratchpad) (backing : Backing) : Prop where
  length_ne_zero : length ≠ 0
  tileLength_ne_zero : config.tileLength ≠ 0
  tileLength_dvd : config.tileLength ∣ length
  single : config.depth = .single → length / config.tileLength = 1
  backing_aligned : ∀ l, 4 ∣ (backing.addr l).toNat
  fits : packedBytes length config s ≤ s.capacity

/-- The plan that there is then. -/
def planned (length : Nat) (config : PipelineConfig) (s : Scratchpad) (backing : Backing) : TilePlan :=
  let region := fun j => ⟨s.base, Packing.offset s.alignment 0 (operands (operandBytes length config)) j,
    operandBytes length config⟩
  { length
    tileLength := config.tileLength
    tiles := length / config.tileLength
    depth := config.depth
    slots := config.depth.slots (length / config.tileLength)
    layout := {
      regions := Packing.regions s.base s.alignment 0 (operands (operandBytes length config))
      used := packedBytes length config s
      capacity := s.capacity }
    a := region 0
    b := region 1
    o := region 2
    backing }

variable {length : Nat} {config config' : PipelineConfig} {s : Scratchpad} {backing : Backing} {p : TilePlan}

theorem operandBytes_le_packedBytes (length : Nat) (config : PipelineConfig) (s : Scratchpad) :
    operandBytes length config ≤ packedBytes length config s :=
  Nat.le_trans (Nat.le_add_left _ _) (Packing.stop_le_lastStop s.alignment_pos (operands (operandBytes length config))
    (Nat.zero_lt_succ 2))

theorem packedBytes_mono (h : operandBytes length config ≤ operandBytes length config') :
    packedBytes length config s ≤ packedBytes length config' s := by
  refine Packing.stop_le_stop s.alignment_pos (fun k => ?_) 2
  rcases k with - | - | - | k
  · exact h
  · exact h
  · exact h
  · exact Nat.le_refl 0

theorem Acceptable.tiles_ne_zero (h : Acceptable length config s backing) : length / config.tileLength ≠ 0 :=
  (Nat.div_ne_zero_iff_of_dvd h.tileLength_dvd).mpr ⟨h.length_ne_zero, h.tileLength_ne_zero⟩

theorem make_eq_ok_iff (hs : s.alignment < Size.limit) :
    make length config s backing = .ok p ↔
      Acceptable length config s backing ∧ p = planned length config s backing := by
  simp only [make, bind_eq_ok, unless_eq_ok, pure_eq_ok, needed_eq_ok, Size.mul?_eq_some, checkAligned_eq_ok,
    placed_eq_ok, Scratchpad.allocate_eq_ok_iff hs]
  constructor
  · rintro ⟨hzero, hdiv, hsingle, _, ⟨rfl, -⟩, _, ha, _, hb, _, ho, _, ⟨rfl, -⟩, _, ⟨hfits, rfl⟩, _, hra, _, hrb, _, hro,
      rfl⟩
    cases hra
    cases hrb
    cases hro
    simp only [not_or] at hzero
    have hdvd : config.tileLength ∣ length := Nat.dvd_of_mod_eq_zero (Classical.not_not.mp hdiv)
    have htiles : length / config.tileLength ≠ 0 := (Nat.div_ne_zero_iff_of_dvd hdvd).mpr hzero
    refine ⟨⟨hzero.1, hzero.2, hdvd, fun hd => ?_, fun l => by cases l <;> assumption, hfits⟩, rfl⟩
    exact Nat.le_antisymm (Nat.not_lt.mp fun hmany => hsingle ⟨hd, hmany⟩) (Nat.pos_of_ne_zero htiles)
  · rintro ⟨h, rfl⟩
    have hbytes : operandBytes length config < Size.limit :=
      Nat.lt_of_le_of_lt (Nat.le_trans (operandBytes_le_packedBytes length config s) h.fits) s.capacity_lt
    have htile : config.tileLength * Chip.elementBytes < Size.limit :=
      Nat.lt_of_le_of_lt (Nat.le_mul_of_pos_left _ (config.depth.slots_pos (Nat.pos_of_ne_zero h.tiles_ne_zero))) hbytes
    refine ⟨not_or.mpr ⟨h.length_ne_zero, h.tileLength_ne_zero⟩, not_not_intro (Nat.mod_eq_zero_of_dvd h.tileLength_dvd),
      fun hmany => ?_, _, ⟨rfl, htile⟩, (), h.backing_aligned .a, (), h.backing_aligned .b, (), h.backing_aligned .o, _,
      ⟨rfl, hbytes⟩, _, ⟨h.fits, rfl⟩, _, rfl, _, rfl, _, rfl, rfl⟩
    have := h.single hmany.1
    omega

theorem exists_make (hs : s.alignment < Size.limit) :
    (∃ p, make length config s backing = .ok p) ↔ Acceptable length config s backing :=
  ⟨fun ⟨_, h⟩ => ((make_eq_ok_iff hs).mp h).1, fun h => ⟨_, (make_eq_ok_iff hs).mpr ⟨h, rfl⟩⟩⟩

/-! ### Less to place, or more room -/

theorem Acceptable.shrink (h : Acceptable length config s backing) (htile : config'.tileLength ≠ 0)
    (hdvd : config'.tileLength ∣ length) (hdepth : config'.depth ≠ .single)
    (hbytes : operandBytes length config' ≤ operandBytes length config) : Acceptable length config' s backing where
  length_ne_zero := h.length_ne_zero
  tileLength_ne_zero := htile
  tileLength_dvd := hdvd
  single := fun hd => absurd hd hdepth
  backing_aligned := h.backing_aligned
  fits := Nat.le_trans (packedBytes_mono hbytes) h.fits

/-- Two slots are never more than one for each tile. -/
theorem operandBytes_double_le (length : Nat) (hdepth : config.depth = .resident) :
    operandBytes length { config with depth := .double } ≤ operandBytes length config := by
  simp only [operandBytes, hdepth, BufferDepth.slots]
  exact Nat.mul_le_mul_right _ (Nat.min_le_left _ _)

/-- Two smaller tiles take no more than the larger one that they come from: there is a second slot only where the tile
    has been cut in two at least. -/
theorem operandBytes_divisor_le {t : Nat} (hlength : length ≠ 0) (hdepth : config.depth = .double)
    (hdvd : config.tileLength ∣ length) (ht : t ∣ config.tileLength) :
    operandBytes length { config with tileLength := t } ≤ operandBytes length config := by
  obtain ⟨n, rfl⟩ := hdvd
  obtain ⟨k, hk⟩ := ht
  obtain ⟨hmul, hn⟩ := Nat.mul_ne_zero_iff.mp hlength
  rw [hk] at hmul
  obtain ⟨htne, hkne⟩ := Nat.mul_ne_zero_iff.mp hmul
  have htiles : config.tileLength * n / config.tileLength = n :=
    Nat.mul_div_cancel_left n (Nat.pos_of_ne_zero (hk ▸ hmul))
  have htiles' : config.tileLength * n / t = k * n := by
    rw [hk, Nat.mul_assoc, Nat.mul_div_cancel_left _ (Nat.pos_of_ne_zero htne)]
  simp only [operandBytes, hdepth, BufferDepth.slots, htiles, htiles']
  rw [← Nat.mul_assoc, ← Nat.mul_assoc, hk]
  refine Nat.mul_le_mul_right _ ?_
  calc min (k * n) 2 * t ≤ min n 2 * k * t := Nat.mul_le_mul_right t ?_
    _ = min n 2 * (t * k) := by rw [Nat.mul_assoc, Nat.mul_comm k t]
  rcases Nat.lt_or_ge n 2 with hn2 | hn2
  · obtain rfl : n = 1 := by omega
    rw [Nat.mul_one, Nat.min_eq_left (Nat.le_succ 1), Nat.one_mul]
    exact Nat.min_le_left k 2
  · rw [Nat.min_eq_right hn2]
    omega

theorem Acceptable.enlarge {s' : Scratchpad} (h : Acceptable length config s backing)
    (halign : s'.alignment = s.alignment) (hcap : s.capacity ≤ s'.capacity) : Acceptable length config s' backing := by
  have hpacked : packedBytes length config s' = packedBytes length config s := by rw [packedBytes, halign, packedBytes]
  exact { h with fits := hpacked ▸ Nat.le_trans h.fits hcap }

theorem planned_enlarge {s' : Scratchpad} (hbase : s'.base = s.base) (halign : s'.alignment = s.alignment) :
    planned length config s' backing = { planned length config s backing with
      layout := { (planned length config s backing).layout with capacity := s'.capacity } } := by
  simp only [planned, packedBytes, hbase, halign]

/-- A plan is accepted exactly when the dataset and its tiles are not empty and the tiles cut it evenly, a single slot is
    asked for one tile only, the vectors begin at words, and the three operands fit into the scratchpad, packed in exact
    arithmetic. The tiles then make up the dataset. An accepted plan stays accepted, with no more of the scratchpad in
    use, with two slots in place of one for each tile, and with tiles of a length that divides that of its two-slot
    tiles; and it stays the same plan in a larger scratchpad. -/
theorem acceptance_exact_and_monotone (hs : s.alignment < Size.limit) (length : Nat) (config : PipelineConfig)
    (backing : Backing) :
    ((∃ p, make length config s backing = .ok p) ↔ Acceptable length config s backing) ∧
    ∀ p, make length config s backing = .ok p →
      (p.tileLength = config.tileLength ∧ p.tiles * p.tileLength = length ∧
        p.layout.used = packedBytes length config s) ∧
      (config.depth = .resident →
        ∃ p', make length { config with depth := .double } s backing = .ok p' ∧ p'.layout.used ≤ p.layout.used) ∧
      (config.depth = .double → ∀ t, t ≠ 0 → t ∣ config.tileLength →
        ∃ p', make length { config with tileLength := t } s backing = .ok p' ∧ p'.layout.used ≤ p.layout.used) ∧
      ∀ capacity, s.capacity ≤ capacity → s.base.toNat + capacity < addressLimit →
        ∃ s', Scratchpad.make s.base capacity s.alignment = .ok s' ∧
          make length config s' backing = .ok { p with layout := { p.layout with capacity := capacity } } := by
  refine ⟨exists_make hs, fun p hp => ?_⟩
  obtain ⟨h, rfl⟩ := (make_eq_ok_iff hs).mp hp
  refine ⟨⟨rfl, Nat.div_mul_cancel h.tileLength_dvd, rfl⟩, fun hdepth => ?_, fun hdepth t ht hdvd => ?_,
    fun capacity hcap hend => ?_⟩
  · have hbytes := operandBytes_double_le length hdepth
    have h' : Acceptable length { config with depth := .double } s backing :=
      h.shrink h.tileLength_ne_zero h.tileLength_dvd (by simp) hbytes
    exact ⟨_, (make_eq_ok_iff hs).mpr ⟨h', rfl⟩, packedBytes_mono hbytes⟩
  · have hbytes := operandBytes_divisor_le h.length_ne_zero hdepth h.tileLength_dvd hdvd
    have h' : Acceptable length { config with tileLength := t } s backing :=
      h.shrink ht (Nat.dvd_trans hdvd h.tileLength_dvd) (by simp [hdepth]) hbytes
    exact ⟨_, (make_eq_ok_iff hs).mpr ⟨h', rfl⟩, packedBytes_mono hbytes⟩
  · have hsize : s.base.toNat + capacity < Size.limit := Nat.lt_trans hend (by decide)
    obtain ⟨s', hs'⟩ : ∃ s', Scratchpad.make s.base capacity s.alignment = .ok s' :=
      ⟨_, Scratchpad.make_eq s.alignment_pow s.alignment_dvd_base (by omega) (by rwa [Size.wrap_of_lt hsize])⟩
    obtain ⟨hbase, hcapacity, halign⟩ := Scratchpad.make_eq_ok hs'
    refine ⟨s', hs', (make_eq_ok_iff (halign ▸ hs)).mpr ⟨h.enlarge halign (hcapacity ▸ hcap), ?_⟩⟩
    rw [planned_enlarge hbase halign, hcapacity]

/-- Five resident tiles of four elements, and what may take their place: two slots for each operand, and then tiles of
    two elements. -/
theorem twenty_by_four_stays_accepted :
    ∃ b p p' p'', b = ⟨Chip.backingBase, Chip.backingBase + 80, Chip.backingBase + 160⟩ ∧
      make 20 ⟨4, .resident, .standard⟩ .tcdm b = .ok p ∧ p.layout.used = 240 ∧
      make 20 (.tiled 4) .tcdm b = .ok p' ∧ p'.layout.used ≤ 240 ∧
      make 20 (.tiled 2) .tcdm b = .ok p'' ∧ p''.layout.used ≤ p'.layout.used := by
  have hlimit : Scratchpad.tcdm.alignment < Size.limit := by decide
  have haligned : ∀ l, 4 ∣ (Backing.addr ⟨Chip.backingBase, Chip.backingBase + 80, Chip.backingBase + 160⟩ l).toNat :=
    fun l => by cases l <;> decide
  obtain ⟨hexact, hmono⟩ := acceptance_exact_and_monotone hlimit 20 ⟨4, .resident, .standard⟩ _
  obtain ⟨p, hp⟩ := hexact.mpr ⟨by decide, by decide, by decide, nofun, haligned, by decide +kernel⟩
  obtain ⟨⟨-, -, hused⟩, hdouble, -⟩ := hmono p hp
  have hused : p.layout.used = 240 := hused.trans (by decide +kernel)
  obtain ⟨p', hp', hle⟩ := hdouble rfl
  obtain ⟨-, -, hdivisor, -⟩ := (acceptance_exact_and_monotone hlimit 20 (.tiled 4) _).2 p' hp'
  obtain ⟨p'', hp'', hle'⟩ := hdivisor rfl 2 (by decide) (by decide)
  exact ⟨_, p, p', p'', rfl, hp, hused, hp', hused ▸ hle, hp'', hle'⟩

end TileOffload.TilePlan
