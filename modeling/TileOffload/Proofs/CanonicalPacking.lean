import TileOffload.Proofs.Packing

/-! # The canonical packing

The packing of a list of operands in exact arithmetic: the first begins at zero, and each of the others at the next
multiple of the alignment after the end of the one before it. Main statement: the allocator makes this packing whenever
it ends inside the scratchpad, and refuses it otherwise; and a region that it has made is cut into slots without a loss
to the width of sizes or addresses. -/

namespace TileOffload

namespace Packing

/-- The bytes of operand `j`; none past the last. -/
def bytes (ops : List Operand) (j : Nat) : Nat := (ops[j]?).elim 0 (·.bytes)

/-- Where operand `j` begins if the first begins at `first`. -/
def offset (align first : Nat) (ops : List Operand) : Nat → Nat
  | 0 => first
  | j + 1 => Size.roundUp (offset align first ops j + bytes ops j) align

/-- Where operand `j` ends. -/
def stop (align first : Nat) (ops : List Operand) (j : Nat) : Nat := offset align first ops j + bytes ops j

/-- Where the last operand ends. -/
def lastStop (align first : Nat) (ops : List Operand) : Nat := stop align first ops (ops.length - 1)

/-- The regions of the operands, in their order. -/
def regions (base : Word) (align first : Nat) (ops : List Operand) : List (String × Region) :=
  ops.mapIdx fun j op => (op.name, ⟨base, offset align first ops j, op.bytes⟩)

variable {base : Word} {align first : Nat} {op op' : Operand} {ops : List Operand} {i j : Nat}

theorem offset_cons (j : Nat) : offset align first (op :: ops) (j + 1) =
    offset align (Size.roundUp (first + op.bytes) align) ops j := by
  induction j with
  | zero => rfl
  | succ j ih => rw [offset, ih, offset]; rfl

theorem lastStop_cons : lastStop align first (op :: op' :: ops) =
    lastStop align (Size.roundUp (first + op.bytes) align) (op' :: ops) := by
  have hoffset : offset align first (op :: op' :: ops) (ops.length + 1) =
      offset align (Size.roundUp (first + op.bytes) align) (op' :: ops) ops.length := offset_cons _
  simp only [lastStop, stop, List.length_cons, Nat.add_sub_cancel, hoffset]
  rfl

theorem regions_cons : regions base align first (op :: ops) =
    (op.name, ⟨base, first, op.bytes⟩) :: regions base align (Size.roundUp (first + op.bytes) align) ops := by
  simp only [regions, List.mapIdx_cons, offset_cons]
  rfl

theorem dvd_offset (hfirst : align ∣ first) (ops : List Operand) (j : Nat) : align ∣ offset align first ops j := by
  cases j with
  | zero => exact hfirst
  | succ j => exact Size.dvd_roundUp _ _

theorem stop_le_offset (hpos : 0 < align) (first : Nat) (ops : List Operand) (h : i < j) :
    stop align first ops i ≤ offset align first ops j := by
  induction j with
  | zero => omega
  | succ j ih =>
    have hnext : stop align first ops j ≤ offset align first ops (j + 1) := Size.le_roundUp hpos _
    rcases Nat.eq_or_lt_of_le (Nat.le_of_lt_succ h) with rfl | hlt
    · exact hnext
    · exact Nat.le_trans (ih hlt) (Nat.le_trans (Nat.le_add_right _ _) hnext)

theorem stop_mono (hpos : 0 < align) (h : i ≤ j) : stop align first ops i ≤ stop align first ops j := by
  rcases Nat.eq_or_lt_of_le h with rfl | hlt
  · exact Nat.le_refl _
  · exact Nat.le_trans (stop_le_offset hpos _ _ hlt) (Nat.le_add_right _ _)

theorem stop_le_lastStop (hpos : 0 < align) (ops : List Operand) (h : j < ops.length) :
    stop align first ops j ≤ lastStop align first ops :=
  stop_mono hpos (by omega)

/-- Operands that are no larger are packed no further. -/
theorem stop_le_stop {ops' : List Operand} (hpos : 0 < align) (h : ∀ k, bytes ops k ≤ bytes ops' k) (j : Nat) :
    stop align first ops j ≤ stop align first ops' j := by
  induction j with
  | zero => exact Nat.add_le_add_left (h 0) first
  | succ j ih => exact Nat.add_le_add (Size.roundUp_mono hpos ih) (h (j + 1))

theorem getElem?_regions {x : String × Region} : (regions base align first ops)[j]? = some x ↔
    ∃ op, ops[j]? = some op ∧ (op.name, ⟨base, offset align first ops j, op.bytes⟩) = x := by
  rw [regions, List.getElem?_mapIdx, Option.map_eq_some_iff]

theorem bytes_of_getElem? (h : ops[j]? = some op) : bytes ops j = op.bytes := by rw [bytes, h]; rfl

end Packing

namespace Scratchpad

variable {s : Scratchpad} {ops : List Operand}

theorem alignment_dvd_limit (h : s.alignment < Size.limit) : s.alignment ∣ Size.limit := by
  have hlimit : Size.limit = 2 ^ 64 := rfl
  obtain ⟨k, hk⟩ := s.isPowerOfTwo_alignment
  rw [hk, hlimit] at h
  rw [hk, hlimit]
  exact Nat.pow_dvd_pow 2 (Nat.le_of_lt ((Nat.pow_lt_pow_iff_right Nat.one_lt_two).mp h))

/-- The packing of one operand and the rest: both steps of the search stay within sizes when the end of the operand
    does. -/
theorem pack?_cons_eq (h : s.alignment < Size.limit) (cursor : Nat) (op : Operand) (ops : List Operand) :
    s.pack? cursor (op :: ops) =
      if Size.roundUp cursor s.alignment + op.bytes < Size.limit then
        (s.pack? (Size.roundUp cursor s.alignment + op.bytes) ops).map fun x =>
          ((op.name, ⟨s.base, Size.roundUp cursor s.alignment, op.bytes⟩) :: x.1, x.2)
      else none := by
  have halign : ∀ m, Size.alignUp? cursor s.alignment = some m ↔
      m = Size.roundUp cursor s.alignment ∧ m < Size.limit :=
    fun m => Size.alignUp?_eq_some_exact s.alignment_pos (alignment_dvd_limit h)
  split
  · rename_i hstop
    have hoffset := (halign _).mpr ⟨rfl, Nat.lt_of_le_of_lt (Nat.le_add_right _ _) hstop⟩
    rw [pack?, hoffset, Option.bind_eq_bind, Option.bind_some, Size.add?_eq_some.mpr ⟨rfl, hstop⟩, Option.bind_eq_bind,
      Option.bind_some]
    cases s.pack? (Size.roundUp cursor s.alignment + op.bytes) ops <;> rfl
  · rename_i hstop
    refine Option.eq_none_iff_forall_ne_some.mpr fun x hx => hstop ?_
    obtain ⟨offset, rest, hoffset, hlt, -⟩ := pack?_cons hx
    obtain ⟨rfl, -⟩ := (halign offset).mp hoffset
    exact hlt

theorem pack?_eq (h : s.alignment < Size.limit) (cursor : Nat) (op : Operand) (ops : List Operand) :
    s.pack? cursor (op :: ops) =
      if Packing.lastStop s.alignment (Size.roundUp cursor s.alignment) (op :: ops) < Size.limit then
        some (Packing.regions s.base s.alignment (Size.roundUp cursor s.alignment) (op :: ops),
          Packing.lastStop s.alignment (Size.roundUp cursor s.alignment) (op :: ops))
      else none := by
  -- On the operands: the packing of the rest begins where the first one ends.
  induction ops generalizing cursor op with
  | nil =>
    rw [pack?_cons_eq h]
    rfl
  | cons op' ops ih =>
    have hfirst : Size.roundUp cursor s.alignment + op.bytes ≤
        Packing.lastStop s.alignment (Size.roundUp cursor s.alignment) (op :: op' :: ops) :=
      Packing.stop_le_lastStop s.alignment_pos (op :: op' :: ops) (Nat.zero_lt_succ _)
    have hregions : Packing.regions s.base s.alignment (Size.roundUp cursor s.alignment) (op :: op' :: ops) =
        (op.name, ⟨s.base, Size.roundUp cursor s.alignment, op.bytes⟩) :: Packing.regions s.base s.alignment
          (Size.roundUp (Size.roundUp cursor s.alignment + op.bytes) s.alignment) (op' :: ops) := Packing.regions_cons
    rw [Packing.lastStop_cons] at hfirst ⊢
    rw [pack?_cons_eq h, ih, hregions]
    split
    · split <;> rfl
    · rw [if_neg (by omega)]

/-- The packing of the operands, if it ends inside the scratchpad; and otherwise how much they would take, as far as
    that is a size. -/
theorem allocate_eq (h : s.alignment < Size.limit) (ops : List Operand) :
    s.allocate ops =
      if Packing.lastStop s.alignment 0 ops ≤ s.capacity then
        .ok ⟨Packing.regions s.base s.alignment 0 ops, Packing.lastStop s.alignment 0 ops, s.capacity⟩
      else .error (.scratchpadOverflow (min (Packing.lastStop s.alignment 0 ops) Size.largest) s.capacity) := by
  have hcapacity := s.capacity_lt
  have hlargest : Size.largest = Size.limit - 1 := rfl
  cases ops with
  | nil => rfl
  | cons op ops =>
    have hzero : Size.roundUp 0 s.alignment = 0 := Size.roundUp_of_dvd s.alignment_pos (Nat.dvd_zero _)
    rw [allocate, pack?_eq h, hzero]
    by_cases hsize : Packing.lastStop s.alignment 0 (op :: ops) < Size.limit
    · rw [if_pos hsize, Nat.min_eq_left (by omega)]
    · rw [if_neg hsize, if_neg (by omega), Nat.min_eq_right (by omega)]

/-! ### What an allocation gives -/

theorem allocate_eq_ok_iff (h : s.alignment < Size.limit) {l : Layout} :
    s.allocate ops = .ok l ↔ Packing.lastStop s.alignment 0 ops ≤ s.capacity ∧
      l = ⟨Packing.regions s.base s.alignment 0 ops, Packing.lastStop s.alignment 0 ops, s.capacity⟩ := by
  rw [allocate_eq h]
  split
  · rename_i hcap
    simp only [Except.ok.injEq, hcap, true_and, eq_comm]
  · rename_i hcap
    simp only [reduceCtorEq, hcap, false_and]

theorem exists_allocate (h : s.alignment < Size.limit) :
    (∃ l, s.allocate ops = .ok l) ↔ Packing.lastStop s.alignment 0 ops ≤ s.capacity :=
  ⟨fun ⟨_, hl⟩ => ((allocate_eq_ok_iff h).mp hl).1, fun hcap => ⟨_, (allocate_eq_ok_iff h).mpr ⟨hcap, rfl⟩⟩⟩

theorem allocate_eq_error_iff (h : s.alignment < Size.limit) {e : Error} :
    s.allocate ops = .error e ↔ s.capacity < Packing.lastStop s.alignment 0 ops ∧
      e = .scratchpadOverflow (min (Packing.lastStop s.alignment 0 ops) Size.largest) s.capacity := by
  rw [allocate_eq h]
  split
  · rename_i hcap
    simp only [reduceCtorEq, Nat.not_lt.mpr hcap, false_and]
  · rename_i hcap
    simp only [Except.error.injEq, Nat.not_le.mp hcap, true_and, eq_comm]

variable {l : Layout} {x y : String × Region} {i j index bytes : Nat}

/-- A region that has been allocated: where it begins and ends in the packing, and that it ends with the packing at the
    latest. -/
theorem region_of_allocate (h : s.alignment < Size.limit) (hl : s.allocate ops = .ok l) (hx : l.regions[j]? = some x) :
    x.2.base = s.base ∧ x.2.offset = Packing.offset s.alignment 0 ops j ∧
      x.2.endOffset = Packing.stop s.alignment 0 ops j ∧ x.2.endOffset ≤ l.used := by
  obtain ⟨-, rfl⟩ := (allocate_eq_ok_iff h).mp hl
  obtain ⟨op, hop, rfl⟩ := Packing.getElem?_regions.mp hx
  have hend : Packing.offset s.alignment 0 ops j + op.bytes = Packing.stop s.alignment 0 ops j := by
    rw [Packing.stop, Packing.bytes_of_getElem? hop]
  have hj : j < ops.length := (List.getElem?_eq_some_iff.mp hop).1
  exact ⟨rfl, rfl, hend, Nat.le_trans (Nat.le_of_eq hend) (Packing.stop_le_lastStop s.alignment_pos ops hj)⟩

/-- A region meets itself only, and only if it has a byte. -/
theorem overlaps_of_allocate (h : s.alignment < Size.limit) (hl : s.allocate ops = .ok l)
    (hx : l.regions[i]? = some x) (hy : l.regions[j]? = some y) :
    x.2.overlaps y.2 = true ↔ i = j ∧ x.2.isEmpty = false := by
  obtain ⟨-, hxo, hxe, -⟩ := region_of_allocate h hl hx
  obtain ⟨-, hyo, hye, -⟩ := region_of_allocate h hl hy
  rw [Region.overlaps, Bool.and_eq_true, decide_eq_true_iff, decide_eq_true_iff]
  rcases Nat.lt_trichotomy i j with hij | rfl | hij
  · have := Packing.stop_le_offset s.alignment_pos 0 ops hij
    omega
  · cases hx.symm.trans hy
    simp only [Region.isEmpty, Region.endOffset, true_and, beq_eq_false_iff_ne, ne_eq]
    omega
  · have := Packing.stop_le_offset s.alignment_pos 0 ops hij
    omega

theorem end_lt_of_allocate (h : s.alignment < Size.limit) (hl : s.allocate ops = .ok l) (hx : l.regions[j]? = some x)
    (hend : s.base.toNat + l.used < addressLimit) : x.2.base.toNat + x.2.endOffset < addressLimit := by
  obtain ⟨hbase, -, -, hle⟩ := region_of_allocate h hl hx
  rw [hbase]
  omega

theorem slotAddr_of_allocate (h : s.alignment < Size.limit) (hl : s.allocate ops = .ok l)
    (hx : l.regions[j]? = some x) (hend : s.base.toNat + l.used < addressLimit) :
    ((∃ w, x.2.slotAddr index bytes = .ok w) ↔ (index + 1) * bytes ≤ x.2.len) ∧
      ∀ w, x.2.slotAddr index bytes = .ok w → w.toNat = s.base.toNat + x.2.offset + index * bytes := by
  obtain ⟨hbase, -⟩ := region_of_allocate h hl hx
  have hstop := end_lt_of_allocate h hl hx hend
  have hlargest : addressLimit < Size.largest := by decide
  rw [hbase, Region.endOffset] at hstop
  have hlen : x.2.len < Size.largest := by omega
  refine ⟨⟨?_, ?_⟩, fun w hw => ?_⟩
  · rintro ⟨w, hw⟩
    exact ((Region.slotAddr_eq_ok hlen).mp hw).1
  · exact fun hle => ⟨_, (Region.slotAddr_eq_ok hlen).mpr ⟨hle, rfl⟩⟩
  · have hle := ((Region.slotAddr_eq_ok hlen).mp hw).1
    rw [Nat.succ_mul] at hle
    rw [Region.toNat_slotAddr hw, hbase, Nat.mod_eq_of_lt (by omega)]

/-- The packings of a scratchpad end inside the address space unless the sum that tells its end has left 64 bits; then
    one operand that takes the whole scratchpad ends outside. -/
theorem used_lt_iff (h : s.alignment < Size.limit) :
    (∀ ops l, s.allocate ops = .ok l → s.base.toNat + l.used < addressLimit) ↔
      s.base.toNat + s.capacity < Size.limit := by
  have hlimit : addressLimit < Size.limit := by decide
  constructor
  · intro hall
    have hlast : Packing.lastStop s.alignment 0 [⟨"whole", s.capacity⟩] = s.capacity := Nat.zero_add _
    have hwhole : s.base.toNat + Packing.lastStop s.alignment 0 [⟨"whole", s.capacity⟩] < addressLimit :=
      hall _ _ ((allocate_eq_ok_iff h).mpr ⟨Nat.le_of_eq hlast, rfl⟩)
    omega
  · intro hlt ops l hl
    obtain ⟨hcap, rfl⟩ := (allocate_eq_ok_iff h).mp hl
    exact Nat.lt_of_le_of_lt (Nat.add_le_add_left hcap _) (s.end_lt_of_lt hlt)

/-- What the allocator does with any operands, where the canonical packing is made in exact arithmetic. It places them
    exactly when the packing ends inside the scratchpad. Their regions are those of the packing, in the order of the
    operands, each at a multiple of the alignment; a region meets itself only. Operands that do not fit are refused with
    the end of the packing, or with the largest size if an operand ends at no size. Where the packing ends inside the
    address space, regions and slots have their exact addresses below its end, a slot of a region is given exactly when it
    ends inside the region, and no two slots of one length meet. All packings of a scratchpad end there exactly if the sum
    of its base and its size is a size. -/
theorem allocate_packs_canonically {base : Word} {capacity alignment : Nat}
    (hs : make base capacity alignment = .ok s) (hsize : alignment < Size.limit) :
    ((∀ ops l, s.allocate ops = .ok l → base.toNat + l.used < addressLimit) ↔ base.toNat + capacity < Size.limit) ∧
    ∀ ops : List Operand, ((∃ l, s.allocate ops = .ok l) ↔ Packing.lastStop alignment 0 ops ≤ capacity) ∧
    (∀ l, s.allocate ops = .ok l →
      l.regions = Packing.regions base alignment 0 ops ∧ l.used = Packing.lastStop alignment 0 ops ∧
      l.capacity = capacity ∧ (∀ x ∈ l.regions, alignment ∣ x.2.offset) ∧
      (∀ (i j : Nat) (x y : String × Region), l.regions[i]? = some x → l.regions[j]? = some y →
        (x.2.overlaps y.2 = true ↔ i = j ∧ x.2.isEmpty = false)) ∧
      (base.toNat + l.used < addressLimit → ∀ x ∈ l.regions,
        (base.toNat + x.2.endOffset < addressLimit ∧ x.2.addr.toNat = base.toNat + x.2.offset) ∧
        ∀ bytes,
          (∀ index, ((∃ w, x.2.slotAddr index bytes = .ok w) ↔ (index + 1) * bytes ≤ x.2.len) ∧
            ∀ w, x.2.slotAddr index bytes = .ok w → w.toNat = base.toNat + x.2.offset + index * bytes) ∧
          ∀ i j v w, i ≠ j → x.2.slotAddr i bytes = .ok v → x.2.slotAddr j bytes = .ok w →
            Span.Apart ⟨v.toNat, bytes⟩ ⟨w.toNat, bytes⟩)) ∧
    ∀ e, s.allocate ops = .error e →
      ((∀ j < ops.length, Packing.stop alignment 0 ops j < Size.limit) →
        e = .scratchpadOverflow (Packing.lastStop alignment 0 ops) capacity) ∧
      ((∃ j < ops.length, Size.limit ≤ Packing.stop alignment 0 ops j) →
        e = .scratchpadOverflow Size.largest capacity) := by
  obtain ⟨rfl, rfl, rfl⟩ := make_eq_ok hs
  have hlargest : Size.largest = Size.limit - 1 := rfl
  refine ⟨used_lt_iff hsize, fun ops => ⟨exists_allocate hsize, fun l hl => ?_, fun e he => ?_⟩⟩
  · have hat : ∀ x ∈ l.regions, ∃ j, l.regions[j]? = some x := fun x hx => List.mem_iff_getElem?.mp hx
    obtain ⟨-, hl_eq⟩ := (allocate_eq_ok_iff hsize).mp hl
    refine ⟨hl_eq ▸ rfl, hl_eq ▸ rfl, hl_eq ▸ rfl, fun x hx => ?_,
      fun i j x y hx hy => overlaps_of_allocate hsize hl hx hy, fun hend x hx => ⟨?_, fun bytes => ?_⟩⟩
    · obtain ⟨j, hj⟩ := hat x hx
      obtain ⟨-, hoffset, -⟩ := region_of_allocate hsize hl hj
      exact hoffset ▸ Packing.dvd_offset (Nat.dvd_zero _) ops j
    · obtain ⟨j, hj⟩ := hat x hx
      obtain ⟨hbase, -⟩ := region_of_allocate hsize hl hj
      have hstop := end_lt_of_allocate hsize hl hj hend
      have hstart : x.2.base.toNat + x.2.offset < addressLimit :=
        Nat.lt_of_le_of_lt (Nat.add_le_add_left (Nat.le_add_right _ _) _) hstop
      rw [← hbase]
      exact ⟨hstop, by rw [Region.toNat_addr, Nat.mod_eq_of_lt hstart]⟩
    · obtain ⟨k, hk⟩ := hat x hx
      refine ⟨fun index => slotAddr_of_allocate hsize hl hk hend, fun i j v w hne hv hw => ?_⟩
      rw [(slotAddr_of_allocate hsize hl hk hend).2 v hv, (slotAddr_of_allocate hsize hl hk hend).2 w hw]
      exact Span.apart_pieces _ _ hne
  · obtain ⟨hcap, rfl⟩ := (allocate_eq_error_iff hsize).mp he
    constructor
    · intro hsizes
      have hlast : ops.length - 1 < ops.length := by
        refine Nat.sub_one_lt fun hnil => ?_
        obtain rfl := List.eq_nil_of_length_eq_zero hnil
        exact Nat.not_lt_zero _ hcap
      have hlt : Packing.lastStop s.alignment 0 ops < Size.limit := hsizes _ hlast
      rw [Nat.min_eq_left (by omega)]
    · rintro ⟨j, hj, hlarge⟩
      have hle : Packing.stop s.alignment 0 ops j ≤ Packing.lastStop s.alignment 0 ops :=
        Packing.stop_le_lastStop s.alignment_pos ops hj
      rw [Nat.min_eq_right (by omega)]

/-- An exact fit just below the end of the address space, with an operand that has no bytes between the others. -/
theorem high_packing_is_canonical :
    ∃ s l, make 0xFFFFFF00 0xF8 8 = .ok s ∧ s.allocate [⟨"a", 236⟩, ⟨"b", 0⟩, ⟨"o", 8⟩] = .ok l ∧ l.used = 248 ∧
      l.regions.map (·.2.offset) = [0, 240, 240] ∧
      (∀ (i j : Nat) (x y : String × Region), l.regions[i]? = some x → l.regions[j]? = some y →
        (x.2.overlaps y.2 = true ↔ i = j ∧ x.2.isEmpty = false)) ∧
      (∀ x ∈ l.regions, x.2.addr.toNat = 0xFFFFFF00 + x.2.offset) ∧
      s.allocate [⟨"a", 236⟩, ⟨"b", Size.largest⟩] = .error (.scratchpadOverflow Size.largest 248) := by
  obtain ⟨s, hs⟩ : ∃ s, make 0xFFFFFF00 0xF8 8 = .ok s :=
    ⟨_, make_eq isPowerOfTwo_eight (by decide) (by decide) (by decide)⟩
  obtain ⟨hends, hpacks⟩ := allocate_packs_canonically hs (by decide)
  obtain ⟨hfits, hplaced, -⟩ := hpacks [⟨"a", 236⟩, ⟨"b", 0⟩, ⟨"o", 8⟩]
  obtain ⟨hfits', -, herror⟩ := hpacks [⟨"a", 236⟩, ⟨"b", Size.largest⟩]
  obtain ⟨l, hl⟩ := hfits.mpr (by decide +kernel)
  obtain ⟨hregions, hused, -, -, hoverlaps, hexact⟩ := hplaced l hl
  refine ⟨s, l, hs, hl, hused.trans (by decide +kernel), hregions ▸ by decide +kernel, hoverlaps, ?_, ?_⟩
  · exact fun x hx => (hexact (hends.mpr (by decide) _ l hl) x hx).1.2
  · rcases he : s.allocate [⟨"a", 236⟩, ⟨"b", Size.largest⟩] with e | l
    · rw [(herror e he).2 ⟨1, by decide, by decide +kernel⟩]
    · exact absurd (hfits'.mp ⟨l, he⟩) (by decide +kernel)

/-- A scratchpad is accepted whose end has left 64 bits. An operand ends at the end of the address space there, the next
    one is at address 0 and not where the packing has it, and a region of the largest size has a slot that ends
    outside it. -/
theorem overlong_packing_not_canonical :
    make 8 Size.largest 8 = .ok overlong ∧
    (∃ l, overlong.allocate [⟨"a", 0xFFFFFFF8⟩, ⟨"b", 8⟩] = .ok l ∧
      ∃ x ∈ l.regions, x.2.offset = 0xFFFFFFF8 ∧ x.2.addr = 0 ∧ x.2.slotAddr 0 8 = .ok 0 ∧
        addressLimit < 8 + x.2.endOffset) ∧
    ∃ l, overlong.allocate [⟨"a", Size.largest⟩] = .ok l ∧
      ∃ x ∈ l.regions, x.2.slotAddr 1 (Size.limit / 2) = .ok 8 ∧ x.2.len < 2 * (Size.limit / 2) := by
  have hsize : overlong.alignment < Size.limit := by decide
  refine ⟨make_overlong, ⟨_, (allocate_eq_ok_iff hsize).mpr ⟨by decide +kernel, rfl⟩, ?_⟩,
    ⟨_, (allocate_eq_ok_iff hsize).mpr ⟨by decide +kernel, rfl⟩, ?_⟩⟩
  · exact ⟨_, List.mem_cons_of_mem _ List.mem_cons_self, by decide +kernel, by decide +kernel, rfl, by decide +kernel⟩
  · exact ⟨_, List.mem_cons_self, rfl, by decide +kernel⟩

end Scratchpad

end TileOffload
