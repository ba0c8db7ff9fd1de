import TileOffload.Scratchpad
import TileOffload.Proofs.Span

/-! # Packing

Where the allocator puts operands: each at a multiple of the alignment, in the order given, no operand
beginning before the one in front of it has ended, and all of them inside the scratchpad. -/

namespace TileOffload

namespace Size

/-- The least multiple of `align` that is at least `n`, in exact arithmetic. -/
def roundUp (n align : Nat) : Nat := (n + (align - 1)) / align * align

theorem dvd_roundUp (n align : Nat) : align ∣ roundUp n align := Nat.dvd_mul_left _ _

theorem roundUp_le_add (n align : Nat) : roundUp n align ≤ n + (align - 1) := Nat.div_mul_le_self _ _

theorem le_roundUp {align : Nat} (hpos : 0 < align) (n : Nat) : n ≤ roundUp n align := by
  have := Nat.lt_div_mul_add hpos (a := n + (align - 1))
  rw [roundUp]
  omega

theorem roundUp_le {n align m : Nat} (hpos : 0 < align) (hm : align ∣ m) (h : n ≤ m) : roundUp n align ≤ m := by
  obtain ⟨k, rfl⟩ := hm
  rw [roundUp, Nat.mul_comm align k]
  refine Nat.mul_le_mul_right align (Nat.le_of_lt_succ ((Nat.div_lt_iff_lt_mul hpos).mpr ?_))
  rw [Nat.succ_mul, Nat.mul_comm k align]
  omega

theorem roundUp_of_dvd {n align : Nat} (hpos : 0 < align) (hn : align ∣ n) : roundUp n align = n :=
  Nat.le_antisymm (roundUp_le hpos hn (Nat.le_refl n)) (le_roundUp hpos n)

theorem roundUp_mono {m n align : Nat} (hpos : 0 < align) (h : m ≤ n) : roundUp m align ≤ roundUp n align :=
  roundUp_le hpos (dvd_roundUp n align) (Nat.le_trans h (le_roundUp hpos n))

theorem alignUp?_eq_some {n align m : Nat} :
    alignUp? n align = some m ↔ n + (align - 1) < limit ∧ m = roundUp n align := by
  simp only [alignUp?, Option.map_eq_some_iff, add?_eq_some, roundUp]
  constructor
  · rintro ⟨k, ⟨rfl, hk⟩, rfl⟩
    exact ⟨hk, rfl⟩
  · rintro ⟨hk, rfl⟩
    exact ⟨_, ⟨rfl, hk⟩, rfl⟩

/-- Where the sizes end at a multiple of the alignment, nothing is lost to the search: only a result that is no size is
    refused. -/
theorem alignUp?_eq_some_exact {n align m : Nat} (hpos : 0 < align) (hlimit : align ∣ limit) :
    alignUp? n align = some m ↔ m = roundUp n align ∧ m < limit := by
  rw [alignUp?_eq_some, and_comm]
  refine and_congr_right fun hm => ?_
  subst hm
  have hle := le_roundUp hpos n
  constructor
  · exact fun h => Nat.lt_of_le_of_lt (roundUp_le_add n align) h
  · intro h
    obtain ⟨k, hk⟩ := Nat.dvd_sub hlimit (dvd_roundUp n align)
    have hk_pos : 0 < k := Nat.pos_of_ne_zero fun hzero => by
      subst hzero
      omega
    have := Nat.le_mul_of_pos_right align hk_pos
    omega

theorem le_of_alignUp? {n align m : Nat} (hpos : 0 < align) (h : alignUp? n align = some m) : n ≤ m :=
  (alignUp?_eq_some.mp h).2 ▸ le_roundUp hpos n

theorem lt_of_alignUp? {n align m : Nat} (hpos : 0 < align) (h : alignUp? n align = some m) : m < n + align := by
  have := roundUp_le_add n align
  rw [(alignUp?_eq_some.mp h).2]
  omega

theorem dvd_of_alignUp? {n align m : Nat} (h : alignUp? n align = some m) : align ∣ m :=
  (alignUp?_eq_some.mp h).2 ▸ dvd_roundUp n align

theorem alignUp?_of_dvd {n align m : Nat} (hpos : 0 < align) (hn : align ∣ n) (h : alignUp? n align = some m) :
    m = n :=
  (alignUp?_eq_some.mp h).2.trans (roundUp_of_dvd hpos hn)

end Size

namespace Scratchpad

theorem alignment_pos (s : Scratchpad) : 0 < s.alignment := by
  have h := s.alignment_pow
  simp only [isPowerOfTwo, Bool.and_eq_true, decide_eq_true_eq] at h
  exact h.1

theorem isPowerOfTwo_alignment (s : Scratchpad) : s.alignment.isPowerOfTwo := by
  have h := s.alignment_pow
  simp only [isPowerOfTwo, Bool.and_eq_true, decide_eq_true_eq, beq_iff_eq] at h
  exact (Nat.and_sub_one_eq_zero_iff_isPowerOfTwo (by omega)).mp h.2

/-- A scratchpad ends below the end of the address space if the sum that tells its end has not left 64 bits. -/
theorem end_lt_of_lt (s : Scratchpad) (h : s.base.toNat + s.capacity < Size.limit) :
    s.base.toNat + s.capacity < addressLimit := by
  have hend := s.end_lt
  rwa [Size.wrap_of_lt h] at hend

theorem isPowerOfTwo_eight : isPowerOfTwo 8 = true := by decide

theorem alignment_dvd_four_or (s : Scratchpad) : s.alignment ∣ 4 ∨ 4 ∣ s.alignment := by
  obtain ⟨k, hk⟩ := s.isPowerOfTwo_alignment
  rw [hk]
  rcases Nat.le_total k 2 with h | h
  · exact Or.inl (Nat.pow_dvd_pow 2 h)
  · exact Or.inr (Nat.pow_dvd_pow 2 h)

/-- The spans a scratchpad has to give. -/
def span (s : Scratchpad) : Span := ⟨s.base.toNat, s.capacity⟩

variable {s : Scratchpad}

theorem make_eq {base : Word} {capacity alignment : Nat} (ha : isPowerOfTwo alignment = true)
    (hb : alignment ∣ base.toNat) (hc : capacity < Size.limit)
    (he : Size.wrap (base.toNat + capacity) < addressLimit) :
    make base capacity alignment = .ok ⟨base, capacity, alignment, ha, hb, hc, he⟩ := by
  rw [make, dif_pos ha, dif_pos hb, dif_pos ⟨hc, he⟩]

theorem make_eq_ok {base : Word} {capacity alignment : Nat} (h : make base capacity alignment = .ok s) :
    s.base = base ∧ s.capacity = capacity ∧ s.alignment = alignment := by
  unfold make at h
  split at h
  · split at h
    · split at h
      · cases h
        exact ⟨rfl, rfl, rfl⟩
      · cases h
    · cases h
  · cases h

theorem overlong_end : Size.wrap ((8 : Word).toNat + Size.largest) < addressLimit := by decide +kernel

/-- A scratchpad of the largest size. The sum that tells its end has left 64 bits, so it looks as if it ended at
    address 7. -/
def overlong : Scratchpad := ⟨8, Size.largest, 8, by decide, by decide, by decide, overlong_end⟩

theorem make_overlong : make 8 Size.largest 8 = .ok overlong :=
  make_eq overlong.alignment_pow overlong.alignment_dvd_base overlong.capacity_lt overlong.end_lt

theorem pack?_cons {cursor last : Nat} {op : Operand} {ops : List Operand} {regions : List (String × Region)}
    (h : s.pack? cursor (op :: ops) = some (regions, last)) :
    ∃ offset rest, Size.alignUp? cursor s.alignment = some offset ∧ offset + op.bytes < Size.limit ∧
      s.pack? (offset + op.bytes) ops = some (rest, last) ∧
      regions = (op.name, ⟨s.base, offset, op.bytes⟩) :: rest := by
  simp only [pack?, Option.bind_eq_bind, Option.bind_eq_some_iff, Size.add?_eq_some] at h
  obtain ⟨offset, ho, stop, ⟨rfl, hstop⟩, ⟨rest, last'⟩, hrest, h⟩ := h
  cases h
  exact ⟨offset, rest, ho, hstop, hrest, rfl⟩

theorem allocate_eq_ok {ops : List Operand} {l : Layout} (h : s.allocate ops = .ok l) :
    s.pack? 0 ops = some (l.regions, l.used) ∧ l.used ≤ s.capacity ∧ l.capacity = s.capacity := by
  unfold allocate at h
  split at h
  · cases h
  · rename_i regions used hp
    split at h
    · rename_i hu
      cases h
      exact ⟨hp, hu, rfl⟩
    · cases h

end Scratchpad

namespace Region

/-- The addresses of a region. -/
def span (r : Region) : Span := ⟨r.addr.toNat, r.len⟩

theorem toNat_addr (r : Region) : r.addr.toNat = (r.base.toNat + r.offset) % addressLimit := by
  simp only [addr, UInt32.toNat_add, UInt32.toNat_ofNat', addressLimit]
  omega

theorem eq_of_slotAddr {r : Region} {index bytes : Nat} {w : Word} (h : r.slotAddr index bytes = .ok w) :
    w = r.addr + UInt32.ofNat (index * bytes) := by
  unfold slotAddr at h
  split at h
  · rename_i start hstart
    obtain ⟨rfl, -⟩ := Size.mul?_eq_some.mp (Option.filter_eq_some_iff.mp hstart).1
    exact (Except.ok.inj h).symm
  · cases h

/-- In a region that is not the largest there can be, the checks of a slot are exact. -/
theorem slotAddr_eq_ok {r : Region} {index bytes : Nat} {w : Word} (hr : r.len < Size.largest) :
    r.slotAddr index bytes = .ok w ↔ (index + 1) * bytes ≤ r.len ∧ w = r.addr + UInt32.ofNat (index * bytes) := by
  have hlargest : Size.largest < Size.limit := by decide
  rw [Nat.succ_mul]
  constructor
  · intro h
    refine ⟨?_, eq_of_slotAddr h⟩
    unfold slotAddr at h
    split at h
    · rename_i start hstart
      obtain ⟨hmul, hle⟩ := Option.filter_eq_some_iff.mp hstart
      obtain ⟨rfl, -⟩ := Size.mul?_eq_some.mp hmul
      have hle := of_decide_eq_true hle
      omega
    · cases h
  · rintro ⟨hle, rfl⟩
    have hstart : (Size.mul? index bytes).filter (fun start => min (start + bytes) Size.largest ≤ r.len) =
        some (index * bytes) := by
      refine Option.filter_eq_some_iff.mpr ⟨Size.mul?_eq_some.mpr ⟨rfl, by omega⟩, decide_eq_true ?_⟩
      omega
    rw [slotAddr, hstart]

/-- The address of a slot is the exact one, less what is above 32 bits. -/
theorem toNat_slotAddr {r : Region} {index bytes : Nat} {w : Word} (h : r.slotAddr index bytes = .ok w) :
    w.toNat = (r.base.toNat + r.offset + index * bytes) % addressLimit := by
  rw [eq_of_slotAddr h, UInt32.toNat_add, toNat_addr, UInt32.toNat_ofNat', addressLimit]
  omega

end Region

end TileOffload
