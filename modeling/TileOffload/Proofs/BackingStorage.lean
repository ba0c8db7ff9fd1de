import TileOffload.Proofs.Schedule

/-! # Backing storage serves its plans

The length of a dataset decides where its vectors are placed. What is placed is inside the memory that is made
for it, a vector is written and read without touching the others, and whatever plan is accepted on it finds
every tile in its vector. -/

namespace TileOffload

/-- The vectors lie at aligned addresses, and in every memory of a cluster with so many bytes of backing storage each
    of them is read, and written without a change to the others. -/
structure Backing.Stores (b : Backing) (length bytes : Nat) : Prop extends b.Laid length bytes where
  aligned : ∀ l, Chip.defaultAlignment ∣ (b.addr l).toNat
  readable : ∀ (m : Memory), m.Snax bytes → ∀ l, ∃ ws, m.readWords (b.addr l) length = .ok ws ∧ ws.length = length
  writable : ∀ (m : Memory), m.Snax bytes → ∀ l (ws : List Word), ws.length = length →
    ∃ m', m.writeWords (b.addr l) ws = .ok m' ∧ m'.Snax bytes ∧ m'.readWords (b.addr l) length = .ok ws ∧
      ∀ k ≠ l, m'.readWords (b.addr k) length = m.readWords (b.addr k) length

/-- The tiles of a plan are where the plan says, and they cut each vector of so many elements in their order. -/
structure TilePlan.Cuts (p : TilePlan) (length : Nat) : Prop where
  placed : ∀ t < p.tiles, p.backingTile t = .ok (p.backTile t)
  vectors : ∀ l, Span.CutInto ⟨(p.backing.addr l).toNat, length * Chip.elementBytes⟩ p.tiles
    fun t => (p.backTile t).span l

namespace Backing.Laid

variable {length bytes : Nat} {b : Backing} {m m' : Memory} {l : Lane}

/-- Writing one vector leaves the words of the others as they were. -/
theorem readWords_other (h : b.Laid length bytes) {k : Lane} (ha : 4 ∣ (b.addr k).toNat) (hm : m.Snax bytes)
    (hw : m.Wrote m' ⟨(b.addr l).toNat, length * Chip.elementBytes⟩) (hne : k ≠ l) :
    m'.readWords (b.addr k) length = m.readWords (b.addr k) length := by
  have hagree := hw.apart _ (h.apart k l hne)
  rw [Nat.mul_comm] at hagree
  exact Memory.readWords_congr hm.2 (hw.snax hm).2 hagree ha (h.maps hm k) (h.maps (hw.snax hm) k)

theorem stores (h : b.Laid length bytes) (ha : ∀ l, Chip.defaultAlignment ∣ (b.addr l).toNat) :
    b.Stores length bytes where
  toLaid := h
  aligned := ha
  readable m hm l := by
    have hword : 4 ∣ (b.addr l).toNat := Nat.dvd_trans (by decide) (ha l)
    obtain ⟨ws, hws⟩ := Memory.exists_readWords hword (h.maps hm l)
    exact ⟨ws, hws, Memory.length_readWords hws⟩
  writable m hm l ws hws := by
    have hword : ∀ k, 4 ∣ (b.addr k).toNat := fun k => Nat.dvd_trans (by decide) (ha k)
    obtain ⟨m', hm'⟩ := Memory.exists_writeWords (hword l) (hws ▸ h.maps hm l)
    obtain ⟨hw, hh⟩ := Memory.wrote_writeWords hm.2 hm'
    have hsnax := hw.snax hm
    rw [hws, Nat.mul_comm] at hw
    exact ⟨m', hm', hsnax, h.readWords_vector hsnax (hword l) hws hh,
      fun k hne => h.readWords_other (hword k) hm hw hne⟩

end Backing.Laid

namespace Cluster

variable {length bytes : Nat} {b : Backing}

theorem exists_backingFor :
    (∃ b bytes, backingFor length = .ok (b, bytes)) ↔ 3 * stride length ≤ Chip.backingLimit :=
  ⟨fun ⟨_, _, h⟩ => (backingFor_eq_ok.mp h).1, fun h => ⟨_, _, backingFor_eq_ok.mpr ⟨h, rfl, rfl⟩⟩⟩

theorem aligned_of_backingFor (h : backingFor length = .ok (b, bytes)) (l : Lane) :
    Chip.defaultAlignment ∣ (b.addr l).toNat := by
  obtain ⟨ha, hb, ho⟩ := toNat_backingFor h
  have hbase : Chip.defaultAlignment ∣ Chip.backingBase.toNat := by decide
  have hstride : Chip.defaultAlignment ∣ stride length := Size.dvd_roundUp _ _
  cases l
  · exact ha ▸ hbase
  · exact hb ▸ Nat.dvd_add hbase hstride
  · exact ho ▸ Nat.dvd_add hbase (Nat.dvd_mul_left_of_dvd hstride 2)

end Cluster

theorem TilePlan.Accepted.cuts {p : TilePlan} {length bytes : Nat} {config : PipelineConfig} {s : Scratchpad}
    {b : Backing} (h : p.Accepted length config s b) (hb : b.Laid length bytes) : p.Cuts length := by
  have hbacked := h.backed hb
  refine ⟨fun t => hbacked.backingTile_eq, fun l => ?_⟩
  have hvector := h.vector_eq l
  rw [← h.backing_eq] at hvector
  rw [← hvector]
  have hbytes : 0 < p.tileBytes := Nat.mul_pos h.tileLength_pos (by decide)
  exact (Span.cutInto_pieces _ hbytes h.tiles_pos).congr h.tiles_pos fun t ht => (hbacked.span_backTile ht l).symm

namespace Cluster

/-- Vectors are placed exactly if three of them, each rounded up to the alignment, fit in backing storage. The
    memory of a cluster is made with as many bytes, holds the vectors apart from each other, and every plan that
    is accepted on them cuts each vector into its tiles. -/
theorem backing_serves_plans (length : Nat) :
    ((∃ b bytes, backingFor length = .ok (b, bytes)) ↔
      3 * Size.roundUp (length * Chip.elementBytes) Chip.defaultAlignment ≤ Chip.backingLimit) ∧
    ∀ b bytes, backingFor length = .ok (b, bytes) →
      (∃ m, Memory.snax bytes = .ok m ∧ m.Snax bytes) ∧ b.Stores length bytes ∧
        ∀ config s p, TilePlan.make length config s b = .ok p → p.backing = b ∧ p.Cuts length := by
  refine ⟨exists_backingFor, fun b bytes hb => ?_⟩
  have hlaid := laid_of_backingFor hb
  refine ⟨?_, hlaid.stores (aligned_of_backingFor hb), fun config s p hp => ?_⟩
  · obtain ⟨m, hm⟩ := Memory.exists_snax hlaid.words hlaid.limited
    exact ⟨m, hm, Memory.snax_eq_ok hm⟩
  · have hacc := TilePlan.accepted_of_make hp
    exact ⟨hacc.backing_eq, hacc.cuts hlaid⟩

/-- Five elements take 24 bytes of storage, and five tiles cut a vector of them. There is room for 349524 elements, and
    not for one more. -/
theorem five_elements_are_served :
    (∃ m p, backingFor 5 = .ok (⟨Chip.backingBase, Chip.backingBase + 24, Chip.backingBase + 48⟩, 72) ∧
      Memory.snax 72 = .ok m ∧
      Backing.Stores ⟨Chip.backingBase, Chip.backingBase + 24, Chip.backingBase + 48⟩ 5 72 ∧
      TilePlan.make 5 (.tiled 1) .tcdm ⟨Chip.backingBase, Chip.backingBase + 24, Chip.backingBase + 48⟩ = .ok p ∧
      p.tiles = 5 ∧ p.Cuts 5) ∧
    (∃ b bytes, backingFor 349524 = .ok (b, bytes)) ∧ ¬∃ b bytes, backingFor 349525 = .ok (b, bytes) := by
  have hfive : backingFor 5 = .ok (⟨Chip.backingBase, Chip.backingBase + 24, Chip.backingBase + 48⟩, 72) := rfl
  obtain ⟨p, hp, htiles⟩ : ∃ p, TilePlan.make 5 (.tiled 1) .tcdm
      ⟨Chip.backingBase, Chip.backingBase + 24, Chip.backingBase + 48⟩ = .ok p ∧ p.tiles = 5 := ⟨_, rfl, rfl⟩
  obtain ⟨⟨m, hm, -⟩, hstores, hplan⟩ := (backing_serves_plans 5).2 _ _ hfive
  refine ⟨⟨m, p, hfive, hm, hstores, hp, htiles, (hplan _ _ p hp).2⟩, ?_, fun h => ?_⟩
  · exact (backing_serves_plans 349524).1.mpr (by decide)
  · exact absurd ((backing_serves_plans 349525).1.mp h) (by decide)

end Cluster

end TileOffload
