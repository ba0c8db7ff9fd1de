import TileOffload.Proofs.Causes

/-! # Tiles without a place

An accepted plan has looked at all its slots, but of its vectors in backing storage only at where they begin.
A vector that begins near the end of the address space leaves its last tiles without an address. Nobody
notices before the data mover comes to load the first of them. -/

namespace TileOffload.TilePlan

/-- Every operand of a tile begins below the end of the address space. -/
def Addressable (p : TilePlan) (t : Nat) : Prop :=
  ∀ l, (p.backing.addr l).toNat + t * p.tileBytes < addressLimit

variable {p : TilePlan} {t : Nat}

theorem Addressable.mono {u : Nat} (h : p.Addressable u) (htu : t ≤ u) : p.Addressable t := by
  intro l
  have := h l
  have := Nat.mul_le_mul_right p.tileBytes htu
  omega

theorem backingAddr_eq_ok {base w : Word} {offset : Nat} :
    p.backingAddr base offset = .ok w ↔ base.toNat + offset = w.toNat := by
  unfold backingAddr
  split
  · rename_i addr h
    rw [Except.ok.injEq, Word.ofSize?_eq_some.mp h, UInt32.toNat_inj]
  · rename_i h
    refine ⟨nofun, fun he => ?_⟩
    rw [Word.ofSize?_eq_some.mpr he] at h
    cases h

theorem exists_backingAddr {base : Word} {offset : Nat} :
    (∃ w, p.backingAddr base offset = .ok w) ↔ base.toNat + offset < addressLimit := by
  constructor
  · rintro ⟨w, hw⟩
    rw [backingAddr_eq_ok.mp hw]
    exact w.toNat_lt
  · intro h
    refine ⟨UInt32.ofNat (base.toNat + offset), backingAddr_eq_ok.mpr ?_⟩
    exact (Nat.mod_eq_of_lt h).symm

theorem exists_backingTile : (∃ T, p.backingTile t = .ok T) ↔ t < p.tiles ∧ p.Addressable t := by
  simp only [backingTile, bind_eq_ok, checkTile_eq_ok, unless_eq_ok, pure_eq_ok]
  constructor
  · rintro ⟨T, _, ht, -, a, ha, b, hb, o, ho, -⟩
    refine ⟨ht, fun l => ?_⟩
    cases l
    · exact exists_backingAddr.mp ⟨a, ha⟩
    · exact exists_backingAddr.mp ⟨b, hb⟩
    · exact exists_backingAddr.mp ⟨o, ho⟩
  · rintro ⟨ht, hl⟩
    obtain ⟨a, ha⟩ := exists_backingAddr.mpr (hl .a)
    obtain ⟨b, hb⟩ := exists_backingAddr.mpr (hl .b)
    obtain ⟨o, ho⟩ := exists_backingAddr.mpr (hl .o)
    have hoffset : ¬addressLimit ≤ t * p.tileBytes := by
      have := hl .a
      omega
    exact ⟨_, (), ht, hoffset, a, ha, b, hb, o, ho, rfl⟩

/-- A plan all of whose tiles have a place has no more tiles than there are addresses. -/
theorem Accepted.tiles_lt {length : Nat} {config : PipelineConfig} {s : Scratchpad} {backing : Backing}
    (h : p.Accepted length config s backing) (hback : ∀ t < p.tiles, ∃ T, p.backingTile t = .ok T) :
    p.tiles + 2 < Size.limit := by
  have hpos := h.tiles_pos
  have hlast := (exists_backingTile.mp (hback (p.tiles - 1) (by omega))).2 .a
  have hmul := Nat.le_mul_of_pos_right (p.tiles - 1) h.tileBytes_pos
  rw [addressLimit] at hlast
  rw [Size.limit]
  omega

/-- A tile of the plan that has no place is refused for an address. -/
theorem out_of_range_of_backingTile {e : Error} (ht : t < p.tiles) (h : p.backingTile t = .error e) :
    ∃ addr len, e = .addressOutOfRange addr len := by
  have haddr : ∀ {base : Word} {offset : Nat} {e : Error}, p.backingAddr base offset = .error e →
      ∃ addr len, e = .addressOutOfRange addr len := by
    intro base offset e he
    unfold backingAddr at he
    split at he
    · cases he
    · cases he
      exact ⟨_, _, rfl⟩
  simp only [backingTile, bind_eq_error, unless_eq_error] at h
  rcases h with hc | ⟨_, -, ⟨-, rfl⟩ | ⟨-, ha | ⟨_, -, hb | ⟨_, -, ho | ⟨_, -, hp⟩⟩⟩⟩⟩
  · rw [checkTile, if_pos ht] at hc
    cases hc
  · exact ⟨_, _, rfl⟩
  · exact haddr ha
  · exact haddr hb
  · exact haddr ho
  · cases hp

/-- The load of a tile without a place in backing storage is refused. -/
theorem refuse_mem_tasks {T : Tile} {e : Error} (ht : t < p.tiles) (hs : p.scratchpadTile t = .ok T)
    (h : p.backingTile t = .error e) : ⟨.refuse e, none⟩ ∈ p.tasks .dataMover t := by
  refine List.mem_append.mpr (Or.inl ?_)
  rw [load_stages.mpr ⟨rfl, ht⟩, Option.elim_some, loadTasks, hs, h]
  exact List.mem_singleton.mpr rfl

/-- An accepted plan has slots for all its tiles. It has a place in backing storage for all of them, and no unit is
    ever refused a job, exactly when its last tile is addressable; a job that is refused is refused for an address. -/
theorem complete_iff_addressable {length : Nat} {config : PipelineConfig} {s : Scratchpad} {backing : Backing}
    (h : make length config s backing = .ok p) :
    (∀ t < p.tiles, ∃ T, p.scratchpadTile t = .ok T) ∧
    ((∀ t < p.tiles, ∃ T, p.backingTile t = .ok T) ↔ p.Addressable (p.tiles - 1)) ∧
    ((∀ role i, ∀ task ∈ p.tasks role i, ∀ e, task.job ≠ .refuse e) ↔ p.Addressable (p.tiles - 1)) ∧
    (∀ role i, ∀ task ∈ p.tasks role i, ∀ e, task.job = .refuse e → ∃ addr len, e = .addressOutOfRange addr len) := by
  have ha := accepted_of_make h
  have hpos := ha.tiles_pos
  have hslots : ∀ t < p.tiles, ∃ T, p.scratchpadTile t = .ok T := fun t ht => ⟨_, ha.scratchpadTile_eq ht⟩
  have hplaces : (∀ t < p.tiles, ∃ T, p.backingTile t = .ok T) ↔ p.Addressable (p.tiles - 1) := by
    constructor
    · intro hall
      exact (exists_backingTile.mp (hall (p.tiles - 1) (by omega))).2
    · intro hlast t ht
      exact exists_backingTile.mpr ⟨ht, hlast.mono (by omega)⟩
  -- Only backing storage can lack a place, so every refusal names a tile that has none there.
  have hrefused : ∀ role i, ∀ task ∈ p.tasks role i, ∀ e, task.job = .refuse e →
      ∃ t < p.tiles, p.backingTile t = .error e := by
    intro role i task hm e he
    obtain ⟨t, ht, hfail | hfail⟩ := refusal_of_tasks hm he
    · rw [ha.scratchpadTile_eq ht] at hfail
      cases hfail
    · exact ⟨t, ht, hfail⟩
  refine ⟨hslots, hplaces, ?_, ?_⟩
  · rw [← hplaces]
    constructor
    · intro hnone t ht
      cases hb : p.backingTile t with
      | ok T => exact ⟨T, rfl⟩
      | error e => exact absurd rfl (hnone _ _ _ (refuse_mem_tasks ht (ha.scratchpadTile_eq ht) hb) e)
    · intro hall role i task hm e he
      obtain ⟨t, ht, hfail⟩ := hrefused role i task hm e he
      obtain ⟨T, hT⟩ := hall t ht
      rw [hT] at hfail
      cases hfail
  · intro role i task hm e he
    obtain ⟨t, ht, hfail⟩ := hrefused role i task hm e he
    exact out_of_range_of_backingTile ht hfail

/-- Four tiles whose vectors lie at the beginning of backing storage all have a place. -/
theorem sixteen_by_four_complete :
    ∃ p, make 16 (.tiled 4) .tcdm ⟨0x80000000, 0x80000040, 0x80000080⟩ = .ok p ∧
      (∀ t < p.tiles, ∃ T, p.backingTile t = .ok T) ∧
      ∀ role i, ∀ task ∈ p.tasks role i, ∀ e, task.job ≠ .refuse e := by
  have complete : ∀ {p : TilePlan}, make 16 (.tiled 4) .tcdm ⟨0x80000000, 0x80000040, 0x80000080⟩ = .ok p →
      p.Addressable (p.tiles - 1) → (∀ t < p.tiles, ∃ T, p.backingTile t = .ok T) ∧
        ∀ role i, ∀ task ∈ p.tasks role i, ∀ e, task.job ≠ .refuse e := by
    intro p h hlast
    have hcomplete := complete_iff_addressable h
    exact ⟨hcomplete.2.1.mpr hlast, hcomplete.2.2.1.mpr hlast⟩
  exact ⟨_, rfl, complete rfl fun l => by cases l <;> decide⟩

/-- A plan of four tiles is accepted whose output begins 32 bytes before the end of the address space; the data mover
    learns in iteration 2 that there is no place for tile 2. -/
theorem high_output_refused_late :
    ∃ p, make 16 (.tiled 4) .tcdm ⟨0x80000000, 0x80001000, 0xFFFFFFE0⟩ = .ok p ∧ 2 < p.tiles ∧
      p.backingTile 2 = .error (.addressOutOfRange 0x100000000 16) ∧
      ⟨.refuse (.addressOutOfRange 0x100000000 16), none⟩ ∈ p.tasks .dataMover 2 :=
  ⟨_, rfl, by decide, rfl, List.mem_cons_self⟩

end TileOffload.TilePlan
