import Mathlib.Data.Nat.Find
import TileOffload.Proofs.Foreseen

/-! # What the units of a run fail with

The mover fails in the first iteration in which a transfer of its is refused, the compute unit on the first tile on
which the verdict is an error. Main statement: as long as the tiles that are computed are inside the TCDM, the mover is
refused nothing after the first iteration but a slot for the second tile. -/

namespace TileOffload

theorem Verdict.exists_of_maxPolls {engine : Engine} {limit : Nat} (hmax : engine.wait.maxPolls = some limit) (L : Nat)
    (stuck : Bool) (tile : Tile) : ∃ outcome, Verdict engine L stuck tile outcome := by
  cases houtside : tile.outside? with
  | some addr => exact ⟨_, .outside houtside⟩
  | none =>
    cases hunaligned : tile.unaligned? with
    | some addr => exact ⟨_, .unaligned houtside hunaligned⟩
    | none =>
      have hover : ∃ n, 0 < n ∧ engine.wait.givesUp n (engine.clock tile.index n) = true :=
        ⟨limit + 1, Nat.succ_pos limit, WaitPolicy.givesUp_of_maxPolls hmax (Nat.le_succ limit) _⟩
      obtain ⟨hpos, hgave⟩ := Nat.find_spec hover
      have hpatient : ∀ m, 0 < m → m < Nat.find hover → engine.wait.givesUp m (engine.clock tile.index m) = false :=
        fun m hm hlt => Bool.eq_false_iff.mpr fun hx => Nat.find_min hover hlt ⟨hm, hx⟩
      by_cases hbusy : stuck = true ∨ Nat.find hover ≤ L
      · exact ⟨_, .late houtside hunaligned hpatient hpos hgave hbusy⟩
      · obtain ⟨hfree, hlate⟩ := not_or.mp hbusy
        exact ⟨_, .served houtside hunaligned (Bool.eq_false_iff.mpr hfree) fun m hm hle => hpatient m hm (by omega)⟩

theorem Expected.unique {engine : Engine} {L : Nat} {stuck : Bool} {m : Memory} {job : Job} {o o' : Outcome Nat}
    (h : Expected engine L stuck m job o) (h' : Expected engine L stuck m job o') : o = o' := by
  cases h with
  | moved accepted =>
    cases h' with
    | moved => rfl
    | refused refusal => rw [accepted] at refusal; cases refusal
  | refused refusal =>
    cases h' with
    | moved accepted => rw [accepted] at refusal; cases refusal
    | refused refusal' =>
      rw [refusal] at refusal'
      cases refusal'
      rfl
  | computed verdict =>
    cases h' with
    | computed verdict' => exact verdict.unique verdict'

theorem certain_expected (engine : Engine) (L : Nat) (stuck : Bool) (m : Memory) : Certain (Expected engine L stuck m) :=
  fun h h' => h'.unique h

/-- The refusal of the first transfer of the mover in an iteration that is refused. -/
def TilePlan.refusalIn? (p : TilePlan) (m : Memory) (i : Nat) : Option TransferFault :=
  (p.legs i).findSome? fun x => TransferQueue.refusal? m (p.leg x.1 x.2)

namespace TilePlan

variable {engine : Engine} {L : Nat} {stuck : Bool} {m : Memory} {p : TilePlan} {unit i t : Nat} {e : Error}

theorem jobs_mover (p : TilePlan) (i : Nat) :
    p.jobs p.backTile .dataMover i = (p.legs i).map fun x => .transfer (p.leg x.1 x.2) := by
  simp only [jobs, legs, List.map_append]
  congr 1 <;> split <;> rfl

theorem jobs_compute (ht : t < p.tiles) : p.jobs p.backTile .compute (t + 1) = [.compute (p.slotTile t)] :=
  if_pos ⟨Nat.succ_pos t, ht⟩

theorem Faulty.unique {e' : Error} {role : Role} (h : p.Faulty (Expected engine L stuck m) p.backTile unit role i e)
    (h' : p.Faulty (Expected engine L stuck m) p.backTile unit role i e') : e = e' := by
  obtain ⟨job, -, outcome, outcome', answered, answered', error, error'⟩ :=
    h.same_job (certain_expected engine L stuck m) h'
  rw [answered.unique answered'] at error
  exact Option.some.inj (error.symm.trans error')

theorem succeed_legs {xs : List (Nat × Lane)} (h : ∀ x ∈ xs, TransferQueue.refusal? m (p.leg x.1 x.2) = none) :
    Succeed (Expected engine L stuck m) (xs.map fun x => .transfer (p.leg x.1 x.2)) (xs.map fun _ => 0) := by
  refine List.forall₂_map_left_iff.mpr (List.forall₂_map_right_iff.mpr (List.forall₂_same.mpr fun x hx => ?_))
  exact .moved (h x hx)

theorem clear_mover (h : p.refusalIn? m i = none) : p.Clear (Expected engine L stuck m) p.backTile .dataMover i := by
  rw [refusalIn?, List.findSome?_eq_none_iff] at h
  rw [Clear, jobs_mover]
  exact ⟨_, succeed_legs h⟩

theorem faulty_mover {fault : TransferFault} (h : p.refusalIn? m i = some fault) (unit : Nat) :
    p.Faulty (Expected engine L stuck m) p.backTile unit .dataMover i (.transferFailed fault) := by
  obtain ⟨before, x, after, hlegs, hrefusal, hbefore⟩ := List.findSome?_eq_some_iff.mp h
  have hjobs := p.jobs_mover i
  rw [hlegs, List.map_append, List.map_cons] at hjobs
  exact .intro hjobs (succeed_legs hbefore) (.refused hrefusal) rfl

/-- The mover is foretold to fail where a transfer of its is refused. -/
theorem Faulty.mover (h : p.Faulty (Expected engine L stuck m) p.backTile unit .dataMover i e) :
    ∃ fault, p.refusalIn? m i = some fault ∧ e = .transferFailed fault := by
  cases hrefusal : p.refusalIn? m i with
  | none => exact absurd (clear_mover hrefusal) (h.not_clear (certain_expected engine L stuck m))
  | some fault => exact ⟨fault, rfl, h.unique (faulty_mover hrefusal unit)⟩

/-- The compute unit is foretold to fail on a tile on which the verdict is an error. -/
theorem Faulty.compute (h : p.Faulty (Expected engine L stuck m) p.backTile unit .compute i e) :
    ∃ t < p.tiles, i = t + 1 ∧ Verdict engine L stuck (p.slotTile t) (.failed e) := by
  obtain ⟨jobs, -, answered, error⟩ := h
  rcases mem_jobs (jobs ▸ List.mem_append_right _ List.mem_cons_self) with ⟨hrole, -⟩ | ⟨-, t, ht, hi, rfl⟩
  · cases hrole
  · refine ⟨t, ht, hi, ?_⟩
    cases answered with
    | computed verdict =>
      cases verdict <;> cases error
      · exact .outside ‹_›
      · exact .unaligned ‹_› ‹_›
      · exact .late ‹_› ‹_› ‹_› ‹_› ‹_› ‹_›

theorem faulty_compute (ht : t < p.tiles) (h : Verdict engine L stuck (p.slotTile t) (.failed e)) (unit : Nat) :
    p.Faulty (Expected engine L stuck m) p.backTile unit .compute (t + 1) e := by
  have hjobs : p.jobs p.backTile .compute (t + 1) = [] ++ .compute (p.slotTile t) :: [] := jobs_compute ht
  exact .intro hjobs List.Forall₂.nil (.computed h) rfl

/-! ### Slots outside the TCDM -/

variable {length bytes : Nat} {config : PipelineConfig} {s : Scratchpad} {backing : Backing}

theorem outside?_slotTile :
    (p.slotTile t).outside? = none ↔ ∀ l, ((p.slotTile t).span l).Within Chip.tcdm := by
  have hlane : ∀ l, Chip.inTcdm (p.slotWord t l) (p.tileLength * Chip.elementBytes) = true ↔
      ((p.slotTile t).span l).Within Chip.tcdm := by
    intro l
    rw [Chip.inTcdm_iff, Tile.span, addr_slotTile]
    exact Iff.rfl
  simp only [Tile.outside?, List.find?_eq_none, List.forall_mem_cons, Bool.not_eq_true', Bool.not_eq_false]
  constructor
  · rintro ⟨ha, hb, ho, -⟩ l
    cases l with
    | a => exact (hlane .a).mp ha
    | b => exact (hlane .b).mp hb
    | o => exact (hlane .o).mp ho
  · exact fun h => ⟨(hlane .a).mpr (h .a), (hlane .b).mpr (h .b), (hlane .o).mpr (h .o), List.forall_mem_nil _⟩

theorem unaligned?_slotTile : (p.slotTile t).unaligned? = none ↔ ∀ l, 4 ∣ (p.slotWord t l).toNat := by
  simp only [Tile.unaligned?, List.find?_eq_none, List.forall_mem_cons, Bool.not_eq_true', Bool.not_eq_false,
    decide_eq_true_iff]
  constructor
  · rintro ⟨ha, hb, ho, -⟩ l
    cases l with
    | a => exact ha
    | b => exact hb
    | o => exact ho
  · exact fun h => ⟨h .a, h .b, h .o, List.forall_mem_nil _⟩

theorem Backed.refusal?_leg (hb : p.Backed bytes) (hm : m.Snax bytes) (ht : t < p.tiles) {l : Lane}
    (hin : ((p.slotTile t).span l).Within Chip.tcdm) : TransferQueue.refusal? m (p.leg t l) = none := by
  have hback := Memory.contains_of_maps (hb.maps_back hm ht l)
  have hslot : m.contains (p.slotWord t l) p.tileBytes = true := by
    rw [Tile.span, addr_slotTile] at hin
    exact Memory.contains_of_maps (hm.maps_tcdm hin)
  cases l <;> simp only [TransferQueue.refusal?, leg, hback, hslot, Bool.not_true, Bool.false_eq_true, if_false]

/-- The inputs of all tiles lie between those of the first tile and its output. -/
theorem Accepted.input_within (h : p.Accepted length config s backing) (hb : p.Backed bytes)
    (hin : (p.slotTile 0).outside? = none) (t : Nat) {l : Lane} (hl : l ≠ .o) : ((p.slotTile t).span l).Within Chip.tcdm := by
  have hin := outside?_slotTile.mp hin
  have hp := h.stop_le_of_slot hb (hin .a)
  obtain ⟨hstart, -⟩ := hin .a
  obtain ⟨-, hstop⟩ := hin .o
  have hslot := Nat.mul_le_mul_right p.tileBytes (Nat.succ_le_of_lt (Nat.mod_lt t h.slots_pos))
  have hab := h.a_before_b
  have hbo := h.b_before_o
  have hlena := h.len_eq .a
  have hlenb := h.len_eq .b
  rw [h.span_slotTile hp] at hstart hstop ⊢
  simp only [Region.endOffset, region, Nat.zero_mod, Nat.zero_mul, Span.stop, Nat.succ_mul] at *
  cases l with
  | o => exact absurd rfl hl
  | a | b => constructor <;> simp only [Span.stop] <;> omega

/-- The mover is refused nothing in an iteration if the first tile is inside the TCDM, and the tile it stores. -/
theorem Accepted.refusalIn?_eq_none (h : p.Accepted length config s backing) (hb : p.Backed bytes) (hm : m.Snax bytes)
    (hfirst : (p.slotTile 0).outside? = none)
    (hstored : ∀ t < p.tiles, i = t + 2 → (p.slotTile t).outside? = none) : p.refusalIn? m i = none := by
  refine List.findSome?_eq_none_iff.mpr fun x hx => ?_
  obtain ⟨ht, hi⟩ := mem_legs.mp hx
  refine hb.refusal?_leg hm ht ?_
  by_cases hl : x.2 = .o
  · rw [legTime, if_pos hl] at hi
    exact outside?_slotTile.mp (hstored x.1 ht hi) x.2
  · exact h.input_within hb hfirst x.1 hl

/-- If the mover is refused something in the second iteration, the first tile is outside the TCDM. -/
theorem Accepted.outside_of_refusalIn? (h : p.Accepted length config s backing) (hb : p.Backed bytes) (hm : m.Snax bytes)
    {fault : TransferFault} (hrefusal : p.refusalIn? m 1 = some fault) : ∃ addr, (p.slotTile 0).outside? = some addr := by
  refine Option.ne_none_iff_exists'.mp fun hinside => ?_
  rw [h.refusalIn?_eq_none hb hm hinside fun t _ hi => by omega] at hrefusal
  cases hrefusal

/-- If the mover is refused something in an iteration after the first, though the tiles that were computed before it are
    inside the TCDM, it is the second one. -/
theorem Accepted.second_of_refusalIn? (h : p.Accepted length config s backing) (hb : p.Backed bytes) (hm : m.Snax bytes)
    {fault : TransferFault} (hrefusal : p.refusalIn? m i = some fault) (hi : 0 < i)
    (hinside : ∀ t, t + 1 < i → (p.slotTile t).outside? = none) : i = 1 := by
  by_contra hlate
  rw [h.refusalIn?_eq_none hb hm (hinside 0 (by omega)) fun t _ ht => hinside t (by omega)] at hrefusal
  cases hrefusal

end TilePlan

end TileOffload
