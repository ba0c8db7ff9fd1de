import TileOffload.Proofs.StagingSteps

/-! # Setting up a run

What a run starts from: an accepted plan that is sited, the inputs of the dataset in backing storage, an idle
engine, and a token of the run's own. -/

namespace TileOffload

namespace Cluster

variable {c : Cluster} {d : Dataset} {k : Kernel} {config : PipelineConfig} {token : CancelToken} {flags : CancelFlags}

/-- The run of a plan on an accelerator, with the inputs placed in a memory. -/
def setUp (c : Cluster) (d : Dataset) (k : Kernel) (config : PipelineConfig) (token : CancelToken) (flags : CancelFlags)
    (plan : TilePlan) (personality : Personality) (m : Memory) : Run where
  topology := c.topology
  engine := ⟨k, config.wait, c.clock⟩
  dataset := d
  pipeline := .create plan c.topology (List.range c.topology.units) (World.hardware c.topology ⟨k, config.wait, c.clock⟩)
    (flags.child token).1 (flags.child token).2
    ⟨m, .empty, none, Device.attach k.map (Accelerator.fresh personality c.latency c.stuck), .idle⟩

/-- What a run that is set up is set up from. -/
structure Placed (c : Cluster) (d : Dataset) (k : Kernel) (config : PipelineConfig) (backing : Backing) (bytes : Nat)
    (plan : TilePlan) (personality : Personality) (m : Memory) : Prop where
  backing_eq : backingFor d.length = .ok (backing, bytes)
  plan_eq : TilePlan.make d.length config c.scratchpad backing = .ok plan
  personality_eq : Personality.ofMap? k.map = some personality
  memory_eq : ∃ m₀ m₁, Memory.snax bytes = .ok m₀ ∧ m₀.writeWords backing.a d.a = .ok m₁ ∧
    m₁.writeWords backing.b d.b = .ok m

theorem prepare_eq_ok {r : Run} : c.prepare d k config token flags = .ok r ↔
    ∃ backing bytes plan personality m, c.Placed d k config backing bytes plan personality m ∧
      c.setUp d k config token flags plan personality m = r := by
  unfold prepare
  simp only [bind_eq_ok]
  constructor
  · rintro ⟨⟨backing, bytes⟩, hbacking, plan, hplan, h⟩
    split at h
    · rename_i personality hpersonality
      simp only [bind_eq_ok, pure_eq_ok] at h
      obtain ⟨m₀, h₀, m₁, h₁, m, hm, engine, hengine, rfl⟩ := h
      rw [Engine.make, if_pos rfl, Except.ok.injEq] at hengine
      subst hengine
      exact ⟨backing, bytes, plan, personality, m, ⟨hbacking, hplan, hpersonality, m₀, m₁, h₀, h₁, hm⟩, rfl⟩
    · cases h
  · rintro ⟨backing, bytes, plan, personality, m, ⟨hbacking, hplan, hpersonality, m₀, m₁, h₀, h₁, hm⟩, rfl⟩
    refine ⟨_, hbacking, plan, hplan, ?_⟩
    simp only [hpersonality, bind_eq_ok, pure_eq_ok]
    exact ⟨m₀, h₀, m₁, h₁, m, hm, _, if_pos rfl, rfl⟩

variable {backing : Backing} {bytes : Nat} {plan : TilePlan} {personality : Personality} {m : Memory}

theorem Placed.snax (h : c.Placed d k config backing bytes plan personality m) : m.Snax bytes := by
  obtain ⟨m₀, m₁, h₀, h₁, hm⟩ := h.memory_eq
  have hsnax := Memory.snax_eq_ok h₀
  have hsnax₁ := (Memory.wrote_writeWords hsnax.2 h₁).1.snax hsnax
  exact (Memory.wrote_writeWords hsnax₁.2 hm).1.snax hsnax₁

theorem Placed.inputs (h : c.Placed d k config backing bytes plan personality m) (ha : d.a.length = d.length)
    (hb : d.b.length = d.length) :
    m.Snax bytes ∧ m.Holds backing.a.toNat d.a ∧ m.Holds backing.b.toNat d.b := by
  refine ⟨h.snax, ?_⟩
  obtain ⟨m₀, m₁, h₀, h₁, hm⟩ := h.memory_eq
  have hlaid := laid_of_backingFor h.backing_eq
  have hsnax := Memory.snax_eq_ok h₀
  obtain ⟨hw₁, hh₁⟩ := Memory.wrote_writeWords hsnax.2 h₁
  obtain ⟨hw₂, hh₂⟩ := Memory.wrote_writeWords (hw₁.snax hsnax).2 hm
  refine ⟨hw₂.holds hh₁ ?_, hh₂⟩
  have hapart := hlaid.apart .a .b (fun hx => by cases hx)
  rw [Nat.mul_comm, ← ha] at hapart
  rw [hb, ← ha]
  exact hapart

theorem Placed.accepted (h : c.Placed d k config backing bytes plan personality m) :
    plan.Accepted d.length config c.scratchpad backing := TilePlan.accepted_of_make h.plan_eq

theorem Placed.backed (h : c.Placed d k config backing bytes plan personality m) : plan.Backed bytes :=
  h.accepted.backed (laid_of_backingFor h.backing_eq)

theorem Placed.tiles_lt (h : c.Placed d k config backing bytes plan personality m) : plan.tiles + 2 < Size.limit :=
  h.backed.tiles_lt h.accepted.tileLength_pos

theorem Placed.narrow (h : c.Placed d k config backing bytes plan personality m) : plan.tileLength < addressLimit :=
  h.backed.narrow h.accepted.tiles_pos

theorem Placed.iterations_eq (h : c.Placed d k config backing bytes plan personality m) :
    plan.iterations = plan.tiles + 2 := TilePlan.iterations_eq h.tiles_lt

theorem Placed.iterations_pos (h : c.Placed d k config backing bytes plan personality m) : 0 < plan.iterations :=
  h.iterations_eq ▸ Nat.succ_pos _

theorem Placed.fits (h : c.Placed d k config backing bytes plan personality m) (ha : d.a.length = d.length)
    (hb : d.b.length = d.length) : d.Fits plan := by
  have hlength : plan.tiles * plan.tileLength = d.length := h.accepted.tiles_mul.trans h.accepted.length_eq
  exact ⟨ha.trans hlength.symm, hb.trans hlength.symm⟩

theorem Placed.sited (h : c.Placed d k config backing bytes plan personality m)
    (hin : ∀ l, Chip.inTcdm (plan.region l).addr (plan.region l).len = true) : plan.Sited bytes :=
  h.accepted.sited (laid_of_backingFor h.backing_eq) hin

theorem run_of_drive {r : Run} (hr : c.prepare d k config token flags = .ok r) {patience : Nat} {s : Pipeline World}
    (hdrive : r.pipeline.drive r.hardware patience 0 = some s) :
    c.run patience d k config token flags = some (({ r with pipeline := s } : Run).result, s.flags) := by
  rw [run, hr]
  exact congrArg (Option.map _) hdrive

theorem exists_placed (hbacking : backingFor d.length = .ok (backing, bytes))
    (hplan : TilePlan.make d.length config c.scratchpad backing = .ok plan)
    (hpersonality : Personality.ofMap? k.map = some personality) (ha : d.a.length = d.length)
    (hb : d.b.length = d.length) : ∃ m, c.Placed d k config backing bytes plan personality m := by
  have hlaid := laid_of_backingFor hbacking
  have hacc := TilePlan.accepted_of_make hplan
  have haligned : ∀ l, 4 ∣ (backing.addr l).toNat := hacc.backing_eq ▸ hacc.backing_aligned
  obtain ⟨m₀, h₀⟩ := Memory.exists_snax hlaid.words hlaid.limited
  have hsnax := Memory.snax_eq_ok h₀
  obtain ⟨m₁, h₁⟩ := Memory.exists_writeWords (haligned .a) (ha ▸ hlaid.maps hsnax .a)
  have hsnax₁ := (Memory.wrote_writeWords hsnax.2 h₁).1.snax hsnax
  obtain ⟨m, hm⟩ := Memory.exists_writeWords (haligned .b) (hb ▸ hlaid.maps hsnax₁ .b)
  exact ⟨m, hbacking, hplan, hpersonality, m₀, m₁, h₀, h₁, hm⟩

theorem Placed.readWords_vector (h : c.Placed d k config backing bytes plan personality m) {m' : Memory}
    (hm : m'.Snax bytes) {l : Lane} {ws : List Word} (hws : ws.length = d.length)
    (hh : m'.Holds (plan.backing.addr l).toNat ws) : m'.readWords (plan.backing.addr l) d.length = .ok ws := by
  have hlaid : plan.backing.Laid d.length bytes := h.accepted.backing_eq ▸ laid_of_backingFor h.backing_eq
  exact hlaid.readWords_vector hm (h.accepted.backing_aligned l) hws hh

theorem Placed.backWord_aligned (h : c.Placed d k config backing bytes plan personality m) (hs : plan.Sited bytes)
    {t : Nat} (ht : t < plan.tiles) (l : Lane) : 4 ∣ (plan.backWord t l).toNat := by
  rw [hs.toNat_backWord ht]
  refine Nat.dvd_add (h.accepted.backing_aligned l) (Nat.dvd_mul_left_of_dvd ?_ t)
  exact Nat.dvd_mul_left _ _

theorem Placed.readWords_tile (h : c.Placed d k config backing bytes plan personality m) (hs : plan.Sited bytes)
    {m' : Memory} (hm : m'.Snax bytes) {t : Nat} (ht : t < plan.tiles) {l : Lane} {ws : List Word}
    (hws : ws.length = plan.tileLength) (hh : m'.Holds (plan.backWord t l).toNat ws) :
    m'.readWords (plan.backWord t l) plan.tileLength = .ok ws := by
  rw [← hws]
  refine Memory.readWords_of_holds hm.2 hh (h.backWord_aligned hs ht l) ?_
  rw [hws]
  exact hs.maps_back hm ht l

/-- A tile in backing storage that two memories agree on is read the same from both. -/
theorem Placed.readWords_tile_congr (h : c.Placed d k config backing bytes plan personality m) (hs : plan.Sited bytes)
    {m₁ m₂ : Memory} (h₁ : m₁.Snax bytes) (h₂ : m₂.Snax bytes) {t : Nat} (ht : t < plan.tiles) {l : Lane}
    (hagree : m₂.AgreeOn m₁ ((plan.backTile t).span l)) :
    m₂.readWords (plan.backWord t l) plan.tileLength = m₁.readWords (plan.backWord t l) plan.tileLength := by
  rw [hs.span_back ht, show plan.tileBytes = Bytes.perWord * plan.tileLength from Nat.mul_comm _ _] at hagree
  exact Memory.readWords_congr h₁.2 h₂.2 hagree (h.backWord_aligned hs ht l) (hs.maps_back h₁ ht l)
    (hs.maps_back h₂ ht l)

theorem Placed.slotWord_aligned (h : c.Placed d k config backing bytes plan personality m)
    (hbase : 4 ∣ c.scratchpad.base.toNat) (t : Nat) (l : Lane) : 4 ∣ (plan.slotWord t l).toNat :=
  (h.accepted.slotWord_aligned_iff t l).mpr hbase

/-- Before its first step a unit is in no one's way. -/
theorem workers_setUp (hpos : 0 < plan.iterations) {i : Nat} (hi : i < c.topology.units) :
    (c.setUp d k config token flags plan personality m).pipeline.workers[i]? =
      some (Worker.create i (c.topology.roleOf i) (i == c.topology.mover) (i == c.topology.compute)) := by
  simp only [setUp, Pipeline.create_of_pos hpos, List.getElem?_map, List.getElem?_range hi]
  rfl

theorem missing_unit (t : Topology) (unit : Nat) :
    Worker.missing? unit (t.roleOf unit) (unit == t.mover) (unit == t.compute) = none := by
  unfold Topology.roleOf
  split
  · rename_i hmover
    simp [Worker.missing?, hmover]
  · split
    · rename_i hcompute
      simp [Worker.missing?, hcompute]
    · rfl

theorem create_unit (t : Topology) (unit : Nat) :
    Worker.create unit (t.roleOf unit) (unit == t.mover) (unit == t.compute) =
      ⟨0, .checking, none, ⟨unit, t.roleOf unit, #[], 0, 0⟩⟩ := by
  rw [Worker.create, missing_unit]
  rfl

theorem create_mover (t : Topology) :
    Worker.create t.mover (t.roleOf t.mover) (t.mover == t.mover) (t.mover == t.compute) =
      ⟨0, .checking, none, ⟨t.mover, .dataMover, #[], 0, 0⟩⟩ := by
  rw [create_unit, Topology.roleOf_mover]

theorem create_compute (t : Topology) :
    Worker.create t.compute (t.roleOf t.compute) (t.compute == t.mover) (t.compute == t.compute) =
      ⟨0, .checking, none, ⟨t.compute, .compute, #[], 0, 0⟩⟩ := by
  rw [create_unit, Topology.roleOf_compute]

theorem mem_workers_setUp (hpos : 0 < plan.iterations) {w : Worker}
    (hw : w ∈ (c.setUp d k config token flags plan personality m).pipeline.workers) :
    ∃ unit, w = ⟨0, .checking, none, ⟨unit, c.topology.roleOf unit, #[], 0, 0⟩⟩ := by
  rw [setUp, Pipeline.create_of_pos hpos] at hw
  obtain ⟨unit, -, rfl⟩ := List.mem_map.mp hw
  exact ⟨unit, create_unit c.topology unit⟩

theorem flags_setUp (hpos : 0 < plan.iterations) :
    (c.setUp d k config token flags plan personality m).pipeline.flags = (flags.child token).2 := by
  rw [setUp, Pipeline.create_of_pos hpos]

theorem length_workers_setUp :
    (c.setUp d k config token flags plan personality m).pipeline.workers.length = c.topology.units := by
  simp [setUp, Pipeline.create]

theorem size_setUp :
    (c.setUp d k config token flags plan personality m).pipeline.flags.raised.size = flags.raised.size + 1 := by
  have hchild : (flags.child token).2.raised.size = flags.raised.size + 1 := by simp [CancelFlags.child]
  simp only [setUp, Pipeline.create]
  split
  · rw [CancelFlags.size_raise, hchild]
  · exact hchild

theorem roster_setUp : Pipeline.Roster c.topology (c.setUp d k config token flags plan personality m).pipeline :=
  .create (by simp [CancelFlags.child])

theorem staged_setUp {b : Kernel.BuiltIn} (h : c.Placed d k config backing bytes plan personality m)
    (ha : d.a.length = d.length) (hb : d.b.length = d.length) (raised : Bool) :
    plan.Staged d k b bytes m ⟨0, .checking, none, ⟨c.topology.mover, .dataMover, #[], 0, 0⟩⟩
      ⟨0, .checking, none, ⟨c.topology.compute, .compute, #[], 0, 0⟩⟩ raised
      (c.setUp d k config token flags plan personality m).pipeline.world [] := by
  obtain ⟨hsnax, hina, hinb⟩ := h.inputs ha hb
  have hbacking : plan.backing = backing := h.accepted.backing_eq
  have harrived : ∀ (w : Worker) (i : Nat), w.iteration = 0 → w.phase = .checking → w.hasArrived i = false :=
    fun w i hw hp => by simp [Worker.hasArrived, hw, hp]
  refine ⟨⟨hsnax, fun l hl => ?_, fun t _ => Or.inr (.refl _ _), fun t _ hdue => ?_, fun t _ hdue => ?_, fun t _ hx => ?_⟩,
    TilePlan.moving_rest (Or.inl rfl) rfl rfl, ⟨⟨rfl, h.personality_eq⟩, fun _ => rfl, fun _ _ hx => by cases hx⟩,
      TilePlan.inOrder_nil⟩
  · rw [hbacking]
    cases l with
    | a => exact hina
    | b => exact hinb
    | o => exact absurd rfl hl
  · have hx := hdue.1
    rw [harrived _ _ rfl rfl] at hx
    cases hx
  · rcases hdue.1 with hx | ⟨-, hx, -⟩
    · rw [harrived _ _ rfl rfl] at hx
      cases hx
    · cases hx
  · rw [harrived _ _ rfl rfl] at hx
    cases hx

end Cluster

end TileOffload
