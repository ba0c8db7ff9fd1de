import TileOffload.Proofs.Race

/-! # Configuration errors

A configuration error says that a request could not be planned. Main statement: a run that is given up before its units
start fails with such an error, unless backing storage does not hold the dataset; a run whose units have started does
not, unless the scratchpad does not begin at a word, so that the device finds its first operand misaligned. -/

namespace TileOffload

namespace TilePlan

variable {p : TilePlan} {length : Nat} {config : PipelineConfig} {s : Scratchpad} {backing : Backing}

/-- The first operand of a tile that does not begin at a word is its first operand. -/
theorem Accepted.unaligned_slotTile (h : p.Accepted length config s backing) {t : Nat} {addr : Word}
    (haddr : (p.slotTile t).unaligned? = some addr) : ¬4 ∣ s.base.toNat ∧ addr = p.slotWord t .a := by
  have hbase : ¬4 ∣ s.base.toNat := by
    intro hx
    rw [unaligned?_slotTile.mpr fun l => (h.slotWord_aligned_iff t l).mpr hx] at haddr
    cases haddr
  refine ⟨hbase, ?_⟩
  have hfirst : ¬4 ∣ (p.slotTile t).a.toNat := fun hx => hbase ((h.slotWord_aligned_iff t .a).mp hx)
  rw [Tile.unaligned?, List.find?_cons_of_pos (by simpa using hfirst)] at haddr
  exact (Option.some.inj haddr).symm

end TilePlan

theorem Random.length_draw (bound : Word) (n : Nat) (s : Random) : (draw bound n s).1.length = n := by
  suffices ∀ drawn, (draw.go bound n s drawn).1.length = n + drawn.length from this []
  induction n generalizing s with
  | zero => simp [draw.go]
  | succ n ih =>
    intro drawn
    rw [draw.go, ih, List.length_cons]
    omega

theorem Dataset.length_random (n : Nat) (seed : UInt64) : (random n seed).length = n := by
  simp [random, length, Random.length_draw]

/-- Backing storage does not hold the dataset: three vectors of its length are too long, or one of its inputs reaches
    past the end. -/
inductive OutOfStorage (d : Dataset) : Error → Prop
  | vectors {bytes : Nat} (refused : Cluster.backingFor d.length = .error (.addressOutOfRange Chip.backingBase.toNat bytes))
    (long : Chip.backingLimit < bytes) : OutOfStorage d (.addressOutOfRange Chip.backingBase.toNat bytes)
  | input {backing : Backing} {bytes : Nat} (placed : Cluster.backingFor d.length = .ok (backing, bytes)) {addr : Word}
    {input : List Word} (which : addr = backing.a ∧ input = d.a ∨ addr = backing.b ∧ input = d.b)
    (past : ¬Span.Within ⟨addr.toNat, input.length * Bytes.perWord⟩ (Chip.storage bytes)) :
    OutOfStorage d (.addressOutOfRange addr.toNat (input.length * Bytes.perWord))

theorem Memory.failsWith_writeWords {P : Error → Prop} {m : Memory} {bytes : Nat} (hm : m.Snax bytes) {addr : Word}
    {words : List Word} (hmisaligned : P (.misaligned "word access" addr.toNat Bytes.perWord))
    (hpast : ¬Span.Within ⟨addr.toNat, words.length * Bytes.perWord⟩ (Chip.storage bytes) →
      P (.addressOutOfRange addr.toNat (words.length * Bytes.perWord))) : FailsWith P (m.writeWords addr words) := by
  intro e he
  rcases locateWords_eq_error (writeWords_eq_error.mp he) with ⟨-, rfl⟩ | ⟨-, hout, rfl⟩
  · exact hmisaligned
  · refine hpast fun hwithin => ?_
    rw [maps_iff.mpr ⟨Chip.storage bytes, hm.1 ▸ List.mem_cons_self, hwithin⟩] at hout
    cases hout

namespace Cluster

variable {c : Cluster} {d : Dataset} {b : Kernel.BuiltIn} {config : PipelineConfig} {token : CancelToken}
  {flags : CancelFlags}

/-- A run is given up before its units start for a fault of its configuration, or for lack of storage. -/
theorem prepare_failsWith :
    FailsWith (fun e => e.isConfiguration = true ∨ OutOfStorage d e) (c.prepare d b.kernel config token flags) := by
  intro e he
  unfold prepare at he
  simp only [bind_eq_error] at he
  rcases he with hbacking | ⟨⟨backing, bytes⟩, hbacking, hplan | ⟨plan, hplan, he⟩⟩
  · have hrefused := hbacking
    unfold backingFor at hbacking
    split at hbacking
    · cases hbacking
      exact Or.inl rfl
    · dsimp only at hbacking
      split at hbacking
      · rename_i hlong
        cases hbacking
        exact Or.inr (.vectors hrefused hlong)
      · cases hbacking
  · exact Or.inl (configured_make _ _ _ _ e hplan)
  · have hlaid := laid_of_backingFor hbacking
    split at he
    · rename_i personality hpersonality
      have hsnax : ∀ {m₀}, Memory.snax bytes = .ok m₀ → m₀.Snax bytes := Memory.snax_eq_ok
      simp only [bind_eq_error] at he
      rcases he with hmemory | ⟨m₀, h₀, ha | ⟨m₁, h₁, hb | ⟨m₂, -, hengine | ⟨engine, -, hsetUp⟩⟩⟩⟩
      · obtain ⟨m₀, h₀⟩ := Memory.exists_snax hlaid.words hlaid.limited
        rw [h₀] at hmemory
        cases hmemory
      · exact Memory.failsWith_writeWords (P := fun e => e.isConfiguration = true ∨ OutOfStorage d e) (hsnax h₀) (Or.inl rfl)
          (fun hpast => Or.inr (.input hbacking (Or.inl ⟨rfl, rfl⟩) hpast)) e ha
      · have hsnax₁ := (Memory.wrote_writeWords (hsnax h₀).2 h₁).1.snax (hsnax h₀)
        exact Memory.failsWith_writeWords (P := fun e => e.isConfiguration = true ∨ OutOfStorage d e) hsnax₁ (Or.inl rfl)
          (fun hpast => Or.inr (.input hbacking (Or.inr ⟨rfl, rfl⟩) hpast)) e hb
      · rw [Engine.make, if_pos rfl] at hengine
        cases hengine
      · cases hsetUp
    · cases he
      exact Or.inl rfl

end Cluster

/-! ### Units at work -/

/-- The only configuration error that hardware answers with is that of an operand that does not begin at a word. -/
theorem Expected.isConfiguration {engine : Engine} {L : Nat} {stuck : Bool} {m : Memory} {job : Job}
    {outcome : Outcome Nat} {unit i : Nat} {e : Error} (h : Expected engine L stuck m job outcome)
    (he : outcome.error? unit i = some e) (hc : e.isConfiguration = true) :
    ∃ tile addr, job = .compute tile ∧ tile.unaligned? = some addr ∧
      e = .misaligned "word access" addr.toNat Bytes.perWord := by
  cases h with
  | moved | refused =>
    cases he
    try cases hc
  | computed verdict =>
    cases verdict with
    | unaligned inside unaligned =>
      cases he
      exact ⟨_, _, rfl, unaligned, rfl⟩
    | outside | late | served =>
      cases he
      try cases hc

theorem Run.result_eq_error {r : Run} {e : Error} (h : r.result = .error e) :
    failure? r.pipeline.results = some e ∨ r.pipeline.world.queue.fault = some e ∨
      r.pipeline.world.memory.readWords r.pipeline.plan.backing.o r.dataset.length = .error e := by
  cases hfailure : failure? r.pipeline.results with
  | some e' =>
    rw [result_of_failure? hfailure] at h
    cases h
    exact Or.inl rfl
  | none =>
    unfold result at h
    simp only [hfailure] at h
    split at h
    · rename_i hfault
      cases h
      exact Or.inr (Or.inl hfault)
    · rcases bind_eq_error.mp h with hread | ⟨output, -, hreport⟩
      · exact Or.inr (Or.inr hread)
      · cases hreport

theorem Memory.copy_out_of_range (m : Memory) (dst src : Word) (len : Nat) :
    FailsWith (fun e => e.isConfiguration = false) (m.copy dst src len) := by
  have hlocate : ∀ addr, FailsWith (fun e => e.isConfiguration = false) (m.locate addr len) := by
    intro addr
    unfold locate
    split
    · exact failsWith_ok _
    · exact failsWith_error rfl
  exact (hlocate dst).bind fun _ => (hlocate src).bind fun _ => failsWith_ok _

namespace Cluster

variable {c : Cluster} {d : Dataset} {b : Kernel.BuiltIn} {config : PipelineConfig} {token : CancelToken}
  {flags : CancelFlags} {backing : Backing} {bytes : Nat} {plan : TilePlan} {personality : Personality} {m : Memory}
  {moves : List Move} {s : Pipeline World} {e : Error}

/-- A unit that fails with a configuration error has found the first operand of a tile misaligned. -/
theorem Placed.unit_isConfiguration (h : c.Placed d b.kernel config backing bytes plan personality m)
    (hf : s.Foretold (Expected ⟨b.kernel, config.wait, c.clock⟩ c.latency c.stuck m) plan.backTile c.topology)
    (hplan : s.plan = plan) (he : .error e ∈ s.results) (hc : e.isConfiguration = true) :
    ∃ t < plan.tiles, ¬4 ∣ c.scratchpad.base.toNat ∧
      e = .misaligned "word access" (plan.slotWord t .a).toNat Bytes.perWord := by
  subst hplan
  obtain ⟨unit, hunit⟩ := List.mem_iff_getElem?.mp he
  obtain ⟨w, hw, hfailure⟩ := Pipeline.results_eq_error.mp hunit
  obtain ⟨i, -, hfaulty⟩ := hf.faulty hw hfailure (Error.isCancelled_of_isConfiguration hc)
  obtain ⟨jobs, -, answered, error⟩ := hfaulty
  obtain ⟨tile, addr, rfl, haddr, rfl⟩ := answered.isConfiguration error hc
  rcases TilePlan.mem_jobs (jobs ▸ List.mem_append_right _ List.mem_cons_self) with ⟨-, x, -, hjob⟩ | ⟨-, t, ht, -, hjob⟩
  · cases hjob
  · cases hjob
    obtain ⟨hbase, rfl⟩ := h.accepted.unaligned_slotTile haddr
    exact ⟨t, ht, hbase, rfl⟩

/-- A run whose first tile lies inside the TCDM, but does not begin at a word, fails on its first operand, whichever units
    go on. -/
theorem Placed.result_unaligned (h : c.Placed d b.kernel config backing bytes plan personality m)
    (hlow : flags.isCancelled token = false) (hs : c.Reaches d b config token flags plan personality m s)
    (hfinished : s.isFinished = true) (hinside : (plan.slotTile 0).outside? = none) {addr : Word}
    (hunaligned : (plan.slotTile 0).unaligned? = some addr) :
    ({ c.setUp d b.kernel config token flags plan personality m with pipeline := s } : Run).result =
      .error (.misaligned "word access" addr.toNat Bytes.perWord) := by
  have hloads : ∀ i < 2, plan.refusalIn? m i = none := fun i hi =>
    h.accepted.refusalIn?_eq_none h.backed h.snax hinside fun t _ ht => by omega
  have hfaulty : c.Foretells b config plan m 1 c.topology.compute (.misaligned "word access" addr.toNat Bytes.perWord) :=
    foretells_compute_iff.mpr ⟨0, h.accepted.tiles_pos, rfl, .unaligned hinside hunaligned⟩
  obtain ⟨unit, e, hfirst, -, -, hresult⟩ := h.fails hlow hs hfinished hfaulty fun i hi unit e => by
    obtain rfl := Nat.lt_one_iff.mp hi
    exact not_foretells_zero (hloads 0 Nat.two_pos) unit e
  rw [hresult]
  rcases hfirst.unit_eq with rfl | rfl
  · obtain ⟨fault, hrefusal, -⟩ := foretells_mover_iff.mp hfirst
    rw [hloads 1 Nat.one_lt_two] at hrefusal
    cases hrefusal
  · rw [hfirst.unique hfaulty]

/-- Before the units of a run start, it fails with configuration errors only, unless backing storage does not hold the
    dataset. Once they have started, whoever goes on and whoever raises a token, it fails with a configuration error
    only for an operand that the device finds misaligned, and this only if the scratchpad does not begin at a word. -/
theorem configuration_errors_come_first (c : Cluster) (d : Dataset) (b : Kernel.BuiltIn) (config : PipelineConfig)
    (token : CancelToken) (flags : CancelFlags) :
    (∀ e, c.prepare d b.kernel config token flags = .error e → (e.isConfiguration = true ↔ ¬OutOfStorage d e)) ∧
    ∀ r, c.prepare d b.kernel config token flags = .ok r →
      ∀ moves s, Pipeline.follow? r.hardware moves r.pipeline = some s →
        ∀ e, ({ r with pipeline := s } : Run).result = .error e →
          (e.isConfiguration = true ↔ ∃ t < s.plan.tiles, ¬4 ∣ c.scratchpad.base.toNat ∧
            e = .misaligned "word access" (s.plan.slotWord t .a).toNat Bytes.perWord) := by
  refine ⟨fun e he => ⟨fun hc hout => ?_, fun hnot => ?_⟩, fun r hr moves s hmoves e he => ⟨fun hc => ?_, ?_⟩⟩
  · cases hout <;> cases hc
  · exact (prepare_failsWith e he).resolve_right hnot
  · obtain ⟨backing, bytes, plan, personality, m, hplaced, rfl⟩ := prepare_eq_ok.mp hr
    have hforeseen := hplaced.foreseen hmoves
    have hnever : ∀ {e' : Error}, e'.isConfiguration = false → e' ≠ e := by
      rintro e' he' rfl
      rw [hc] at he'
      cases he'
    rcases Run.result_eq_error he with hfailure | hfault | hread
    · rw [hforeseen.plan_eq]
      exact hplaced.unit_isConfiguration hforeseen.foretold hforeseen.plan_eq (Run.mem_of_failure? hfailure) hc
    · have hreached := Pipeline.reached_of_follow? (fun _ _ => (none : Option Unit)) hmoves
      have hcopy := Pipeline.fault_of_reached (P := fun e => e.isConfiguration = false) Memory.copy_out_of_range rfl
        hreached e hfault
      exact absurd rfl (hnever hcopy)
    · have haligned : 4 ∣ (s.plan.backing.addr .o).toNat := hforeseen.plan_eq ▸ hplaced.accepted.backing_aligned .o
      rcases Memory.locateWords_eq_error (Memory.readWords_eq_error.mp hread) with ⟨hnot, -⟩ | ⟨-, -, hout⟩
      · exact absurd haligned hnot
      · exact absurd hout.symm (hnever rfl)
  · rintro ⟨t, -, -, rfl⟩
    rfl

/-- A cluster whose scratchpad begins a byte after a word. -/
def askew : Cluster := make .snax ⟨0x10000001, 4096, 1, by decide, by decide, by decide, by decide⟩

theorem exists_placed_askew :
    ∃ plan m, askew.Placed .reference Kernel.mac (.tiled 4) ⟨0x80000000, 0x80000050, 0x800000A0⟩ 240 plan .mac m ∧
      (plan.slotTile 0).outside? = none ∧ (plan.slotTile 0).unaligned? = some 0x10000001 := by
  obtain ⟨plan, hplan, hinside, hunaligned⟩ :
      ∃ plan, TilePlan.make 20 (.tiled 4) askew.scratchpad ⟨0x80000000, 0x80000050, 0x800000A0⟩ = .ok plan ∧
        (plan.slotTile 0).outside? = none ∧ (plan.slotTile 0).unaligned? = some 0x10000001 := ⟨_, rfl, rfl, rfl⟩
  obtain ⟨m, hplaced⟩ := exists_placed (c := askew) (d := .reference) (k := Kernel.mac) rfl hplan rfl rfl rfl
  exact ⟨plan, m, hplaced, hinside, hunaligned⟩

/-- A run there ends, and tells that its first operand is misaligned. -/
theorem askew_fails :
    ∃ (r : Run) (positions : List Nat) (s : Pipeline World),
      askew.prepare .reference Kernel.mac (.tiled 4) ⟨0, []⟩ ⟨#[false]⟩ = .ok r ∧
      Pipeline.follow? r.hardware (positions.map .step) r.pipeline = some s ∧ s.isFinished = true ∧
      ({ r with pipeline := s } : Run).result = .error (.misaligned "word access" 0x10000001 4) := by
  obtain ⟨plan, m, hplaced, hinside, hunaligned⟩ := exists_placed_askew
  have hstart : askew.Reaches .reference .mac (.tiled 4) ⟨0, []⟩ ⟨#[false]⟩ plan .mac m _ := reaches_start
  obtain ⟨visits, hl⟩ := (hstart.foreseen hplaced).lockstep
  have hmax : (PipelineConfig.tiled 4).wait.maxPolls = some WaitPolicy.defaultMaxPolls := rfl
  obtain ⟨positions, s, hfollow, hfinished⟩ := hl.exists_finished (tiring askew .mac hmax) (Nat.succ_pos _)
  exact ⟨_, positions, s, prepare_eq_ok.mpr ⟨_, _, _, _, m, hplaced, rfl⟩, hfollow, hfinished,
    Placed.result_unaligned (b := .mac) hplaced rfl (hstart.later hfollow) hfinished hinside hunaligned⟩

/-- Three vectors of that many elements are 32 bytes more than backing storage can hold. -/
theorem long_dataset_refused :
    (make .snax .tcdm).prepare (.random 349528 1) Kernel.mac (.tiled 4) ⟨0, []⟩ ⟨#[false]⟩ =
      .error (.addressOutOfRange 0x80000000 4194336) := by
  have hbacking : backingFor (Dataset.random 349528 1).length = .error (.addressOutOfRange 0x80000000 4194336) := by
    rw [Dataset.length_random]
    rfl
  unfold prepare
  rw [hbacking]
  rfl

/-- An error that is not of the configuration is told before the units start, and one that is, after. -/
theorem configuration_errors_misplaced :
    (∃ e, (make .snax .tcdm).prepare (.random 349528 1) Kernel.mac (.tiled 4) ⟨0, []⟩ ⟨#[false]⟩ = .error e ∧
      e.isConfiguration = false) ∧
    ∃ (r : Run) (positions : List Nat) (s : Pipeline World) (e : Error),
      askew.prepare .reference Kernel.mac (.tiled 4) ⟨0, []⟩ ⟨#[false]⟩ = .ok r ∧
      Pipeline.follow? r.hardware (positions.map .step) r.pipeline = some s ∧ s.isFinished = true ∧
      ({ r with pipeline := s } : Run).result = .error e ∧ e.isConfiguration = true := by
  obtain ⟨r, positions, s, hr, hfollow, hfinished, hresult⟩ := askew_fails
  exact ⟨⟨_, long_dataset_refused, rfl⟩, r, positions, s, _, hr, hfollow, hfinished, hresult, rfl⟩

/-- The one is for lack of storage, the other for an operand that the device finds misaligned. -/
theorem misplaced_errors_have_causes :
    OutOfStorage (.random 349528 1) (.addressOutOfRange 0x80000000 4194336) ∧
    ∃ (r : Run) (positions : List Nat) (s : Pipeline World) (e : Error),
      askew.prepare .reference Kernel.mac (.tiled 4) ⟨0, []⟩ ⟨#[false]⟩ = .ok r ∧
      Pipeline.follow? r.hardware (positions.map .step) r.pipeline = some s ∧ s.isFinished = true ∧
      ({ r with pipeline := s } : Run).result = .error e ∧
      ∃ t < s.plan.tiles, e = .misaligned "word access" (s.plan.slotWord t .a).toNat 4 := by
  constructor
  · obtain ⟨hbefore, -⟩ := configuration_errors_come_first (make .snax .tcdm) (.random 349528 1) .mac (.tiled 4) ⟨0, []⟩
      ⟨#[false]⟩
    by_contra hnot
    have hc := (hbefore _ long_dataset_refused).mpr hnot
    cases hc
  · obtain ⟨r, positions, s, hr, hfollow, hfinished, hresult⟩ := askew_fails
    obtain ⟨-, hafter⟩ := configuration_errors_come_first askew .reference .mac (.tiled 4) ⟨0, []⟩ ⟨#[false]⟩
    obtain ⟨t, ht, -, hcause⟩ := (hafter r hr _ s hfollow _ hresult).mp rfl
    exact ⟨r, positions, s, _, hr, hfollow, hfinished, hresult, t, ht, hcause⟩

end Cluster

end TileOffload
