import TileOffload.Proofs.Parts

/-! # A healthy device at work

Up to the start of the device the work for a tile goes on, on whatever device. A device that is not stuck then
answers every request well: after each part of the work there is less left to do, and in the end the tile took one
poll more than the device is busy. -/

namespace TileOffload

/-- A wait does not give up while the device is busy, if that takes neither too many polls nor too long. -/
theorem WaitPolicy.givesUp_eq_false {wait : WaitPolicy} {L polls elapsed : Nat}
    (hpolls : ∀ limit, wait.maxPolls = some limit → L + 1 ≤ max limit 1)
    (hdeadline : ∀ limit, wait.deadline = some limit → elapsed < limit) (hpos : 0 < polls) (hle : polls ≤ L) :
    wait.givesUp polls elapsed = false := by
  have hbound : wait.maxPolls.any (· ≤ polls) = false := by
    cases hmax : wait.maxPolls with
    | none => rfl
    | some limit =>
      have := hpolls limit hmax
      simp only [Option.any_some, decide_eq_false_iff_not]
      omega
  have htime : wait.deadline.any (· ≤ elapsed) = false := by
    cases hlimit : wait.deadline with
    | none => rfl
    | some limit =>
      have := hdeadline limit hlimit
      simp only [Option.any_some, decide_eq_false_iff_not]
      omega
  rw [WaitPolicy.givesUp, hbound, htime]
  rfl

theorem Device.checkDescriptor_ok {σ : Type} {d : Device σ} {b : Kernel.BuiltIn} {tile : Tile} {desc : Descriptor}
    (hd : d.map = b.kernel.map) (hdesc : b.kernel.describe tile = .done desc) (hstate : d.state = .idle) :
    d.checkDescriptor desc = .ok () := by
  have hstart := (Descriptor.build_eq_ok (Kernel.BuiltIn.describe_built hdesc)).2.1
  simp only [checkDescriptor, bind_eq_ok]
  refine ⟨(), if_pos hstate, if_neg ?_⟩
  rw [hstart, hd]
  exact fun hne => hne rfl

/-- The state of the device in each phase of the work for a tile. -/
def EnginePhase.deviceState : EnginePhase → DeviceState
  | .idle | .configuring _ => .idle
  | .launching | .fetchingA _ | .fetchingB _ _ | .storing _ _ => .configured
  | .polling _ => .running
  | .clearing _ => .done

/-- The parts that are left of the work for a tile, at most, when the device stays busy for `L` polls. -/
def EnginePhase.left (L : Nat) : EnginePhase → Nat
  | .idle => L + Kernel.longest + 8
  | .configuring rest => L + rest.length + 7
  | .launching => L + 6
  | .fetchingA _ => L + 5
  | .fetchingB _ _ => L + 4
  | .storing _ _ => L + 3
  | .polling polls => L - polls + 2
  | .clearing _ => 1

namespace World

variable {p : TilePlan} {d : Dataset} {k : Kernel} {b : Kernel.BuiltIn} {bytes L n t : Nat} {engine : Engine} {w w' : World}

/-! ### Up to the start -/

/-- The device has not started on the tile yet. -/
structure Opening (w : World) : Prop where
  state : w.device.state = w.phase.deviceState
  running : w.device.target.running = false
  inPhase : match w.phase with
    | .configuring rest => rest.length ≤ Kernel.longest
    | .polling _ | .clearing _ => False
    | _ => True

/-- The work for a tile has gone on, and with the write of the results the device has started. -/
structure Opened (w w' : World) : Prop where
  less : ∀ L, w'.phase.left L < w.phase.left L
  latency : w'.device.target.latency = w.device.target.latency
  stuck : w'.device.target.stuck = w.device.target.stuck
  launches : w'.device.launches = w.device.launches
  next : w'.Opening ∨ w'.phase = .polling 0 ∧ w'.device.state = .running ∧ w'.device.target.running = true ∧
    w'.device.target.busyLeft = w'.device.target.latency

theorem Opening.congr (h : w.Opening) (hphase : w'.phase = w.phase) (hdevice : w'.device = w.device) : w'.Opening := by
  obtain ⟨hstate, hrunning, hin⟩ := h
  refine ⟨?_, ?_, ?_⟩
  · rw [hdevice, hphase]
    exact hstate
  · rw [hdevice]
    exact hrunning
  · rw [hphase]
    exact hin

theorem begin_ok (hk : k.Follows b) (hs : p.Sited bytes) (hd : w.Driven k) {desc : Descriptor}
    (hdesc : k.describe (p.slotTile t) = .done desc)
    (hregs : ∀ r ∈ desc.config, w.device.target.register r.register = r.value)
    (hidle : w.device.target.running = false) :
    w.device.target.begin = .ok (Accelerator.passOf b (p.slotTile t)) := by
  refine Accelerator.begin_of_describe (hk.map_eq ▸ hd.2) (hk.describe_eq hdesc) hregs hidle ?_
  have hin : ∀ l, Chip.inTcdm ((p.slotTile t).addr l) (p.tileLength * Chip.elementBytes) = true := fun l =>
    Chip.inTcdm_iff.mpr (hs.slot_within t l)
  simp only [List.forall_mem_cons]
  exact ⟨hin .a, hin .b, hin .o, nofun⟩

theorem opened_configuring (hk : k.Follows b) (hd : w.Driven k) (hen : w.Engaged p d k b t) (h : w.Opening)
    {rest : List RegisterWrite} (hp : w.phase = .configuring rest) :
    ∃ w', w.compute engine (p.slotTile t) = (none, w') ∧ w.Opened w' := by
  obtain ⟨hstate, hrunning, hlong⟩ := h
  simp only [hp, EnginePhase.deviceState] at hstate hlong
  cases rest with
  | nil =>
    refine ⟨{ w with device.state := .configured, phase := .launching }, by simp only [compute, hp, configured, goOn], ?_,
      rfl, rfl, rfl, Or.inl ⟨rfl, hrunning, trivial⟩⟩
    intro L
    rw [hp]
    simp only [EnginePhase.left]
    omega
  | cons r rest =>
    simp only [Engaged, hp] at hen
    obtain ⟨desc, written, hdesc, hconfig, -⟩ := hen
    have hcontrol := (config_of_describe hk hdesc).1 r (hconfig ▸ List.mem_append_right _ List.mem_cons_self)
    have hwrite := Accelerator.write_config (v := r.value) w.memory (hd.map_target ▸ hcontrol)
    rw [List.length_cons] at hlong
    refine ⟨{ w with
      phase := .configuring rest
      device.target := { w.device.target with registers := w.device.target.registers.write r.register r.value } },
      by simp only [compute, hp, hwrite, goOn], ?_, rfl, rfl, rfl,
      Or.inl ⟨hstate, hrunning, Nat.le_of_succ_le hlong⟩⟩
    intro L
    rw [hp]
    simp only [EnginePhase.left, List.length_cons]
    omega

/-- The write of the results, with which the device starts to be busy. -/
theorem opened_storing (hs : p.Sited bytes) (hf : d.Fits p) (ht : t < p.tiles)
    (haligned : 4 ∣ (p.slotWord t .o).toNat) (hm : w.memory.Snax bytes) (hen : w.Engaged p d k b t)
    {pass : Pass} {results : List Word} (hp : w.phase = .storing pass results) :
    ∃ w', w.compute engine (p.slotTile t) = (none, w') ∧ w.Opened w' := by
  simp only [Engaged, hp] at hen
  obtain ⟨rfl, rfl⟩ := hen
  have hmaps : w.memory.maps (p.slotWord t .o) ((p.words d k t .o).length * Bytes.perWord) = true := by
    rw [hf.length_words ht]
    exact hs.maps_slot hm t .o
  obtain ⟨m, hwrite⟩ := Memory.exists_writeWords haligned hmaps
  refine ⟨{ w with
    memory := m, device.target := w.device.target.started p.tileLength, device.state := .running, phase := .polling 0 },
    ?_, ?_, rfl, rfl, rfl, Or.inr ⟨rfl, rfl, rfl, rfl⟩⟩
  · simp only [compute, hp]
    rw [show w.memory.writeWords (Accelerator.passOf b (p.slotTile t)).o (p.words d k t .o) = .ok m from hwrite]
    rfl
  · intro L
    rw [hp]
    simp only [EnginePhase.left]
    omega

theorem opened_goOn {tile : Tile} (phase : EnginePhase) (h : w.compute engine tile = w.goOn phase)
    (hless : ∀ L, phase.left L < w.phase.left L) (hopening : Opening { w with phase }) :
    ∃ w', w.compute engine tile = (none, w') ∧ w.Opened w' := ⟨_, h, hless, rfl, rfl, rfl, Or.inl hopening⟩

/-- Up to the start of the device every part of the work for a tile succeeds. -/
theorem opened (hk : k.Follows b) (hs : p.Sited bytes) (hf : d.Fits p) (ht : t < p.tiles) (hkernel : engine.kernel = k)
    (hdescribe : k.describe (p.slotTile t) = b.kernel.describe (p.slotTile t)) (hwide : p.tileLength < addressLimit)
    (haligned : ∀ l, 4 ∣ (p.slotWord t l).toNat) (hm : w.memory.Snax bytes) (hd : w.Driven k)
    (hen : w.Engaged p d k b t) (h : w.Opening) :
    ∃ w', w.compute engine (p.slotTile t) = (none, w') ∧ w.Opened w' := by
  obtain ⟨hstate, hrunning, hin⟩ := id h
  have hread : ∀ l, ∃ ws, w.memory.readWords (p.slotWord t l) p.tileLength = .ok ws := fun l =>
    Memory.exists_readWords (haligned l) (hs.maps_slot hm t l)
  cases hp : w.phase with
  | idle =>
    simp only [hp, EnginePhase.deviceState] at hstate
    obtain ⟨desc, hdesc, hlong⟩ := b.exists_describe (p.slotTile t) hwide
    have hcheck := Device.checkDescriptor_ok (hd.1.trans hk.map_eq) hdesc hstate
    refine opened_goOn (.configuring desc.config) ?_ (fun L => ?_) ⟨hstate, hrunning, hlong⟩
    · simp only [compute, hp, hkernel, hdescribe, hdesc, hcheck]
    · rw [hp]
      simp only [EnginePhase.left]
      omega
  | configuring rest => exact opened_configuring hk hd hen h hp
  | launching =>
    simp only [hp, EnginePhase.deviceState] at hstate
    simp only [Engaged, hp] at hen
    obtain ⟨desc, hdesc, hregs⟩ := hen
    have hbegin := begin_ok hk hs hd hdesc hregs hrunning
    refine opened_goOn (.fetchingA (Accelerator.passOf b (p.slotTile t))) ?_ (fun L => ?_) ⟨hstate, hrunning, trivial⟩
    · simp only [compute, hp, hbegin]
    · rw [hp]
      exact Nat.lt_succ_self _
  | fetchingA pass =>
    simp only [hp, EnginePhase.deviceState] at hstate
    simp only [Engaged, hp] at hen
    subst hen
    obtain ⟨xs, hxs⟩ := hread .a
    refine opened_goOn (.fetchingB (Accelerator.passOf b (p.slotTile t)) xs) ?_ (fun L => ?_) ⟨hstate, hrunning, trivial⟩
    · simp only [compute, hp]
      rw [show w.memory.readWords (Accelerator.passOf b (p.slotTile t)).a (Accelerator.passOf b (p.slotTile t)).len =
        .ok xs from hxs]
    · rw [hp]
      exact Nat.lt_succ_self _
  | fetchingB pass xs =>
    simp only [hp, EnginePhase.deviceState] at hstate
    simp only [Engaged, hp] at hen
    obtain ⟨rfl, rfl⟩ := hen
    obtain ⟨ys, hys⟩ := hread .b
    refine opened_goOn (.storing (Accelerator.passOf b (p.slotTile t))
      (List.zipWith b.kernel.reference (p.words d k t .a) ys)) ?_ (fun L => ?_) ⟨hstate, hrunning, trivial⟩
    · simp only [compute, hp]
      rw [show w.memory.readWords (Accelerator.passOf b (p.slotTile t)).b (Accelerator.passOf b (p.slotTile t)).len =
        .ok ys from hys]
      rfl
    · rw [hp]
      exact Nat.lt_succ_self _
  | storing pass results => exact opened_storing hs hf ht (haligned .o) hm hen hp
  | polling polls | clearing polls =>
    rw [hp] at hin
    exact hin.elim

/-! ### A healthy device -/

/-- A device that stays busy for `L` polls after each start and has completed `n` launches. -/
structure Healthy (L n : Nat) (w : World) : Prop where
  latency : w.device.target.latency = L
  stuck : w.device.target.stuck = false
  state : w.device.state = w.phase.deviceState
  inPhase : match w.phase with
    | .configuring rest =>
      w.device.target.running = false ∧ w.device.launches = n ∧ rest.length ≤ Kernel.longest
    | .polling polls =>
      w.device.target.running = true ∧ w.device.launches = n ∧ polls + w.device.target.busyLeft = L
    | .clearing polls =>
      w.device.target.running = w.device.map.clear.isSome ∧ w.device.launches = n + 1 ∧ polls = L + 1
    | _ => w.device.target.running = false ∧ w.device.launches = n

theorem Healthy.congr (h : w.Healthy L n) (hphase : w'.phase = w.phase) (hdevice : w'.device = w.device) :
    w'.Healthy L n := by
  obtain ⟨hlatency, hstuck, hstate, hin⟩ := h
  refine ⟨?_, ?_, ?_, ?_⟩ <;> rw [hdevice]
  · exact hlatency
  · exact hstuck
  · rw [hphase]
    exact hstate
  · rw [hphase]
    exact hin

theorem Healthy.opening (h : w.Healthy L n) :
    (∃ polls, w.phase = .polling polls) ∨ (∃ polls, w.phase = .clearing polls) ∨ w.Opening ∧ w.device.launches = n := by
  obtain ⟨-, -, hstate, hin⟩ := h
  cases hphase : w.phase with
  | polling polls => exact Or.inl ⟨polls, rfl⟩
  | clearing polls => exact Or.inr (Or.inl ⟨polls, rfl⟩)
  | configuring rest =>
    rw [hphase] at hin
    obtain ⟨hrunning, hcount, hlong⟩ := hin
    exact Or.inr (Or.inr ⟨⟨hstate, hrunning, by rwa [hphase]⟩, hcount⟩)
  | idle | launching | fetchingA | fetchingB | storing =>
    rw [hphase] at hin
    exact Or.inr (Or.inr ⟨⟨hstate, hin.1, by rw [hphase]; trivial⟩, hin.2⟩)

theorem Opened.healthy (h : w.Opened w') (hw : w.Healthy L n) (hcount : w.device.launches = n) : w'.Healthy L n := by
  have hcount' := h.launches.trans hcount
  have hlatency := h.latency.trans hw.latency
  rcases h.next with ⟨hstate, hrunning, hin⟩ | ⟨hphase, hstate, hrunning, hbusy⟩
  · refine ⟨hlatency, h.stuck.trans hw.stuck, hstate, ?_⟩
    cases hphase : w'.phase with
    | polling polls | clearing polls =>
      rw [hphase] at hin
      exact hin.elim
    | configuring rest =>
      rw [hphase] at hin
      exact ⟨hrunning, hcount', hin⟩
    | idle | launching | fetchingA | fetchingB | storing => exact ⟨hrunning, hcount'⟩
  · refine ⟨hlatency, h.stuck.trans hw.stuck, by rw [hphase]; exact hstate, ?_⟩
    rw [hphase]
    exact ⟨hrunning, hcount', by rw [Nat.zero_add, hbusy]; exact hlatency⟩

/-- What comes of a part of the work for a tile. -/
def Served (engine : Engine) (tile : Tile) (L n : Nat) (w : World) : Prop :=
  (∃ w', w.compute engine tile = (none, w') ∧ w'.Healthy L n ∧ w'.phase.left L < w.phase.left L) ∨
    ∃ w', w.compute engine tile = (some (.done (L + 1)), w') ∧ w'.phase = .idle ∧ w'.Healthy L (n + 1)

theorem Served.goOn {tile : Tile} (v : World) (phase : EnginePhase) (h : w.compute engine tile = v.goOn phase)
    (hv : Healthy L n { v with phase }) (hleft : phase.left L < w.phase.left L) : w.Served engine tile L n :=
  Or.inl ⟨_, h, hv, hleft⟩

theorem read_status (hd : w.Driven k) : w.device.target.read w.device.map.status = w.device.target.status := by
  rw [Accelerator.read, if_pos (by rw [hd.1, hd.map_target])]

theorem served_polling (hk : k.Follows b) (hd : w.Driven k) {tile : Tile}
    (hwait : ∀ polls, 0 < polls → polls ≤ L → engine.wait.givesUp polls (engine.clock tile.index polls) = false)
    (h : w.Healthy L n) {polls : Nat} (hp : w.phase = .polling polls) : w.Served engine tile L n := by
  obtain ⟨hlatency, hstuck, hstate, hin⟩ := h
  simp only [hp] at hstate hin
  obtain ⟨hrunning, hcount, hpolls⟩ := hin
  have hmap : w.device.target.map = w.device.map := hd.map_target.trans hd.1.symm
  have hverdict := b.verdict_status
  rw [← hk.map_eq, ← hd.1] at hverdict
  by_cases hbusy : 0 < w.device.target.busyLeft
  · have hstatus : w.device.target.status =
        (w.device.map.busyMask, { w.device.target with busyLeft := w.device.target.busyLeft - 1 }) := by
      simp [Accelerator.status_started hrunning hstuck, hbusy, hmap]
    refine .goOn { w with device.target := { w.device.target with busyLeft := w.device.target.busyLeft - 1 } }
      (.polling (polls + 1)) ?_ ?_ ?_
    · simp [compute, hp, read_status hd, hstatus, Device.observe, hverdict.2, hwait (polls + 1) (by omega) (by omega)]
    · exact ⟨hlatency, hstuck, hstate, hrunning, hcount, by simp only; omega⟩
    · rw [hp]
      simp only [EnginePhase.left]
      omega
  · have hstatus : w.device.target.status =
        (0, { w.device.target with running := w.device.map.clear.isSome }) := by
      simp [Accelerator.status_started hrunning hstuck, hbusy, hmap]
    refine .goOn { w with device := { w.device with
      state := .done, launches := w.device.launches + 1
      target := { w.device.target with running := w.device.map.clear.isSome } } } (.clearing (polls + 1)) ?_ ?_ ?_
    · simp [compute, hp, read_status hd, hstatus, Device.observe, hverdict.1]
    · exact ⟨hlatency, hstuck, rfl, rfl, congrArg (· + 1) hcount, by omega⟩
    · rw [hp]
      simp only [EnginePhase.left]
      omega

theorem served_clearing (hd : w.Driven k) {tile : Tile} (h : w.Healthy L n) {polls : Nat}
    (hp : w.phase = .clearing polls) : w.Served engine tile L n := by
  obtain ⟨hlatency, hstuck, -, hin⟩ := h
  simp only [hp] at hin
  obtain ⟨hrunning, hcount, rfl⟩ := hin
  have hmap : w.device.target.map = w.device.map := hd.map_target.trans hd.1.symm
  cases hclear : w.device.map.clear with
  | none =>
    rw [hclear] at hrunning
    refine Or.inr ⟨{ w with phase := .idle, device.state := .idle }, ?_, rfl, hlatency, hstuck, rfl, hrunning, hcount⟩
    simp only [compute, hp, hclear, completed]
  | some r =>
    have hwrite := Accelerator.write_clear (v := 0) w.memory (hmap ▸ hclear)
    refine Or.inr ⟨{ w with
      phase := .idle
      device := { w.device with state := .idle, target := { w.device.target with running := false } } }, ?_, rfl,
      hlatency, hstuck, rfl, rfl, hcount⟩
    simp only [compute, hp, hclear, hwrite, completed]

/-- Any part of the work for a tile succeeds on a healthy device. -/
theorem served (hk : k.Follows b) (hs : p.Sited bytes) (hf : d.Fits p) (ht : t < p.tiles) (hkernel : engine.kernel = k)
    (hdescribe : k.describe (p.slotTile t) = b.kernel.describe (p.slotTile t)) (hwide : p.tileLength < addressLimit)
    (haligned : ∀ l, 4 ∣ (p.slotWord t l).toNat)
    (hwait : ∀ polls, 0 < polls → polls ≤ L → engine.wait.givesUp polls (engine.clock t polls) = false)
    (hm : w.memory.Snax bytes) (hd : w.Driven k) (hen : w.Engaged p d k b t) (h : w.Healthy L n) :
    w.Served engine (p.slotTile t) L n := by
  rcases h.opening with ⟨polls, hp⟩ | ⟨polls, hp⟩ | ⟨hopening, hcount⟩
  · exact served_polling hk hd hwait h hp
  · exact served_clearing hd h hp
  · obtain ⟨w', hgoes, hopened⟩ := opened hk hs hf ht hkernel hdescribe hwide haligned hm hd hen hopening
    exact Or.inl ⟨w', hgoes, hopened.healthy h hcount, hopened.less L⟩

end World

end TileOffload
