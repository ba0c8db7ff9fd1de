import TileOffload.Proofs.Doomed

/-! # The verdict on a tile

How the work for a tile ends does not depend on what is in memory: the launch is refused for an operand outside the
TCDM, or for one that does not begin at a word, or the wait is given up while the device is busy, or the tile is
served. Main statement: each part of the work goes on or ends with that verdict. -/

namespace TileOffload

/-- The first operand that is not inside the TCDM. -/
def Tile.outside? (t : Tile) : Option Word :=
  [t.a, t.b, t.o].find? fun addr => !Chip.inTcdm addr (t.elements * Chip.elementBytes)

/-- The first operand that does not begin at a word. -/
def Tile.unaligned? (t : Tile) : Option Word :=
  [t.a, t.b, t.o].find? fun addr => !decide (4 ∣ addr.toNat)

/-- How the work for a tile ends on a device that is busy for `L` polls after each start, or is stuck. -/
inductive Verdict (engine : Engine) (L : Nat) (stuck : Bool) (tile : Tile) : Outcome Nat → Prop
  | outside {addr : Word} (outside : tile.outside? = some addr) :
    Verdict engine L stuck tile (.failed (.deviceFault
      (.operandOutside engine.kernel.map.name addr (tile.elements * Chip.elementBytes))))
  | unaligned {addr : Word} (inside : tile.outside? = none) (unaligned : tile.unaligned? = some addr) :
    Verdict engine L stuck tile (.failed (.misaligned "word access" addr.toNat Bytes.perWord))
  | late {n : Nat} (inside : tile.outside? = none) (aligned : tile.unaligned? = none)
      (patient : ∀ m, 0 < m → m < n → engine.wait.givesUp m (engine.clock tile.index m) = false) (polled : 0 < n)
      (gaveUp : engine.wait.givesUp n (engine.clock tile.index n) = true) (busy : stuck = true ∨ n ≤ L) :
    Verdict engine L stuck tile (.failed (.timeout n (engine.clock tile.index n)))
  | served (inside : tile.outside? = none) (aligned : tile.unaligned? = none) (free : stuck = false)
      (patient : ∀ m, 0 < m → m ≤ L → engine.wait.givesUp m (engine.clock tile.index m) = false) :
    Verdict engine L stuck tile (.done (L + 1))

variable {engine : Engine} {L : Nat} {stuck : Bool} {tile : Tile}

theorem Verdict.unique {o o' : Outcome Nat} (h : Verdict engine L stuck tile o) (h' : Verdict engine L stuck tile o') :
    o = o' := by
  have hserved : ∀ {n : Nat}, 0 < n → engine.wait.givesUp n (engine.clock tile.index n) = true →
      (stuck = true ∨ n ≤ L) → stuck = false →
      (∀ m, 0 < m → m ≤ L → engine.wait.givesUp m (engine.clock tile.index m) = false) → False := by
    intro n hpos hgave hbusy hfree hpatient
    rcases hbusy with hstuck | hle
    · rw [hfree] at hstuck
      cases hstuck
    · rw [hpatient n hpos hle] at hgave
      cases hgave
  cases h with
  | outside houtside =>
    cases h' with
    | outside houtside' =>
      rw [houtside] at houtside'
      cases houtside'
      rfl
    | unaligned inside | late inside | served inside => rw [houtside] at inside; cases inside
  | unaligned inside hunaligned =>
    cases h' with
    | outside houtside' => rw [inside] at houtside'; cases houtside'
    | unaligned _ hunaligned' =>
      rw [hunaligned] at hunaligned'
      cases hunaligned'
      rfl
    | late _ aligned | served _ aligned => rw [hunaligned] at aligned; cases aligned
  | @late n inside aligned patient polled gaveUp busy =>
    cases h' with
    | outside houtside' => rw [inside] at houtside'; cases houtside'
    | unaligned _ hunaligned' => rw [aligned] at hunaligned'; cases hunaligned'
    | served _ _ free patient' => exact (hserved polled gaveUp busy free patient').elim
    | @late n' _ _ patient' polled' gaveUp' _ =>
      -- Both are the first poll after which the wait is given up.
      rcases Nat.lt_trichotomy n n' with hlt | rfl | hlt
      · rw [patient' n polled hlt] at gaveUp
        cases gaveUp
      · rfl
      · rw [patient n' polled' hlt] at gaveUp'
        cases gaveUp'
  | served inside aligned free patient =>
    cases h' with
    | outside houtside' => rw [inside] at houtside'; cases houtside'
    | unaligned _ hunaligned' => rw [aligned] at hunaligned'; cases hunaligned'
    | late _ _ _ polled gaveUp busy => exact (hserved polled gaveUp busy free patient).elim
    | served => rfl

namespace Tile

theorem maps_of_outside? {m : Memory} {bytes : Nat} (hm : m.Snax bytes) (h : tile.outside? = none) (addr : Word)
    (haddr : addr ∈ [tile.a, tile.b, tile.o]) : m.maps addr (tile.elements * Bytes.perWord) = true := by
  have hin := List.find?_eq_none.mp h addr haddr
  have hin : Chip.inTcdm addr (tile.elements * Chip.elementBytes) = true := by simpa using hin
  exact hm.maps_tcdm (Chip.inTcdm_iff.mp hin)

end Tile

namespace Memory

variable {m : Memory} {bytes n : Nat} {addr : Word}

theorem readWords_cases (hin : m.maps addr (n * Bytes.perWord) = true) :
    (4 ∣ addr.toNat ∧ ∃ ws, m.readWords addr n = .ok ws ∧ ws.length = n) ∨
      ¬4 ∣ addr.toNat ∧ m.readWords addr n = .error (.misaligned "word access" addr.toNat Bytes.perWord) := by
  cases h : m.readWords addr n with
  | ok ws =>
    obtain ⟨bank, hbank, hws⟩ := bind_eq_ok.mp h
    cases hws
    exact Or.inl ⟨(locateWords_eq_ok.mp hbank).1, _, rfl, by simp [Bytes.wordsAt]⟩
  | error e =>
    rcases locateWords_eq_error (readWords_eq_error.mp h) with ⟨haligned, rfl⟩ | ⟨-, hout, -⟩
    · exact Or.inr ⟨haligned, rfl⟩
    · rw [hin] at hout
      cases hout

theorem writeWords_cases (hm : m.Snax bytes) {ws : List Word}
    (hin : m.maps addr (ws.length * Bytes.perWord) = true) :
    (4 ∣ addr.toNat ∧ ∃ m', m.writeWords addr ws = .ok m' ∧ m'.Snax bytes) ∨
      ¬4 ∣ addr.toNat ∧ m.writeWords addr ws = .error (.misaligned "word access" addr.toNat Bytes.perWord) := by
  cases h : m.writeWords addr ws with
  | ok m' =>
    obtain ⟨bank, hbank, -⟩ := bind_eq_ok.mp h
    exact Or.inl ⟨(locateWords_eq_ok.mp hbank).1, m', rfl, (wrote_writeWords hm.2 h).1.snax hm⟩
  | error e =>
    rcases locateWords_eq_error (writeWords_eq_error.mp h) with ⟨haligned, rfl⟩ | ⟨-, hout, -⟩
    · exact Or.inr ⟨haligned, rfl⟩
    · rw [hin] at hout
      cases hout

end Memory

namespace Accelerator

theorem checkOperands_inside {a : Accelerator} {b : Kernel.BuiltIn} (h : tile.outside? = none) :
    a.checkOperands (passOf b tile) = .ok () := by
  rw [Tile.outside?] at h
  simp only [checkOperands, passOf, h]

theorem checkOperands_outside {a : Accelerator} {b : Kernel.BuiltIn} {addr : Word} (h : tile.outside? = some addr) :
    a.checkOperands (passOf b tile) =
      .error (.deviceFault (.operandOutside a.map.name addr (tile.elements * Chip.elementBytes))) := by
  rw [Tile.outside?] at h
  simp only [checkOperands, passOf, h]

/-- A start with the transaction of a tile in the registers is refused for an operand outside the TCDM only. -/
theorem begin_cases {a : Accelerator} {b : Kernel.BuiltIn} {desc : Descriptor}
    (hp : Personality.ofMap? b.kernel.map = some a.personality) (hdesc : b.kernel.describe tile = .done desc)
    (hr : ∀ w ∈ desc.config, a.register w.register = w.value) (hrunning : a.running = false) :
    (tile.outside? = none ∧ a.begin = .ok (passOf b tile)) ∨
      ∃ addr, tile.outside? = some addr ∧ a.begin =
        .error (.deviceFault (.operandOutside b.kernel.map.name addr (tile.elements * Chip.elementBytes))) := by
  have hpass := configuredPass_of_describe hp hdesc hr
  have hname : a.map.name = b.kernel.map.name := congrArg _ (ofMap?_eq_some hp)
  cases houtside : tile.outside? with
  | none =>
    have hcheck : a.checkOperands (passOf b tile) = .ok () := checkOperands_inside houtside
    refine Or.inl ⟨rfl, ?_⟩
    simp only [begin, unless_eq_ok, bind_eq_ok, pure_eq_ok]
    exact ⟨by simp [hrunning], _, hpass, (), hcheck, rfl⟩
  | some addr =>
    have hcheck := checkOperands_outside (a := a) (b := b) houtside
    rw [hname] at hcheck
    refine Or.inr ⟨addr, rfl, ?_⟩
    simp only [begin, unless_eq_error, bind_eq_error]
    exact Or.inr ⟨by simp [hrunning], Or.inr ⟨_, hpass, Or.inl hcheck⟩⟩

end Accelerator

namespace World

/-- How far the work for a tile has come, whatever is in memory. -/
structure Underway (b : Kernel.BuiltIn) (engine : Engine) (L : Nat) (stuck : Bool) (tile : Tile) (w : World) : Prop where
  driven : w.Driven b.kernel
  latency : w.device.target.latency = L
  sticks : w.device.target.stuck = stuck
  state : w.device.state = w.phase.deviceState
  inPhase : match w.phase with
    | .idle => w.device.target.running = false
    | .configuring rest => w.device.target.running = false ∧
      ∃ desc written, b.kernel.describe tile = .done desc ∧ desc.config = written ++ rest ∧
        ∀ r ∈ written, w.device.target.register r.register = r.value
    | .launching => w.device.target.running = false ∧
      ∃ desc, b.kernel.describe tile = .done desc ∧ ∀ r ∈ desc.config, w.device.target.register r.register = r.value
    | .fetchingA pass => w.device.target.running = false ∧ pass = Accelerator.passOf b tile ∧ tile.outside? = none
    | .fetchingB pass xs => w.device.target.running = false ∧ pass = Accelerator.passOf b tile ∧ tile.outside? = none ∧
      4 ∣ tile.a.toNat ∧ xs.length = tile.elements
    | .storing pass results => w.device.target.running = false ∧ pass = Accelerator.passOf b tile ∧
      tile.outside? = none ∧ (4 ∣ tile.a.toNat ∧ 4 ∣ tile.b.toNat) ∧ results.length = tile.elements
    | .polling n => w.device.target.running = true ∧ tile.outside? = none ∧ tile.unaligned? = none ∧
      (∀ m, 0 < m → m ≤ n → engine.wait.givesUp m (engine.clock tile.index m) = false) ∧
      (stuck = true ∨ n + w.device.target.busyLeft = L)
    | .clearing n => w.device.target.running = w.device.map.clear.isSome ∧ Verdict engine L stuck tile (.done n)

variable {b : Kernel.BuiltIn} {w w' : World}

/-- The work for a tile has nothing to do with the transfers of the data mover. -/
theorem Underway.congr (h : w.Underway b engine L stuck tile) (hphase : w'.phase = w.phase)
    (hdevice : w'.device = w.device) : w'.Underway b engine L stuck tile := by
  obtain ⟨hdriven, hlatency, hstuck, hstate, hin⟩ := h
  refine ⟨?_, ?_, ?_, ?_, ?_⟩
  · rw [Driven, hdevice]
    exact hdriven
  · rw [hdevice]
    exact hlatency
  · rw [hdevice]
    exact hstuck
  · rw [hdevice, hphase]
    exact hstate
  · rw [hdevice, hphase]
    exact hin

/-- What comes of a part of the work for a tile: it goes on, or it ends with the verdict on the tile. -/
inductive Advanced (b : Kernel.BuiltIn) (engine : Engine) (L : Nat) (stuck : Bool) (bytes : Nat) (tile : Tile) :
    Option (Outcome Nat) × World → Prop
  | goesOn {w' : World} (memory : w'.memory.Snax bytes) (underway : w'.Underway b engine L stuck tile) :
    Advanced b engine L stuck bytes tile (none, w')
  | failed {w' : World} {e : Error} (memory : w'.memory.Snax bytes) (verdict : Verdict engine L stuck tile (.failed e)) :
    Advanced b engine L stuck bytes tile (some (.failed e), w')
  | done {w' : World} {n : Nat} (memory : w'.memory.Snax bytes) (verdict : Verdict engine L stuck tile (.done n))
      (idle : w'.phase = .idle) (underway : w'.Underway b engine L stuck tile) :
    Advanced b engine L stuck bytes tile (some (.done n), w')

variable {bytes : Nat}

theorem advanced_idle (hkernel : engine.kernel = b.kernel) (hwide : tile.elements < addressLimit)
    (hm : w.memory.Snax bytes) (h : w.Underway b engine L stuck tile) (hp : w.phase = .idle) :
    Advanced b engine L stuck bytes tile (w.compute engine tile) := by
  obtain ⟨hdriven, hlatency, hsticks, hstate, hin⟩ := h
  simp only [hp, EnginePhase.deviceState] at hstate hin
  obtain ⟨desc, hdesc, -⟩ := b.exists_describe tile hwide
  have hcheck := Device.checkDescriptor_ok hdriven.1 hdesc hstate
  simp only [compute, hp, hkernel, hdesc, hcheck, goOn]
  exact .goesOn hm ⟨hdriven, hlatency, hsticks, hstate, hin, desc, [], hdesc, rfl, by simp⟩

theorem advanced_configuring (hm : w.memory.Snax bytes) (h : w.Underway b engine L stuck tile)
    {rest : List RegisterWrite} (hp : w.phase = .configuring rest) :
    Advanced b engine L stuck bytes tile (w.compute engine tile) := by
  obtain ⟨hdriven, hlatency, hsticks, hstate, hin⟩ := h
  simp only [hp, EnginePhase.deviceState] at hstate hin
  obtain ⟨hrunning, desc, written, hdesc, hconfig, hregs⟩ := hin
  cases rest with
  | nil =>
    rw [List.append_nil] at hconfig
    simp only [compute, hp, configured, goOn]
    exact .goesOn hm ⟨hdriven, hlatency, hsticks, rfl, hrunning, desc, hdesc, hconfig ▸ hregs⟩
  | cons r rest =>
    obtain ⟨hcontrol, hdistinct⟩ := config_of_describe b.follows hdesc
    have hr : r ∈ desc.config := hconfig ▸ List.mem_append_right _ List.mem_cons_self
    simp only [compute, hp, Accelerator.write_config w.memory (hdriven.map_target ▸ hcontrol r hr), goOn]
    refine .goesOn hm ⟨hdriven.of_eq rfl rfl, hlatency, hsticks, hstate, hrunning, desc, written ++ [r], hdesc, ?_,
      Accelerator.register_written (hconfig ▸ hdistinct) hregs⟩
    rw [hconfig, List.append_assoc]
    rfl

/-- Up to the write of the results the work ends for an operand outside the TCDM, or for one that does not begin at a
    word. -/
theorem advanced_starting (hkernel : engine.kernel = b.kernel) (hm : w.memory.Snax bytes)
    (h : w.Underway b engine L stuck tile)
    (hp : w.phase = .launching ∨ (∃ pass, w.phase = .fetchingA pass) ∨ (∃ pass xs, w.phase = .fetchingB pass xs) ∨
      ∃ pass results, w.phase = .storing pass results) :
    Advanced b engine L stuck bytes tile (w.compute engine tile) := by
  obtain ⟨hdriven, hlatency, hsticks, hstate, hin⟩ := h
  rcases hp with hp | ⟨pass, hp⟩ | ⟨pass, xs, hp⟩ | ⟨pass, results, hp⟩ <;>
    simp only [hp, EnginePhase.deviceState] at hstate hin
  · obtain ⟨hrunning, desc, hdesc, hregs⟩ := hin
    rcases Accelerator.begin_cases hdriven.2 hdesc hregs hrunning with ⟨hinside, hbegin⟩ | ⟨addr, houtside, hbegin⟩ <;>
      simp only [compute, hp, hbegin]
    · exact .goesOn hm ⟨hdriven, hlatency, hsticks, hstate, hrunning, rfl, hinside⟩
    · rw [← hkernel]
      exact .failed hm (.outside houtside)
  · obtain ⟨hrunning, rfl, hinside⟩ := hin
    have hmapped := Tile.maps_of_outside? hm hinside tile.a (by simp)
    rcases Memory.readWords_cases hmapped with ⟨ha, xs, hread, hlength⟩ | ⟨ha, hread⟩ <;>
      simp only [compute, hp, Accelerator.passOf, hread]
    · exact .goesOn hm ⟨hdriven, hlatency, hsticks, hstate, hrunning, rfl, hinside, ha, hlength⟩
    · exact .failed hm (.unaligned hinside (by simp [Tile.unaligned?, ha]))
  · obtain ⟨hrunning, rfl, hinside, ha, hlength⟩ := hin
    have hmapped := Tile.maps_of_outside? hm hinside tile.b (by simp)
    rcases Memory.readWords_cases hmapped with ⟨hb, ys, hread, hlength'⟩ | ⟨hb, hread⟩ <;>
      simp only [compute, hp, Accelerator.passOf, hread]
    · refine .goesOn hm ⟨hdriven, hlatency, hsticks, hstate, hrunning, rfl, hinside, ⟨ha, hb⟩, ?_⟩
      simp [hlength, hlength']
    · exact .failed hm (.unaligned hinside (by simp [Tile.unaligned?, ha, hb]))
  · obtain ⟨hrunning, rfl, hinside, ⟨ha, hb⟩, hlength⟩ := hin
    have hmapped := Tile.maps_of_outside? hm hinside tile.o (by simp)
    rw [← hlength] at hmapped
    rcases Memory.writeWords_cases hm hmapped with ⟨ho, m', hwrite, hm'⟩ | ⟨ho, hwrite⟩ <;>
      simp only [compute, hp, Accelerator.passOf, hwrite]
    · exact .goesOn hm' ⟨hdriven.of_eq rfl rfl, hlatency, hsticks, rfl, rfl, hinside,
        by simp [Tile.unaligned?, ha, hb, ho], fun m hpos hle => absurd hpos (by omega),
        Or.inr (by simpa [Accelerator.started] using hlatency)⟩
    · exact .failed hm (.unaligned hinside (by simp [Tile.unaligned?, ha, hb, ho]))

theorem advanced_polling (hm : w.memory.Snax bytes) (h : w.Underway b engine L stuck tile) {polls : Nat}
    (hp : w.phase = .polling polls) : Advanced b engine L stuck bytes tile (w.compute engine tile) := by
  obtain ⟨hdriven, hlatency, hsticks, hstate, hin⟩ := h
  simp only [hp, EnginePhase.deviceState] at hstate hin
  obtain ⟨hrunning, hinside, haligned, hpatient, hleft⟩ := hin
  have hmap : w.device.target.map = w.device.map := hdriven.map_target.trans hdriven.1.symm
  have hverdict := b.verdict_status
  rw [← hdriven.1] at hverdict
  by_cases hbusy : w.device.target.stuck = true ∨ 0 < w.device.target.busyLeft
  · obtain ⟨left, hstatus, hless⟩ := Accelerator.status_busy hrunning hbusy
    rw [hmap] at hstatus
    have hlate : stuck = true ∨ polls + 1 ≤ L := by
      rcases hleft with hstuck | hleft
      · exact Or.inl hstuck
      · refine hless.imp hsticks.symm.trans fun hx => ?_
        omega
    cases hover : engine.wait.givesUp (polls + 1) (engine.clock tile.index (polls + 1)) with
    | true =>
      simp only [compute, hp, read_status hdriven, hstatus, Device.observe, hverdict.2, hover, if_true, abandon]
      exact .failed hm (.late hinside haligned (fun m hpos hlt => hpatient m hpos (Nat.le_of_lt_succ hlt))
        (Nat.succ_pos polls) hover hlate)
    | false =>
      simp only [compute, hp, read_status hdriven, hstatus, Device.observe, hverdict.2, hover, goOn]
      refine .goesOn hm ⟨hdriven, hlatency, hsticks, hstate, hrunning, hinside, haligned, fun m hpos hle => ?_, ?_⟩
      · rcases Nat.lt_or_eq_of_le hle with hlt | rfl
        · exact hpatient m hpos (Nat.le_of_lt_succ hlt)
        · exact hover
      · rcases hleft with hstuck | hleft
        · exact Or.inl hstuck
        · refine hless.imp hsticks.symm.trans fun hx => ?_
          simp only
          omega
  · obtain ⟨hfree, hidle⟩ := not_or.mp hbusy
    have hfree : w.device.target.stuck = false := Bool.eq_false_iff.mpr hfree
    have hstatus : w.device.target.status = (0, { w.device.target with running := w.device.map.clear.isSome }) := by
      simp [Accelerator.status_started hrunning hfree, hidle, hmap]
    obtain rfl : stuck = false := hsticks.symm.trans hfree
    obtain rfl : polls = L := by
      have := hleft.resolve_left Bool.false_ne_true
      omega
    simp only [compute, hp, read_status hdriven, hstatus, Device.observe, hverdict.1, goOn]
    exact .goesOn hm ⟨hdriven.of_eq rfl rfl, hlatency, hsticks, rfl, rfl, .served hinside haligned rfl hpatient⟩

theorem advanced_clearing (hm : w.memory.Snax bytes) (h : w.Underway b engine L stuck tile) {polls : Nat}
    (hp : w.phase = .clearing polls) : Advanced b engine L stuck bytes tile (w.compute engine tile) := by
  obtain ⟨hdriven, hlatency, hsticks, -, hin⟩ := h
  simp only [hp] at hin
  obtain ⟨hrunning, hserved⟩ := hin
  have hmap : w.device.target.map = w.device.map := hdriven.map_target.trans hdriven.1.symm
  cases hclear : w.device.map.clear with
  | none =>
    rw [hclear] at hrunning
    simp only [compute, hp, hclear, completed]
    exact .done hm hserved rfl ⟨hdriven, hlatency, hsticks, rfl, hrunning⟩
  | some r =>
    have hwrite := Accelerator.write_clear (v := 0) w.memory (hmap ▸ hclear)
    simp only [compute, hp, hclear, hwrite, completed]
    exact .done hm hserved rfl ⟨hdriven, hlatency, hsticks, rfl, rfl⟩

/-- Any part of the work for a tile goes on, or the work ends with the verdict on the tile. -/
theorem advanced (hkernel : engine.kernel = b.kernel) (hwide : tile.elements < addressLimit) (hm : w.memory.Snax bytes)
    (h : w.Underway b engine L stuck tile) : Advanced b engine L stuck bytes tile (w.compute engine tile) := by
  cases hp : w.phase with
  | idle => exact advanced_idle hkernel hwide hm h hp
  | configuring rest => exact advanced_configuring hm h hp
  | launching => exact advanced_starting hkernel hm h (Or.inl hp)
  | fetchingA pass => exact advanced_starting hkernel hm h (Or.inr (Or.inl ⟨_, hp⟩))
  | fetchingB pass xs => exact advanced_starting hkernel hm h (Or.inr (Or.inr (Or.inl ⟨_, _, hp⟩)))
  | storing pass results => exact advanced_starting hkernel hm h (Or.inr (Or.inr (Or.inr ⟨_, _, hp⟩)))
  | polling polls => exact advanced_polling hm h hp
  | clearing polls => exact advanced_clearing hm h hp

theorem Underway.idle (h : w.Underway b engine L stuck tile) (hp : w.phase = .idle) (tile' : Tile) :
    w.Underway b engine L stuck tile' := by
  obtain ⟨hdriven, hlatency, hsticks, hstate, hin⟩ := h
  refine ⟨hdriven, hlatency, hsticks, hstate, ?_⟩
  rw [hp] at hin ⊢
  exact hin

end World

end TileOffload
