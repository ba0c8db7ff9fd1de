import Mathlib.Data.List.Basic
import Mathlib.Data.List.Perm.Subperm
import TileOffload.Proofs.InStep
import TileOffload.Script

/-! # What a start writes

A device takes a descriptor that begins at its own start register, and asks nothing else of the device that it was
built for; to start, it writes its own start value. Main statement: what the bus sees of a start, for a descriptor
built for any device, and for which two devices that is always the descriptor's own writes. -/

namespace TileOffload

variable {σ : Type} {bus : Bus σ} {P : σ → Prop}

/-- The bus accepts every write, as long as it is in states that its writes do not leave. -/
def Bus.Accepting (bus : Bus σ) (P : σ → Prop) : Prop :=
  ∀ r v s, P s → (bus.write r v s).1 = .ok () ∧ P (bus.write r v s).2

theorem Bus.Accepting.write (h : bus.Accepting P) (r v : Word) {s : σ} (hs : P s) :
    ∃ s', P s' ∧ ∀ log, bus.noting.write r v (s, log) = (.ok (), (s', .write r v (.ok ()) :: log)) := by
  obtain ⟨hok, hs'⟩ := h r v s hs
  exact ⟨_, hs', fun log => by rw [Bus.noting_write, hok]⟩

theorem Bus.Accepting.writeAll (h : bus.Accepting P) (ws : List RegisterWrite) {s : σ} (hs : P s) :
    ∃ s', P s' ∧ ∀ log, Device.writeAll bus.noting ws (s, log) =
      (.ok (), (s', (ws.map DevicePart.accepted).reverse ++ log)) := by
  induction ws generalizing s with
  | nil => exact ⟨s, hs, fun log => rfl⟩
  | cons w ws ih =>
    obtain ⟨s₁, hs₁, hwrite⟩ := h.write w.register w.value hs
    obtain ⟨s₂, hs₂, hrest⟩ := ih hs₁
    refine ⟨s₂, hs₂, fun log => ?_⟩
    simp only [Device.writeAll, hwrite, hrest, List.map_cons, List.reverse_cons, List.append_assoc]
    rfl

theorem Script.bus_accepting : Script.bus.Accepting (·.refuses = []) := fun r v s hs => by
  have hcontains : s.refuses.contains r = false := by rw [hs]; rfl
  simp only [Script.bus, hcontains]
  exact ⟨rfl, hs⟩

namespace RegisterMap

/-- A descriptor for the first device never touches the status or the clear register of the second, and starts it with
    the second device's own value. -/
structure Suits (map device : RegisterMap) : Prop where
  startValue : map.startValue = device.startValue
  controls : ∀ r, device.isControl r → map.isControl r

theorem suits_self (map : RegisterMap) : map.Suits map := ⟨rfl, fun _ => id⟩

theorem isControl_iff {map : RegisterMap} {r : Word} :
    map.isControl r ↔ r = map.start ∨ r = map.status ∨ map.clear = some r := by
  simp only [isControl, Bool.or_eq_true, beq_iff_eq, or_assoc]

theorem exists_plain (map : RegisterMap) : ∃ r, map.isControl r = false := by
  -- Of any four registers one is plain, for there are three control registers at most.
  obtain ⟨r, hr, hnot⟩ : ∃ r ∈ ([0, 1, 2, 3] : List Word), r ∉ map.start :: map.status :: map.clear.toList := by
    refine Classical.byContradiction fun hall => ?_
    have hsub : ([0, 1, 2, 3] : List Word) ⊆ map.start :: map.status :: map.clear.toList := fun r hr =>
      Classical.byContradiction fun hnot => hall ⟨r, hr, hnot⟩
    have hlength := (List.subperm_of_subset (by decide) hsub).length_le
    cases hclear : map.clear <;> simp [hclear] at hlength
  refine ⟨r, Bool.eq_false_iff.mpr fun hcontrol => hnot ?_⟩
  rcases isControl_iff.mp hcontrol with rfl | rfl | hclear
  · exact List.mem_cons_self
  · exact List.mem_cons_of_mem _ List.mem_cons_self
  · rw [hclear]
    exact List.mem_cons_of_mem _ (List.mem_cons_of_mem _ List.mem_cons_self)

end RegisterMap

namespace Descriptor

theorem build_single {map : RegisterMap} {r : Word} (h : map.isControl r = false) (v : Word) :
    build map [⟨r, v⟩] = .ok ⟨[⟨r, v⟩], ⟨map.start, map.startValue⟩⟩ := by
  simp only [build, firstFault, h]
  rfl

end Descriptor

namespace Device

variable {d : Device σ} {map : RegisterMap} {config : List RegisterWrite} {desc : Descriptor}

/-- The writes that a start of the device makes: the configuration, and its own start. -/
def startWrites (d : Device σ) (desc : Descriptor) : List RegisterWrite :=
  desc.config ++ [⟨d.map.start, d.map.startValue⟩]

/-- When the device starts, its bus has seen exactly the descriptor's writes, and only the last of them was to a
    control register. -/
def StartsExactly (bus : Bus σ) (desc : Descriptor) (d : Device σ) : Prop :=
  ∀ log d', (d.noted log).start bus.noting desc = (.ok (), d') →
    d'.target.2 = (desc.writes.map DevicePart.accepted).reverse ++ log ∧
    ∀ w ∈ desc.config, d.map.isControl w.register = false

theorem start_mismatched (bus : Bus σ) (hidle : d.state = .idle) (h : desc.start.register ≠ d.map.start)
    (log : List Access) :
    (d.noted log).start bus.noting desc =
      (.error (.invalidDescriptor (.startMismatch desc.start.register d.map.name d.map.start)), d.noted log) := by
  have hcheck : (d.noted log).checkDescriptor desc =
      .error (.invalidDescriptor (.startMismatch desc.start.register d.map.name d.map.start)) := by
    exact bind_eq_error.mpr (Or.inr ⟨(), if_pos hidle, if_pos h⟩)
  simp only [Device.start, Device.configure, hcheck]

theorem start_accepted (haccepts : bus.Accepting P) (hs : P d.target) (hidle : d.state = .idle)
    (h : desc.start.register = d.map.start) :
    ∃ s, P s ∧ ∀ log, (d.noted log).start bus.noting desc = (.ok (), { d with state := .running, target := s }.noted
      (((d.startWrites desc).map DevicePart.accepted).reverse ++ log)) := by
  obtain ⟨s₁, hs₁, hconfig⟩ := haccepts.writeAll desc.config hs
  obtain ⟨s₂, hs₂, hstart⟩ := haccepts.write d.map.start d.map.startValue hs₁
  refine ⟨s₂, hs₂, fun log => ?_⟩
  have hcheck : (d.noted log).checkDescriptor desc = .ok () :=
    bind_eq_ok.mpr ⟨(), if_pos hidle, if_neg fun hne => hne h⟩
  have hconfigure : (d.noted log).configure bus.noting desc = (.ok (),
      { d with state := .configured, target := s₁ }.noted ((desc.config.map DevicePart.accepted).reverse ++ log)) := by
    simp only [Device.configure, hcheck]
    simp only [Device.noted, hconfig]
  have hseen : ((d.startWrites desc).map DevicePart.accepted).reverse ++ log =
      .write d.map.start d.map.startValue (.ok ()) :: ((desc.config.map DevicePart.accepted).reverse ++ log) := by
    rw [startWrites, List.map_append, List.reverse_append, List.append_assoc]
    rfl
  simp only [Device.start, hconfigure, hseen]
  simp only [Device.launch, Device.expect, Device.noted, if_true, hstart]

theorem accepted_injective : Function.Injective DevicePart.accepted := fun v w h => by
  cases v
  cases w
  cases h
  rfl

/-- A descriptor that the device takes is written as it stands when its start value is the device's and its
    configuration keeps off the device's own control registers. -/
theorem startsExactly_iff (haccepts : bus.Accepting P) (hs : P d.target) (hidle : d.state = .idle)
    (hdesc : Descriptor.build map config = .ok desc) :
    d.StartsExactly bus desc ↔ (map.start = d.map.start →
      map.startValue = d.map.startValue ∧ ∀ w ∈ config, d.map.isControl w.register = false) := by
  obtain ⟨hconfig, hstart, -⟩ := Descriptor.build_eq_ok hdesc
  have hregister : desc.start.register = map.start := congrArg RegisterWrite.register hstart
  constructor
  · intro h heq
    obtain ⟨s, -, hrun⟩ := start_accepted haccepts hs hidle (hregister.trans heq)
    obtain ⟨hseen, hplain⟩ := h [] _ (hrun [])
    have hwrites : d.startWrites desc = desc.writes := by
      simp only [noted, List.append_nil] at hseen
      exact List.map_injective_iff.mpr accepted_injective (List.reverse_injective hseen)
    have hlast : [⟨d.map.start, d.map.startValue⟩] = [desc.start] := List.append_cancel_left hwrites
    refine ⟨?_, hconfig ▸ hplain⟩
    rw [hstart] at hlast
    exact (congrArg RegisterWrite.value (List.singleton_inj.mp hlast)).symm
  · intro h log d' hok
    have heq : map.start = d.map.start := Classical.byContradiction fun hne => by
      rw [start_mismatched bus hidle (hregister ▸ hne)] at hok
      cases hok
    obtain ⟨hvalue, hplain⟩ := h heq
    obtain ⟨s, -, hrun⟩ := start_accepted haccepts hs hidle (hregister.trans heq)
    obtain rfl := (Prod.mk.inj ((hrun log).symm.trans hok)).2
    refine ⟨?_, hconfig ▸ hplain⟩
    rw [noted, startWrites, Descriptor.writes, hstart, heq, hvalue]

/-- What the bus sees of the start of a descriptor that was built for any device. When the start registers differ the
    start is refused and the bus sees nothing. Otherwise it sees the configuration, which is nowhere to the start
    register, and then the device's own start. That is the descriptor as it stands exactly when it has the device's
    start value and keeps off its status and clear registers, and it is for every configuration exactly when the two
    devices have their start value in common, and the second no control register of its own. -/
theorem start_writes_config_and_own_start (haccepts : bus.Accepting P) (hs : P d.target) (hidle : d.state = .idle)
    (map : RegisterMap) :
    (∀ config desc, Descriptor.build map config = .ok desc →
      ((map.start ≠ d.map.start ∧ ∀ log, (d.noted log).start bus.noting desc =
          (.error (.invalidDescriptor (.startMismatch map.start d.map.name d.map.start)), d.noted log)) ∨
        map.start = d.map.start ∧ (∀ w ∈ config, w.register ≠ d.map.start) ∧
          ∃ s, ∀ log, (d.noted log).start bus.noting desc = (.ok (), { d with state := .running, target := s }.noted
            (((d.startWrites desc).map DevicePart.accepted).reverse ++ log))) ∧
      (d.StartsExactly bus desc ↔ (map.start = d.map.start →
        map.startValue = d.map.startValue ∧ ∀ w ∈ config, d.map.isControl w.register = false))) ∧
    ((∀ config desc, Descriptor.build map config = .ok desc → d.StartsExactly bus desc) ↔
      (map.start = d.map.start → map.Suits d.map)) := by
  constructor
  · intro config desc hdesc
    refine ⟨?_, startsExactly_iff haccepts hs hidle hdesc⟩
    obtain ⟨rfl, hstart, hplain, -⟩ := Descriptor.build_eq_ok hdesc
    have hregister : desc.start.register = map.start := congrArg RegisterWrite.register hstart
    rcases eq_or_ne map.start d.map.start with heq | hne
    · obtain ⟨s, -, hrun⟩ := start_accepted haccepts hs hidle (hregister.trans heq)
      refine Or.inr ⟨heq, fun w hw hwstart => ?_, s, hrun⟩
      have hcontrol := RegisterMap.isControl_iff.mpr (Or.inl (hwstart.trans heq.symm))
      rw [hplain w hw] at hcontrol
      cases hcontrol
    · refine Or.inl ⟨hne, fun log => ?_⟩
      rw [start_mismatched bus hidle (hregister ▸ hne), hregister]
  · constructor
    · -- A single write to any register that the first device leaves free makes a descriptor.
      intro h heq
      have hbuilt : ∀ {r : Word}, map.isControl r = false →
          map.startValue = d.map.startValue ∧ ∀ w ∈ [RegisterWrite.mk r 0], d.map.isControl w.register = false :=
        fun hr => (startsExactly_iff haccepts hs hidle (Descriptor.build_single hr 0)).mp
          (h _ _ (Descriptor.build_single hr 0)) heq
      obtain ⟨r, hr⟩ := map.exists_plain
      refine ⟨(hbuilt hr).1, fun r hcontrol => Classical.byContradiction fun hplain => ?_⟩
      have hnot := (hbuilt (Bool.eq_false_iff.mpr hplain)).2 _ (List.mem_singleton.mpr rfl)
      rw [hnot] at hcontrol
      cases hcontrol
    · intro h config desc hdesc
      obtain ⟨-, -, hplain, -⟩ := Descriptor.build_eq_ok hdesc
      refine (startsExactly_iff haccepts hs hidle hdesc).mpr fun heq => ⟨(h heq).startValue, fun w hw => ?_⟩
      refine Bool.eq_false_iff.mpr fun hcontrol => ?_
      have hcontrol := (h heq).controls w.register hcontrol
      rw [hplain w hw] at hcontrol
      cases hcontrol

/-- A device with the start register of the multiply-accumulate unit, another start value, and its status elsewhere. -/
def twin : RegisterMap where
  name := "twin"
  start := Chip.Mac.start
  startValue := 7
  status := 0x3C4
  busyMask := 1
  errorMask := 0
  clear := none

/-- The multiply-accumulate unit starts exactly whatever is built for it, with its own start last, but not all that is
    built for the twin. -/
theorem own_descriptors_start_exactly :
    (∀ config desc, Descriptor.build .mac config = .ok desc →
      (attach .mac (⟨[], 0, []⟩ : Script.BusScript)).StartsExactly Script.bus desc ∧
      ∃ s, (attach .mac (⟨[], 0, []⟩, [])).start Script.bus.noting desc = (.ok (),
        ⟨.mac, .running, 0, (s, ((config ++ [RegisterWrite.mk Chip.Mac.start 0]).map DevicePart.accepted).reverse)⟩)) ∧
    ¬∀ config desc, Descriptor.build twin config = .ok desc →
      (attach .mac (⟨[], 0, []⟩ : Script.BusScript)).StartsExactly Script.bus desc := by
  have hmaps := start_writes_config_and_own_start (d := attach .mac ⟨[], 0, []⟩) Script.bus_accepting rfl rfl
  constructor
  · intro config desc hdesc
    obtain ⟨hruns, hexact⟩ := hmaps .mac
    refine ⟨hexact.mpr (fun _ => RegisterMap.suits_self _) config desc hdesc, ?_⟩
    rcases (hruns config desc hdesc).1 with ⟨hne, -⟩ | ⟨-, -, s, hrun⟩
    · exact absurd rfl hne
    · have hrun := hrun []
      rw [startWrites, (Descriptor.build_eq_ok hdesc).1, List.append_nil] at hrun
      exact ⟨s, hrun⟩
  · intro h
    have hvalue := (((hmaps twin).2.mp h) rfl).startValue
    cases hvalue

/-- Two descriptors for the twin with which the multiply-accumulate unit starts all the same. The first is not written
    as it stands, for its start value is replaced; the second acknowledges a launch that was not made. -/
theorem twin_descriptors_not_exact :
    (∃ desc d', Descriptor.build twin [⟨Chip.Mac.pointerA, 5⟩] = .ok desc ∧
      ((attach .mac (⟨[], 0, []⟩ : Script.BusScript)).noted []).start Script.bus.noting desc = (.ok (), d') ∧
      d'.target.2.reverse = [.write Chip.Mac.pointerA 5 (.ok ()), .write Chip.Mac.start 0 (.ok ())] ∧
      desc.writes.map DevicePart.accepted =
        [.write Chip.Mac.pointerA 5 (.ok ()), .write Chip.Mac.start 7 (.ok ())] ∧
      ¬(attach .mac (⟨[], 0, []⟩ : Script.BusScript)).StartsExactly Script.bus desc) ∧
    ∃ desc d', Descriptor.build twin [⟨Chip.Mac.clear, 0⟩] = .ok desc ∧
      ((attach .mac (⟨[], 0, []⟩ : Script.BusScript)).noted []).start Script.bus.noting desc = (.ok (), d') ∧
      d'.target.2.reverse = [.write Chip.Mac.clear 0 (.ok ()), .write Chip.Mac.start 0 (.ok ())] ∧
      RegisterMap.mac.clear = some Chip.Mac.clear ∧
      ¬(attach .mac (⟨[], 0, []⟩ : Script.BusScript)).StartsExactly Script.bus desc := by
  constructor
  · refine ⟨_, _, rfl, rfl, rfl, rfl, fun h => ?_⟩
    have hseen := (h [] _ rfl).1
    cases hseen
  · refine ⟨_, _, rfl, rfl, rfl, rfl, fun h => ?_⟩
    have hplain := (h [] _ rfl).2 ⟨Chip.Mac.clear, 0⟩ (List.mem_singleton.mpr rfl)
    cases hplain

end Device

end TileOffload
