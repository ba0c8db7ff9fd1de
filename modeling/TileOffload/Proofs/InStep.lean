import TileOffload.Proofs.Traffic
import TileOffload.Proofs.TileRun

/-! # Device and accelerator in step

A device knows whether it runs and how many launches were seen complete; the accelerator behind its bus has a flag and
a count of its own, and each of the two accelerators lowers its flag by a rule of its own. Main statement: whatever is
called, and whatever is refused on the way, the state of the device tells the flag and the count of the accelerator, so
a launch never finds it busy. -/

namespace TileOffload

/-- The error says that a start found the accelerator running. -/
def Error.SaysBusy (e : Error) : Prop := ∃ name, e = .deviceFault (.startWhileBusy name)

theorem Personality.verdict_status (p : Personality) :
    p.map.verdict 0 = .ok .done ∧ p.map.verdict p.map.busyMask = .ok .busy := by
  cases p with
  | mac => exact Kernel.BuiltIn.mac.verdict_status
  | alu => exact (Kernel.BuiltIn.alu .add).verdict_status

namespace Accelerator

variable {a a' : Accelerator} {m m' : Memory} {r v : Word} {e : Error} {p : Personality} {n : Nat}

theorem configuredPass_quiet (h : a.configuredPass = .error e) : ¬e.SaysBusy := by
  rintro ⟨name, rfl⟩
  unfold configuredPass macPass aluPass at h
  grind

theorem checkOperands_quiet {q : Pass} (h : a.checkOperands q = .error e) : ¬e.SaysBusy := by
  rintro ⟨name, rfl⟩
  unfold checkOperands at h
  grind

theorem locateWords_quiet {addr : Word} {count : Nat} (h : m.locateWords addr count = .error e) : ¬e.SaysBusy := by
  rintro ⟨name, rfl⟩
  rcases Memory.locateWords_eq_error h with ⟨-, h⟩ | ⟨-, -, h⟩ <;> cases h

/-- Only a running accelerator refuses a start because it is running. -/
theorem start_quiet (hrunning : a.running = false) (h : a.start m = .error e) : ¬e.SaysBusy := by
  have hwords : ∀ {addr : Word} {count : Nat}, m.readWords addr count = .error e → ¬e.SaysBusy := by
    intro addr count h
    rcases bind_eq_error.mp h with h | ⟨b, -, h⟩
    · exact locateWords_quiet h
    · cases h
  rcases bind_eq_error.mp h with h | ⟨q, -, h⟩
  · rcases unless_eq_error.mp h with ⟨hbusy, -⟩ | ⟨-, h⟩
    · simp [hrunning] at hbusy
    · rcases bind_eq_error.mp h with h | ⟨q, -, h⟩
      · exact configuredPass_quiet h
      · rcases bind_eq_error.mp h with h | ⟨-, -, h⟩
        · exact checkOperands_quiet h
        · cases h
  · rcases bind_eq_error.mp h with h | ⟨xs, -, h⟩
    · exact hwords h
    · rcases bind_eq_error.mp h with h | ⟨ys, -, h⟩
      · exact hwords h
      · rcases bind_eq_error.mp h with h | ⟨m', -, h⟩
        · rcases bind_eq_error.mp h with h | ⟨b, -, h⟩
          · exact locateWords_quiet h
          · cases h
        · cases h

theorem start_eq_ok {s : Accelerator × Memory} (h : a.start m = .ok s) : ∃ len, s.1 = a.started len := by
  simp only [start, bind_eq_ok, pure_eq_ok] at h
  obtain ⟨q, -, -, -, -, -, -, -, rfl⟩ := h
  exact ⟨q.len, rfl⟩

theorem status_running (h : a.running = true) :
    ∃ a', (a.status = (a.map.busyMask, a') ∧ a'.running = true ∨ a.status = (0, a') ∧ a'.running = a.map.clear.isSome) ∧
      a'.personality = a.personality ∧ a'.launches = a.launches := by
  unfold status
  rw [h]
  split
  · contradiction
  · split
    · exact ⟨a, Or.inl ⟨rfl, h⟩, rfl, rfl⟩
    · split
      · exact ⟨_, Or.inl ⟨rfl, rfl⟩, rfl, rfl⟩
      · exact ⟨_, Or.inr ⟨rfl, rfl⟩, rfl, rfl⟩

/-- An accelerator that does not run, after so many starts. -/
structure AtRest (p : Personality) (n : Nat) (a : Accelerator) : Prop where
  personality : a.personality = p
  running : a.running = false
  launches : a.launches = n

theorem AtRest.configure (h : a.AtRest p n) (hconfigure : a.configure r v = .ok a') : a'.AtRest p n := by
  obtain ⟨hp, hrunning, hn⟩ := h
  unfold Accelerator.configure at hconfigure
  split at hconfigure
  · cases hconfigure
    exact ⟨hp, rfl, hn⟩
  · split at hconfigure
    · cases hconfigure
    · cases hconfigure
      exact ⟨hp, hrunning, hn⟩

theorem configure_quiet (h : a.configure r v = .error e) : ¬e.SaysBusy := by
  rintro ⟨name, rfl⟩
  unfold Accelerator.configure at h
  grind

theorem AtRest.write (h : a.AtRest p n) (hr : r ≠ p.map.start) :
    (bus.write r v (a, m)).2.1.AtRest p n ∧ ∀ e, (bus.write r v (a, m)).1 = .error e → ¬e.SaysBusy := by
  have hstart : r ≠ a.map.start := fun heq => hr (heq.trans (congrArg _ (congrArg _ h.personality)))
  simp only [bus, Accelerator.write, if_neg hstart]
  rcases hconfigure : a.configure r v with e | a'
  · exact ⟨h, fun e' he => configure_quiet (hconfigure.trans (congrArg _ (Except.error.inj he)))⟩
  · exact ⟨h.configure hconfigure, fun _ hx => by cases hx⟩

theorem AtRest.writeAll {ws : List RegisterWrite} {s : Accelerator × Memory} (h : s.1.AtRest p n)
    (hws : ∀ w ∈ ws, w.register ≠ p.map.start) :
    (Device.writeAll bus ws s).2.1.AtRest p n ∧ ∀ e, (Device.writeAll bus ws s).1 = .error e → ¬e.SaysBusy := by
  induction ws generalizing s with
  | nil => exact ⟨h, nofun⟩
  | cons w rest ih =>
    obtain ⟨hkept, hquiet⟩ := h.write (v := w.value) (m := s.2) (hws w List.mem_cons_self)
    rw [Device.writeAll]
    rcases hwrite : bus.write w.register w.value s with ⟨e | ⟨⟩, s₁⟩ <;> rw [hwrite] at hkept hquiet
    · exact ⟨hkept, fun e' he => hquiet e' he⟩
    · exact ih hkept fun u hu => hws u (List.mem_cons_of_mem _ hu)

end Accelerator

namespace DevicePart

/-- The descriptor of the part, if it has one, was built for some device. -/
def Built : DevicePart → Prop
  | configure desc => ∃ map config, Descriptor.build map config = .ok desc
  | _ => True

end DevicePart

namespace DeviceRequest

/-- The descriptor of the call, if it has one, was built for some device. -/
def Built : DeviceRequest → Prop
  | part p => p.Built
  | start desc => ∃ map config, Descriptor.build map config = .ok desc
  | wait _ _ _ => True

variable {σ : Type} {bus : Bus σ} {d d' : Device σ}

theorem Built.parts {q : DeviceRequest} (h : q.Built) (bus : Bus σ) (d : Device σ) : ∀ p ∈ q.parts bus d, p.Built := by
  have hpolls : ∀ policy clock patience made (d : Device σ), ∀ p ∈ polls bus policy clock patience made d, p.Built := by
    intro policy clock patience
    induction patience with
    | zero => exact fun made d => nofun
    | succ patience ih =>
      intro made d p hp
      rw [polls] at hp
      rcases List.mem_cons.mp hp with rfl | hp
      · trivial
      · split at hp
        · split at hp
          · cases hp
          · exact ih _ _ p hp
        · cases hp
  intro p hp
  cases q with
  | part q => exact List.mem_singleton.mp hp ▸ h
  | start desc =>
    rw [DeviceRequest.parts] at hp
    rcases hd : d.configure bus desc with ⟨e | ⟨⟩, d₁⟩ <;> rw [hd] at hp
    · exact List.mem_singleton.mp hp ▸ h
    · rcases List.mem_cons.mp hp with rfl | hp
      · exact h
      · rw [List.mem_singleton.mp hp]
        trivial
  | wait policy clock patience =>
    rw [DeviceRequest.parts] at hp
    rcases hd : d.pollUntil bus policy clock patience 0 with - | ⟨e | n, d₁⟩ <;> rw [hd] at hp
    · exact hpolls _ _ _ _ _ p hp
    · exact hpolls _ _ _ _ _ p hp
    · rcases List.mem_append.mp hp with hp | hp
      · exact hpolls _ _ _ _ _ p hp
      · exact List.mem_singleton.mp hp ▸ trivial

theorem built_partsAll {requests : List DeviceRequest} (h : ∀ q ∈ requests, q.Built) (bus : Bus σ) (d : Device σ) :
    ∀ p ∈ partsAll bus requests d, p.Built := by
  induction requests generalizing d with
  | nil => exact nofun
  | cons q rest ih =>
    obtain ⟨hq, hrest⟩ := List.forall_mem_cons.mp h
    refine List.forall_mem_append.mpr ⟨hq.parts bus d, ?_⟩
    rcases q.run bus d with - | ⟨answer, d₁⟩
    · exact nofun
    · exact ih hrest d₁

/-- Calls that have returned have taken the device through their parts. -/
theorem after_of_runAll {requests : List DeviceRequest} {answers : List (Except Error Completion)}
    (h : runAll bus requests d = some (answers, d')) : d' = DevicePart.after bus (partsAll bus requests d) d := by
  -- On the calls: the parts of the first lead to the device that the others begin with.
  induction requests generalizing d answers with
  | nil =>
    cases h
    rfl
  | cons q rest ih =>
    obtain ⟨⟨answer, d₁⟩, hq, h⟩ := Option.bind_eq_some_iff.mp h
    obtain ⟨⟨answers', d₂⟩, hrest, h⟩ := Option.map_eq_some_iff.mp h
    cases h
    obtain ⟨_, -, hlead⟩ := lead_run bus q d []
    obtain ⟨hafter, -⟩ := hlead answer d₁ hq
    simp only [partsAll, hq, DevicePart.after_append, hafter]
    exact ih hrest

end DeviceRequest

namespace Device

variable {p : Personality} {d : Device (Accelerator × Memory)} {desc : Descriptor}

/-- Whether the accelerator of a device in that state is running. -/
def flagOf (p : Personality) : DeviceState → Bool
  | .idle | .configured => false
  | .running => true
  | .done => p.map.clear.isSome

/-- The state of the device tells the flag and the count of the accelerator. -/
structure InStep (p : Personality) (d : Device (Accelerator × Memory)) : Prop where
  map_eq : d.map = p.map
  personality : d.target.1.personality = p
  running : d.target.1.running = flagOf p d.state
  launches : d.target.1.launches = if d.state = .running then d.launches + 1 else d.launches

theorem inStep_attach (p : Personality) (latency : Nat) (stuck : Bool) (m : Memory) :
    InStep p (.attach p.map (.fresh p latency stuck, m)) := ⟨rfl, rfl, rfl, rfl⟩

theorem InStep.atRest (h : InStep p d) (hflag : flagOf p d.state = false) (hstate : d.state ≠ .running) :
    d.target.1.AtRest p d.launches := by
  have hlaunches := h.launches
  rw [if_neg hstate] at hlaunches
  exact ⟨h.personality, h.running.trans hflag, hlaunches⟩

theorem InStep.of_atRest {s : Accelerator × Memory} (h : InStep p d) (hs : s.1.AtRest p d.launches) {st : DeviceState}
    (hst : st = .idle ∨ st = .configured) : InStep p { d with target := s, state := st } := by
  obtain ⟨hp, hrunning, hlaunches⟩ := hs
  rcases hst with rfl | rfl <;> exact ⟨h.map_eq, hp, hrunning, hlaunches⟩

theorem of_checkDescriptor {u : Unit} (h : d.checkDescriptor desc = .ok u) :
    d.state = .idle ∧ desc.start.register = d.map.start := by
  unfold checkDescriptor expect at h
  split at h
  · rename_i hidle
    exact ⟨hidle, Classical.not_not.mp fun hne => by rw [if_pos hne] at h; cases h⟩
  · cases h

theorem checkDescriptor_quiet {e : Error} (h : d.checkDescriptor desc = .error e) : ¬e.SaysBusy := by
  rintro ⟨name, rfl⟩
  rcases bind_eq_error.mp h with h | ⟨-, -, h⟩
  · unfold expect at h
    split at h <;> cases h
  · split at h <;> cases h

/-- A configuration, whole or cut short, leaves the accelerator at rest: whatever the descriptor was built for, it
    does not write to the register that starts this one. -/
theorem InStep.configure (h : InStep p d) (hdesc : ∃ map config, Descriptor.build map config = .ok desc) :
    InStep p (d.configure Accelerator.bus desc).2 ∧
      ∀ e, (d.configure Accelerator.bus desc).1 = .error e → ¬e.SaysBusy := by
  obtain ⟨map, config, hbuild⟩ := hdesc
  obtain ⟨rfl, hstart, hcontrol, -⟩ := Descriptor.build_eq_ok hbuild
  unfold Device.configure
  rcases hcheck : d.checkDescriptor desc with e | ⟨⟩
  · exact ⟨h, fun e' he => checkDescriptor_quiet (hcheck.trans he)⟩
  · obtain ⟨hidle, hmatch⟩ := of_checkDescriptor hcheck
    rw [h.map_eq] at hmatch
    have hrest : d.target.1.AtRest p d.launches := h.atRest (by rw [hidle]; rfl) (by simp [hidle])
    have hother : ∀ w ∈ desc.config, w.register ≠ p.map.start := by
      intro w hw heq
      have hfree := hcontrol w hw
      rw [heq, ← hmatch, hstart] at hfree
      simp [RegisterMap.isControl] at hfree
    obtain ⟨hkept, hquiet⟩ := hrest.writeAll hother
    rcases hall : writeAll Accelerator.bus desc.config d.target with ⟨e | ⟨⟩, s⟩ <;> rw [hall] at hkept hquiet
    · exact ⟨h.of_atRest hkept (Or.inl hidle), fun e' he => hquiet e' he⟩
    · exact ⟨h.of_atRest hkept (Or.inr rfl), fun _ hx => by cases hx⟩

theorem InStep.launch (h : InStep p d) :
    InStep p (d.launch Accelerator.bus).2 ∧ ∀ e, (d.launch Accelerator.bus).1 = .error e → ¬e.SaysBusy := by
  unfold Device.launch
  rcases hexpect : d.expect .configured .launch with e | ⟨⟩
  · refine ⟨h, fun e' he => ?_⟩
    cases he
    rintro ⟨name, rfl⟩
    unfold expect at hexpect
    split at hexpect <;> cases hexpect
  · have hstate : d.state = .configured := by
      unfold expect at hexpect
      split at hexpect
      · assumption
      · cases hexpect
    have hrest : d.target.1.AtRest p d.launches := h.atRest (by rw [hstate]; rfl) (by simp [hstate])
    have hstart : d.target.1.map.start = d.map.start := by rw [Accelerator.map, h.personality, h.map_eq]
    simp only [Accelerator.bus, Accelerator.write, hstart, if_true]
    rcases hs : d.target.1.start d.target.2 with e | s
    · refine ⟨h.of_atRest hrest (Or.inr hstate), fun e' he => ?_⟩
      cases he
      exact Accelerator.start_quiet hrest.running hs
    · obtain ⟨len, hlen⟩ := Accelerator.start_eq_ok hs
      refine ⟨⟨h.map_eq, ?_, ?_, ?_⟩, fun _ hx => by cases hx⟩
      · rw [hlen]
        exact hrest.personality
      · rw [hlen]
        rfl
      · rw [hlen]
        exact congrArg (· + 1) hrest.launches

/-- A poll of a running device is answered, and the accelerator lowers its flag with the answer that it is done. -/
theorem InStep.poll (h : InStep p d) :
    InStep p (d.poll Accelerator.bus).2 ∧ (d.state = .running → ∃ answer, (d.poll Accelerator.bus).1 = .ok answer) := by
  unfold Device.poll checkPoll
  cases hstate : d.state with
  | idle | configured => exact ⟨h, fun hx => by cases hx⟩
  | done => exact ⟨h, fun hx => by cases hx⟩
  | running =>
    have hmap := h.map_eq
    have hrunning := h.running
    have hlaunches := h.launches
    rw [hstate] at hrunning hlaunches
    have htarget : d.target.1.map = d.map := by rw [Accelerator.map, h.personality, hmap]
    obtain ⟨hdone, hbusy⟩ := p.verdict_status
    rw [← hmap] at hdone hbusy
    obtain ⟨a, hstatus, hp, hstarts⟩ := Accelerator.status_running hrunning
    rw [h.personality] at hp
    rw [htarget] at hstatus
    have hread : Accelerator.bus.read d.map.status d.target =
        (.ok d.target.1.status.1, d.target.1.status.2, d.target.2) := by
      rw [← htarget]
      simp only [Accelerator.bus, Accelerator.read, if_true]
    rw [hread]
    rcases hstatus with ⟨hstatus, hflag⟩ | ⟨hstatus, hflag⟩ <;> simp only [hstatus, observe, hbusy, hdone]
    · exact ⟨⟨hmap, hp, hflag, hstarts.trans hlaunches⟩, fun _ => ⟨_, rfl⟩⟩
    · exact ⟨⟨hmap, hp, hflag.trans (congrArg _ (congrArg _ hmap)), hstarts.trans hlaunches⟩, fun _ => ⟨_, rfl⟩⟩

theorem InStep.clear (h : InStep p d) :
    InStep p (d.clear Accelerator.bus).2 ∧ (d.state = .done → (d.clear Accelerator.bus).1 = .ok ()) := by
  unfold Device.clear expect
  by_cases hstate : d.state = .done
  · rw [if_pos hstate]
    have hmap := h.map_eq
    have hrunning := h.running
    have hlaunches := h.launches
    rw [hstate] at hrunning hlaunches
    have htarget : d.target.1.map = d.map := by rw [Accelerator.map, h.personality, hmap]
    cases hclear : d.map.clear with
    | none =>
      have hflag : flagOf p .done = false := by rw [flagOf, ← hmap, hclear]; rfl
      exact ⟨⟨hmap, h.personality, hrunning.trans hflag, hlaunches⟩, fun _ => rfl⟩
    | some r =>
      have hwrite := Accelerator.bus_write (Accelerator.write_clear (v := 0) d.target.2 (htarget ▸ hclear))
      simp only [hwrite]
      exact ⟨⟨hmap, h.personality, rfl, hlaunches⟩, fun _ => trivial⟩
  · rw [if_neg hstate]
    exact ⟨h, fun hdone => absurd hdone hstate⟩

theorem InStep.part {q : DevicePart} (h : InStep p d) (hq : q.Built) : InStep p (q.run Accelerator.bus d).2 := by
  cases q with
  | configure desc => exact (h.configure hq).1
  | launch => exact h.launch.1
  | poll => exact h.poll.1
  | clear => exact h.clear.1

theorem InStep.after {qs : List DevicePart} (h : InStep p d) (hqs : ∀ q ∈ qs, q.Built) :
    InStep p (DevicePart.after Accelerator.bus qs d) := by
  induction qs generalizing d with
  | nil => exact h
  | cons q qs ih =>
    obtain ⟨hq, hqs⟩ := List.forall_mem_cons.mp hqs
    exact ih (h.part hq) hqs

/-- What device and accelerator say of each other, and the calls that therefore do not fail. -/
structure Unison (p : Personality) (d : Device (Accelerator × Memory)) : Prop where
  running : d.state = .running → d.target.1.running = true
  resting : d.state = .idle ∨ d.state = .configured → d.target.1.running = false
  done : d.state = .done → (d.target.1.running = true ↔ p = .mac)
  launches : d.target.1.launches = if d.state = .running then d.launches + 1 else d.launches
  launch : ∀ e, (d.launch Accelerator.bus).1 = .error e → ¬e.SaysBusy
  start : ∀ desc map config, Descriptor.build map config = .ok desc →
    ∀ e, (d.start Accelerator.bus desc).1 = .error e → ¬e.SaysBusy
  poll : d.state = .running → ∃ answer, (d.poll Accelerator.bus).1 = .ok answer
  clear : d.state = .done → (d.clear Accelerator.bus).1 = .ok ()

theorem InStep.unison (h : InStep p d) : Unison p d where
  running hstate := h.running.trans (by rw [hstate]; rfl)
  resting hstate := h.running.trans (by rcases hstate with hstate | hstate <;> rw [hstate] <;> rfl)
  done hstate := by
    rw [h.running, hstate]
    cases p with
    | mac => exact iff_of_true rfl rfl
    | alu => exact iff_of_false nofun nofun
  launches := h.launches
  launch := h.launch.2
  start desc map config hbuild e he := by
    obtain ⟨hconfigured, hquiet⟩ := h.configure ⟨map, config, hbuild⟩
    rw [Device.start] at he
    rcases hd : d.configure Accelerator.bus desc with ⟨e' | ⟨⟩, d₁⟩ <;> rw [hd] at he hconfigured hquiet
    · exact hquiet e he
    · exact hconfigured.launch.2 e he
  poll := h.poll.2
  clear := h.clear.2

/-- Whatever is called on a new device with a fresh accelerator behind its bus, with descriptors built for whichever
    device: after every part of every call, also of a wait that is still going on, and when the calls have returned,
    the state of the device tells what its accelerator does and has done. -/
theorem device_and_accelerator_stay_in_step (p : Personality) (latency : Nat) (stuck : Bool) (m : Memory)
    (requests : List DeviceRequest) (hbuilt : ∀ q ∈ requests, q.Built) :
    (∀ parts, parts <+: DeviceRequest.partsAll Accelerator.bus requests (.attach p.map (.fresh p latency stuck, m)) →
      Unison p (DevicePart.after Accelerator.bus parts (.attach p.map (.fresh p latency stuck, m)))) ∧
    ∀ answers d, DeviceRequest.runAll Accelerator.bus requests (.attach p.map (.fresh p latency stuck, m)) =
      some (answers, d) → Unison p d := by
  have hparts : ∀ parts,
      parts <+: DeviceRequest.partsAll Accelerator.bus requests (.attach p.map (.fresh p latency stuck, m)) →
      Unison p (DevicePart.after Accelerator.bus parts (.attach p.map (.fresh p latency stuck, m))) := by
    intro parts hearly
    have hall := DeviceRequest.built_partsAll hbuilt Accelerator.bus (.attach p.map (.fresh p latency stuck, m))
    exact ((inStep_attach p latency stuck m).after fun q hq => hall q (hearly.subset hq)).unison
  exact ⟨hparts, fun answers d h => DeviceRequest.after_of_runAll h ▸ hparts _ List.prefix_rfl⟩

/-- The multiply-accumulate unit is configured for another device up to its status register, is started, is waited for
    twice because the first wait gives up, and refuses two more starts in a mode that it does not have. -/
theorem refused_calls_stay_in_step :
    ∃ (foreign : RegisterMap) (odd fine wrong : Descriptor) (requests : List DeviceRequest)
      (answers : List (Except Error Completion)) (d : Device (Accelerator × Memory)),
      Descriptor.build foreign [⟨Chip.Mac.mode, 1⟩, ⟨Chip.Mac.busy, 0⟩] = .ok odd ∧
      Descriptor.build .mac [⟨Chip.Mac.pointerA, 0x10000000⟩, ⟨Chip.Mac.pointerB, 0x10000004⟩,
        ⟨Chip.Mac.pointerO, 0x10000008⟩, ⟨Chip.Mac.iterations, 1⟩, ⟨Chip.Mac.vectorLength, 1⟩, ⟨Chip.Mac.mode, 1⟩] =
          .ok fine ∧
      Descriptor.build .mac [⟨Chip.Mac.mode, 7⟩] = .ok wrong ∧
      requests = [.part (.configure odd), .start fine, .wait (.polls 1) .still 9, .part .launch,
        .wait (.polls 5) .still 9, .start wrong, .part .poll, .part .launch] ∧
      DeviceRequest.runAll Accelerator.bus requests (.attach .mac (.fresh .mac 3 false,
        ⟨[⟨"tcdm", 0x10000000, ⟨#[6, 0, 0, 0, 7, 0, 0, 0, 0, 0, 0, 0]⟩⟩]⟩)) = some (answers, d) ∧
      answers.map (·.toOption) = [none, some .done, none, none, some .done, none, none, none] ∧
      d.state = .configured ∧ d.launches = 1 ∧ d.target.1.running = false ∧ d.target.1.launches = 1 := by
  have hodd : Descriptor.build ⟨"other", Chip.Mac.start, 1, 0, 1, 0, none⟩ [⟨Chip.Mac.mode, 1⟩, ⟨Chip.Mac.busy, 0⟩] =
      .ok ⟨[⟨Chip.Mac.mode, 1⟩, ⟨Chip.Mac.busy, 0⟩], ⟨Chip.Mac.start, 1⟩⟩ := rfl
  have hfine : Descriptor.build .mac [⟨Chip.Mac.pointerA, 0x10000000⟩, ⟨Chip.Mac.pointerB, 0x10000004⟩,
      ⟨Chip.Mac.pointerO, 0x10000008⟩, ⟨Chip.Mac.iterations, 1⟩, ⟨Chip.Mac.vectorLength, 1⟩, ⟨Chip.Mac.mode, 1⟩] =
        .ok ⟨[⟨Chip.Mac.pointerA, 0x10000000⟩, ⟨Chip.Mac.pointerB, 0x10000004⟩, ⟨Chip.Mac.pointerO, 0x10000008⟩,
          ⟨Chip.Mac.iterations, 1⟩, ⟨Chip.Mac.vectorLength, 1⟩, ⟨Chip.Mac.mode, 1⟩], ⟨Chip.Mac.start, 0⟩⟩ := rfl
  have hwrong : Descriptor.build .mac [⟨Chip.Mac.mode, 7⟩] = .ok ⟨[⟨Chip.Mac.mode, 7⟩], ⟨Chip.Mac.start, 0⟩⟩ := rfl
  obtain ⟨-, hreturned⟩ := device_and_accelerator_stay_in_step .mac 3 false
    ⟨[⟨"tcdm", 0x10000000, ⟨#[6, 0, 0, 0, 7, 0, 0, 0, 0, 0, 0, 0]⟩⟩]⟩ [.part (.configure _), .start _,
      .wait (.polls 1) .still 9, .part .launch, .wait (.polls 5) .still 9, .start _, .part .poll, .part .launch]
    (by
      simp only [List.forall_mem_cons]
      exact ⟨⟨_, _, hodd⟩, ⟨_, _, hfine⟩, trivial, trivial, trivial, ⟨_, _, hwrong⟩, trivial, trivial, nofun⟩)
  have hunison := hreturned _ _ rfl
  exact ⟨_, _, _, _, _, _, _, hodd, hfine, hwrong, rfl, rfl, rfl, rfl, rfl, hunison.resting (Or.inr rfl),
    hunison.launches⟩

end Device

end TileOffload
