import TileOffload.Device

/-! # Register traffic

What the calls of a device ask of its bus, access by access. A call that is made of others is taken apart, and each
access is marked with the part that made it and with the state in which the device was. Main statement: these are
the accesses that the bus itself notes. -/

namespace TileOffload

variable {σ : Type}

/-- The device on a bus that notes its accesses, with those noted so far. -/
def Device.noted (d : Device σ) (log : List Access) : Device (σ × List Access) :=
  ⟨d.map, d.state, d.launches, (d.target, log)⟩

theorem Bus.noting_read (bus : Bus σ) (r : Word) (s : σ) (log : List Access) :
    bus.noting.read r (s, log) = ((bus.read r s).1, (bus.read r s).2, .read r (bus.read r s).1 :: log) := rfl

theorem Bus.noting_write (bus : Bus σ) (r v : Word) (s : σ) (log : List Access) :
    bus.noting.write r v (s, log) = ((bus.write r v s).1, (bus.write r v s).2, .write r v (bus.write r v s).1 :: log) :=
  rfl

/-- A call that accesses the bus by itself. -/
inductive DevicePart
  | configure (desc : Descriptor)
  | launch
  | poll
  | clear

/-- An access, the part of a call that made it, and the state of the device then. -/
structure Traffic where
  part : DevicePart
  state : DeviceState
  access : Access

namespace DevicePart

/-- Carries the part out; all but a poll answer that they are done. -/
def run (bus : Bus σ) : DevicePart → Device σ → Except Error Completion × Device σ
  | configure desc, d => (d.configure bus desc).map (·.map fun _ => .done) id
  | launch, d => (d.launch bus).map (·.map fun _ => .done) id
  | poll, d => d.poll bus
  | clear, d => (d.clear bus).map (·.map fun _ => .done) id

/-- The accesses of a part, in their order. -/
def accesses (bus : Bus σ) (p : DevicePart) (d : Device σ) : List Access :=
  (p.run bus.noting (d.noted [])).2.target.2.reverse

/-- The device after parts of calls, whatever they answer. -/
def after (bus : Bus σ) : List DevicePart → Device σ → Device σ
  | [], d => d
  | p :: rest, d => after bus rest (p.run bus d).2

/-- The accesses of parts of calls, in their order. -/
def traffic (bus : Bus σ) : List DevicePart → Device σ → List Traffic
  | [], _ => []
  | p :: rest, d => (p.accesses bus d).map (⟨p, d.state, ·⟩) ++ traffic bus rest (p.run bus d).2

/-- A configuration write that was accepted. -/
def accepted (w : RegisterWrite) : Access := .write w.register w.value (.ok ())

/-- What a part can do to a device: the accesses, the answer, and the device afterwards. -/
inductive Ran (d : Device σ) : DevicePart → List Access → Except Error Completion → Device σ → Prop
  | barred (p : DevicePart) (e : Error) : Ran d p [] (.error e) d
  | halfConfigured (hstate : d.state = .idle) {desc : Descriptor} {written rest : List RegisterWrite}
      {w : RegisterWrite} (hconfig : desc.config = written ++ w :: rest) (e : Error) (s : σ) :
      Ran d (.configure desc) (written.map accepted ++ [.write w.register w.value (.error e)]) (.error e)
        { d with target := s }
  | configured (hstate : d.state = .idle) (desc : Descriptor) (s : σ) :
      Ran d (.configure desc) (desc.config.map accepted) (.ok .done) { d with target := s, state := .configured }
  | held (hstate : d.state = .configured) (e : Error) (s : σ) :
      Ran d .launch [.write d.map.start d.map.startValue (.error e)] (.error e) { d with target := s }
  | launched (hstate : d.state = .configured) (s : σ) :
      Ran d .launch [.write d.map.start d.map.startValue (.ok ())] (.ok .done) { d with target := s, state := .running }
  | unread (hstate : d.state = .running) (e : Error) (s : σ) :
      Ran d .poll [.read d.map.status (.error e)] (.error e) { d with target := s }
  | faulty (hstate : d.state = .running) {status : Word} {e : Error} (hverdict : d.map.verdict status = .error e)
      (s : σ) :
      Ran d .poll [.read d.map.status (.ok status)] (.error e) { d with target := s }
  | busy (hstate : d.state = .running) {status : Word} (hverdict : d.map.verdict status = .ok .busy) (s : σ) :
      Ran d .poll [.read d.map.status (.ok status)] (.ok .busy) { d with target := s }
  | completed (hstate : d.state = .running) {status : Word} (hverdict : d.map.verdict status = .ok .done) (s : σ) :
      Ran d .poll [.read d.map.status (.ok status)] (.ok .done)
        { d with target := s, state := .done, launches := d.launches + 1 }
  | observed (hstate : d.state = .done) : Ran d .poll [] (.ok .done) d
  | uncleared (hstate : d.state = .done) {r : Word} (hclear : d.map.clear = some r) (e : Error) (s : σ) :
      Ran d .clear [.write r 0 (.error e)] (.error e) { d with target := s }
  | cleared (hstate : d.state = .done) {r : Word} (hclear : d.map.clear = some r) (s : σ) :
      Ran d .clear [.write r 0 (.ok ())] (.ok .done) { d with target := s, state := .idle }
  | released (hstate : d.state = .done) (hclear : d.map.clear = none) :
      Ran d .clear [] (.ok .done) { d with state := .idle }

variable {bus : Bus σ} {d d' : Device σ}

/-! ### Parts -/

theorem writeAll_ran (bus : Bus σ) (ws : List RegisterWrite) (s : σ) :
    ∃ answer s' log', Device.writeAll bus ws s = (answer, s') ∧
      (∀ log, Device.writeAll bus.noting ws (s, log) = (answer, (s', List.reverse log' ++ log))) ∧
      ((answer = .ok () ∧ log' = ws.map accepted) ∨
        ∃ written w rest e, ws = written ++ w :: rest ∧ answer = .error e ∧
          log' = written.map accepted ++ [.write w.register w.value (.error e)]) := by
  induction ws generalizing s with
  | nil => exact ⟨.ok (), s, [], rfl, fun log => rfl, Or.inl ⟨rfl, rfl⟩⟩
  | cons w ws ih =>
    simp only [Device.writeAll, Bus.noting_write]
    rcases bus.write w.register w.value s with ⟨⟨e⟩ | ⟨⟨⟩⟩, s₁⟩
    · exact ⟨.error e, s₁, [.write w.register w.value (.error e)], rfl, fun log => rfl,
        Or.inr ⟨[], w, ws, e, rfl, rfl, rfl⟩⟩
    · obtain ⟨answer, s', log', hall, hnoted, hcases⟩ := ih s₁
      refine ⟨answer, s', accepted w :: log', hall, fun log => ?_, ?_⟩
      · rw [List.reverse_cons, List.append_assoc]
        exact hnoted _
      · rcases hcases with ⟨rfl, rfl⟩ | ⟨written, v, rest, e, rfl, rfl, rfl⟩
        · exact Or.inl ⟨rfl, rfl⟩
        · exact Or.inr ⟨w :: written, v, rest, e, rfl, rfl, rfl⟩

theorem ran_configure (bus : Bus σ) (desc : Descriptor) (d : Device σ) :
    ∃ log' answer d', Ran d (.configure desc) log' answer d' ∧ (configure desc).run bus d = (answer, d') ∧
      ∀ log, (configure desc).run bus.noting (d.noted log) = (answer, d'.noted (log'.reverse ++ log)) := by
  have hnoted : ∀ log, (d.noted log).checkDescriptor desc = d.checkDescriptor desc := fun log => rfl
  simp only [run, Device.configure, hnoted]
  cases hcheck : d.checkDescriptor desc with
  | error e => exact ⟨[], _, _, .barred _ e, rfl, fun log => rfl⟩
  | ok u =>
    have hstate : d.state = .idle := by
      refine Classical.byContradiction fun hne => ?_
      simp only [Device.checkDescriptor, Device.expect, if_neg hne] at hcheck
      cases hcheck
    obtain ⟨answer, s, log', hall, hall', hcases⟩ := writeAll_ran bus desc.config d.target
    simp only [Device.noted, hall, hall']
    rcases hcases with ⟨rfl, rfl⟩ | ⟨written, w, rest, e, hconfig, rfl, rfl⟩
    · exact ⟨_, _, _, .configured hstate desc s, rfl, fun log => rfl⟩
    · exact ⟨_, _, _, .halfConfigured hstate hconfig e s, rfl, fun log => rfl⟩

theorem ran_launch (bus : Bus σ) (d : Device σ) :
    ∃ log' answer d', Ran d .launch log' answer d' ∧ launch.run bus d = (answer, d') ∧
      ∀ log, launch.run bus.noting (d.noted log) = (answer, d'.noted (log'.reverse ++ log)) := by
  obtain ⟨map, state, launches, target⟩ := d
  simp only [run, Device.launch, Device.noted, Bus.noting_write]
  cases state with
  | idle | running | done => exact ⟨_, _, _, .barred _ _, rfl, fun log => rfl⟩
  | configured =>
    rcases bus.write map.start map.startValue target with ⟨⟨e⟩ | ⟨⟨⟩⟩, s⟩
    · exact ⟨_, _, _, .held rfl e s, rfl, fun log => rfl⟩
    · exact ⟨_, _, _, .launched rfl s, rfl, fun log => rfl⟩

theorem ran_poll (bus : Bus σ) (d : Device σ) :
    ∃ log' answer d', Ran d .poll log' answer d' ∧ poll.run bus d = (answer, d') ∧
      ∀ log, poll.run bus.noting (d.noted log) = (answer, d'.noted (log'.reverse ++ log)) := by
  obtain ⟨map, state, launches, target⟩ := d
  simp only [run, Device.poll, Device.checkPoll, Device.noted, Bus.noting_read]
  cases state with
  | idle | configured => exact ⟨_, _, _, .barred _ _, rfl, fun log => rfl⟩
  | done => exact ⟨_, _, _, .observed rfl, rfl, fun log => rfl⟩
  | running =>
    rcases bus.read map.status target with ⟨⟨e⟩ | ⟨status⟩, s⟩
    · exact ⟨_, _, _, .unread rfl e s, rfl, fun log => rfl⟩
    · simp only [Device.observe]
      rcases hverdict : map.verdict status with ⟨e⟩ | ⟨⟨⟩⟩
      · exact ⟨_, _, _, .faulty rfl hverdict s, rfl, fun log => rfl⟩
      · exact ⟨_, _, _, .busy rfl hverdict s, rfl, fun log => rfl⟩
      · exact ⟨_, _, _, .completed rfl hverdict s, rfl, fun log => rfl⟩

theorem ran_clear (bus : Bus σ) (d : Device σ) :
    ∃ log' answer d', Ran d .clear log' answer d' ∧ clear.run bus d = (answer, d') ∧
      ∀ log, clear.run bus.noting (d.noted log) = (answer, d'.noted (log'.reverse ++ log)) := by
  obtain ⟨map, state, launches, target⟩ := d
  simp only [run, Device.clear, Device.noted, Bus.noting_write]
  cases state with
  | idle | configured | running => exact ⟨_, _, _, .barred _ _, rfl, fun log => rfl⟩
  | done =>
    cases hclear : map.clear with
    | none => exact ⟨_, _, _, .released rfl hclear, rfl, fun log => rfl⟩
    | some r =>
      dsimp only
      rcases bus.write r 0 target with ⟨⟨e⟩ | ⟨⟨⟩⟩, s⟩
      · exact ⟨_, _, _, .uncleared rfl hclear e s, rfl, fun log => rfl⟩
      · exact ⟨_, _, _, .cleared rfl hclear s, rfl, fun log => rfl⟩

theorem ran (bus : Bus σ) (p : DevicePart) (d : Device σ) :
    Ran d p (p.accesses bus d) (p.run bus d).1 (p.run bus d).2 ∧
      ∀ log, p.run bus.noting (d.noted log) =
        ((p.run bus d).1, (p.run bus d).2.noted ((p.accesses bus d).reverse ++ log)) := by
  have h : ∃ log' answer d', Ran d p log' answer d' ∧ p.run bus d = (answer, d') ∧
      ∀ log, p.run bus.noting (d.noted log) = (answer, d'.noted (log'.reverse ++ log)) := by
    cases p with
    | configure desc => exact ran_configure bus desc d
    | launch => exact ran_launch bus d
    | poll => exact ran_poll bus d
    | clear => exact ran_clear bus d
  obtain ⟨log', answer, d', hran, hrun, hnoted⟩ := h
  have hlog : p.accesses bus d = log' := by
    rw [accesses, hnoted, List.append_nil]
    exact List.reverse_reverse log'
  rw [hlog, hrun]
  exact ⟨hran, hnoted⟩

theorem after_append (bus : Bus σ) (ps qs : List DevicePart) (d : Device σ) :
    after bus (ps ++ qs) d = after bus qs (after bus ps d) := by
  induction ps generalizing d with
  | nil => rfl
  | cons p ps ih => exact ih _

theorem traffic_append (bus : Bus σ) (ps qs : List DevicePart) (d : Device σ) :
    traffic bus (ps ++ qs) d = traffic bus ps d ++ traffic bus qs (after bus ps d) := by
  induction ps generalizing d with
  | nil => rfl
  | cons p ps ih =>
    rw [List.cons_append, traffic, ih, traffic, after, List.append_assoc]

end DevicePart

/-- A call of a device. -/
inductive DeviceRequest
  | part (p : DevicePart)
  | start (desc : Descriptor)
  | wait (policy : WaitPolicy) (clock : Stopwatch) (patience : Nat)

namespace DeviceRequest

/-- Makes the call; all but a poll answer that they are done. -/
def run (bus : Bus σ) : DeviceRequest → Device σ → Option (Except Error Completion × Device σ)
  | part p, d => some (p.run bus d)
  | start desc, d => some ((d.start bus desc).map (·.map fun _ => .done) id)
  | wait policy clock patience, d => (d.wait bus policy clock patience).map (Prod.map (·.map fun _ => .done) id)

/-- The polls of a wait. -/
def polls (bus : Bus σ) (policy : WaitPolicy) (clock : Stopwatch) : (patience polls : Nat) → Device σ → List DevicePart
  | 0, _, _ => []
  | patience + 1, made, d =>
    .poll :: match d.poll bus with
      | (.ok .busy, d) =>
        if policy.givesUp (made + 1) (clock (made + 1)) then [] else polls bus policy clock patience (made + 1) d
      | _ => []

/-- The parts of a call, as far as it gets. -/
def parts (bus : Bus σ) : DeviceRequest → Device σ → List DevicePart
  | part p, _ => [p]
  | start desc, d =>
    match d.configure bus desc with
    | (.ok _, _) => [.configure desc, .launch]
    | (.error _, _) => [.configure desc]
  | wait policy clock patience, d =>
    match d.pollUntil bus policy clock patience 0 with
    | some (.ok _, _) => polls bus policy clock patience 0 d ++ [.clear]
    | _ => polls bus policy clock patience 0 d

/-- Makes calls one after another. -/
def runAll (bus : Bus σ) : List DeviceRequest → Device σ → Option (List (Except Error Completion) × Device σ)
  | [], d => some ([], d)
  | q :: rest, d => (q.run bus d).bind fun r => (runAll bus rest r.2).map fun s => (r.1 :: s.1, s.2)

/-- The parts of calls one after another. -/
def partsAll (bus : Bus σ) : List DeviceRequest → Device σ → List DevicePart
  | [], _ => []
  | q :: rest, d => q.parts bus d ++ ((q.run bus d).map fun r => partsAll bus rest r.2).getD []

/-- The accesses of calls one after another. -/
def traffic (bus : Bus σ) (requests : List DeviceRequest) (d : Device σ) : List Traffic :=
  DevicePart.traffic bus (partsAll bus requests d) d

end DeviceRequest

namespace DevicePart

variable {bus : Bus σ} {d d' : Device σ} {log : List Access}

/-- The parts lead from one device to another, and their accesses are what the bus notes of them. -/
def Lead (bus : Bus σ) (ps : List DevicePart) (d d' : Device σ) (log log' : List Access) : Prop :=
  after bus ps d = d' ∧ log' = ((traffic bus ps d).map (·.access)).reverse ++ log

theorem lead_nil (bus : Bus σ) (d : Device σ) (log : List Access) : Lead bus [] d d log log := ⟨rfl, rfl⟩

theorem Lead.cons {p : DevicePart} {ps : List DevicePart} {log' : List Access}
    (h : Lead bus ps (p.run bus d).2 d' ((p.accesses bus d).reverse ++ log) log') :
    Lead bus (p :: ps) d d' log log' := by
  refine ⟨h.1, ?_⟩
  rw [h.2, traffic, List.map_append, List.map_map, List.reverse_append, List.append_assoc]
  congr 2
  exact (congrArg List.reverse (List.map_id _)).symm

theorem Lead.append {ps qs : List DevicePart} {d₁ : Device σ} {log₁ log' : List Access} (h : Lead bus ps d d₁ log log₁)
    (h' : Lead bus qs d₁ d' log₁ log') : Lead bus (ps ++ qs) d d' log log' := by
  obtain ⟨rfl, rfl⟩ := h
  refine ⟨(after_append bus ps qs d).trans h'.1, ?_⟩
  rw [h'.2, traffic_append, List.map_append, List.reverse_append, List.append_assoc]

end DevicePart

namespace DeviceRequest

open DevicePart (Lead)

variable {bus : Bus σ}

theorem lead_part (bus : Bus σ) (p : DevicePart) (d : Device σ) (log : List Access) :
    ∃ log', p.run bus.noting (d.noted log) = ((p.run bus d).1, (p.run bus d).2.noted log') ∧
      Lead bus [p] d (p.run bus d).2 log log' :=
  ⟨_, (p.ran bus d).2 log, (DevicePart.lead_nil bus _ _).cons⟩

theorem noted_of_map {x : Except Error Unit × Device (σ × List Access)} {y : Except Error Unit × Device σ}
    {log : List Access} (h : x.map (·.map fun _ => Completion.done) id =
      ((y.map (·.map fun _ => Completion.done) id).1, y.2.noted log)) : x = (y.1, y.2.noted log) := by
  rcases x with ⟨⟨e⟩ | ⟨⟨⟩⟩, x⟩ <;> rcases y with ⟨⟨e'⟩ | ⟨⟨⟩⟩, y⟩ <;> cases h <;> rfl

theorem lead_start (bus : Bus σ) (desc : Descriptor) (d : Device σ) (log : List Access) :
    ∃ log', (d.noted log).start bus.noting desc = ((d.start bus desc).1, (d.start bus desc).2.noted log') ∧
      Lead bus ((start desc).parts bus d) d (d.start bus desc).2 log log' := by
  obtain ⟨log₁, hconfigure, hlead₁⟩ := lead_part bus (.configure desc) d log
  have hconfigure : (d.noted log).configure bus.noting desc =
      ((d.configure bus desc).1, (d.configure bus desc).2.noted log₁) := noted_of_map hconfigure
  simp only [Device.start, parts, hconfigure]
  rcases hd : d.configure bus desc with ⟨⟨e⟩ | ⟨⟨⟩⟩, d₁⟩
  · simp only [DevicePart.run, hd] at hlead₁
    exact ⟨log₁, rfl, hlead₁⟩
  · simp only [DevicePart.run, hd] at hlead₁
    obtain ⟨log₂, hlaunch, hlead₂⟩ := lead_part bus .launch d₁ log₁
    have hlaunch : (d₁.noted log₁).launch bus.noting = ((d₁.launch bus).1, (d₁.launch bus).2.noted log₂) :=
      noted_of_map hlaunch
    exact ⟨log₂, hlaunch, hlead₁.append hlead₂⟩

theorem lead_polls (bus : Bus σ) (policy : WaitPolicy) (clock : Stopwatch) (patience made : Nat) (d : Device σ)
    (log : List Access) :
    ∃ log', (d.noted log).pollUntil bus.noting policy clock patience made =
        (d.pollUntil bus policy clock patience made).map (Prod.map id (·.noted log')) ∧
      ∀ answer d', d.pollUntil bus policy clock patience made = some (answer, d') →
        Lead bus (polls bus policy clock patience made d) d d' log log' := by
  -- On the polls that are left: each notes its read, and the others follow after it.
  induction patience generalizing made d log with
  | zero => exact ⟨log, rfl, fun _ _ h => by cases h⟩
  | succ patience ih =>
    obtain ⟨log₁, hpoll, hlead₁⟩ := lead_part bus .poll d log
    simp only [DevicePart.run] at hpoll hlead₁
    simp only [Device.pollUntil, polls, hpoll]
    rcases hd : d.poll bus with ⟨⟨e⟩ | ⟨⟨⟩⟩, d₁⟩ <;> simp only [hd] at hlead₁
    · exact ⟨log₁, rfl, fun answer d' h => by cases h; exact hlead₁⟩
    · dsimp only
      split
      · exact ⟨log₁, rfl, fun answer d' h => by cases h; exact hlead₁⟩
      · obtain ⟨log', hrest, hlead⟩ := ih (made + 1) d₁ log₁
        exact ⟨log', hrest, fun answer d' h => hlead₁.append (hlead answer d' h)⟩
    · exact ⟨log₁, rfl, fun answer d' h => by cases h; exact hlead₁⟩

theorem lead_wait (bus : Bus σ) (policy : WaitPolicy) (clock : Stopwatch) (patience : Nat) (d : Device σ)
    (log : List Access) :
    ∃ log', (d.noted log).wait bus.noting policy clock patience =
        (d.wait bus policy clock patience).map (Prod.map id (·.noted log')) ∧
      ∀ answer d', d.wait bus policy clock patience = some (answer, d') →
        Lead bus ((wait policy clock patience).parts bus d) d d' log log' := by
  obtain ⟨log₁, hpolls, hlead₁⟩ := lead_polls bus policy clock patience 0 d log
  simp only [Device.wait, parts, hpolls]
  rcases hd : d.pollUntil bus policy clock patience 0 with - | ⟨⟨e⟩ | n, d₁⟩
  · exact ⟨log₁, rfl, fun _ _ h => by cases h⟩
  · exact ⟨log₁, rfl, fun answer d' h => by cases h; exact hlead₁ _ _ hd⟩
  · obtain ⟨log₂, hclear, hlead₂⟩ := lead_part bus .clear d₁ log₁
    have hclear : (d₁.noted log₁).clear bus.noting = ((d₁.clear bus).1, (d₁.clear bus).2.noted log₂) :=
      noted_of_map hclear
    refine ⟨log₂, ?_, fun answer d' h => (hlead₁ _ _ hd).append ?_⟩
    · simp only [Option.map, Prod.map, id, hclear]
      rcases d₁.clear bus with ⟨⟨e⟩ | ⟨⟨⟩⟩, d₂⟩ <;> rfl
    · simp only [DevicePart.run] at hlead₂
      rcases hc : d₁.clear bus with ⟨⟨e⟩ | ⟨⟨⟩⟩, d₂⟩ <;> simp only [hc] at h hlead₂ <;> cases h <;> exact hlead₂

theorem lead_run (bus : Bus σ) (q : DeviceRequest) (d : Device σ) (log : List Access) :
    ∃ log', q.run bus.noting (d.noted log) = (q.run bus d).map (Prod.map id (·.noted log')) ∧
      ∀ answer d', q.run bus d = some (answer, d') → Lead bus (q.parts bus d) d d' log log' := by
  cases q with
  | part p =>
    obtain ⟨log', hrun, hlead⟩ := lead_part bus p d log
    refine ⟨log', congrArg some hrun, fun answer d' h => ?_⟩
    have hd : (p.run bus d).2 = d' := congrArg Prod.snd (Option.some.inj h)
    exact hd ▸ hlead
  | start desc =>
    obtain ⟨log', hrun, hlead⟩ := lead_start bus desc d log
    refine ⟨log', ?_, fun answer d' h => by cases h; exact hlead⟩
    simp only [run, hrun]
    rfl
  | wait policy clock patience =>
    obtain ⟨log', hrun, hlead⟩ := lead_wait bus policy clock patience d log
    refine ⟨log', ?_, fun answer d' h => ?_⟩
    · simp only [run, hrun, Option.map_map]
      rfl
    · obtain ⟨⟨n, d₁⟩, hwait, h⟩ := Option.map_eq_some_iff.mp h
      cases h
      exact hlead _ _ hwait

end DeviceRequest

end TileOffload
