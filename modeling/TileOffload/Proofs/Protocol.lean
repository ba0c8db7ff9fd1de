import TileOffload.Proofs.Traffic
import TileOffload.Script

/-! # The register protocol

What a device's user and its bus can rely on, whatever is called and whichever accesses the bus refuses. Main statement:
no access but status reads while the device runs, no start without a whole configuration right before it, no second
start before the first was seen complete and acknowledged, and a call that fails leaves the device as it was. -/

namespace TileOffload

namespace Traffic

/-- A start that was accepted. -/
def starts : Traffic → Bool
  | ⟨.launch, _, .write _ _ (.ok _)⟩ => true
  | _ => false

/-- A start that was refused. -/
def holds : Traffic → Bool
  | ⟨.launch, _, .write _ _ (.error _)⟩ => true
  | _ => false

/-- An acknowledgement that was accepted. -/
def acknowledges : Traffic → Bool
  | ⟨.clear, _, .write _ _ (.ok _)⟩ => true
  | _ => false

/-- A status that shows neither an error bit nor a busy bit. -/
def completes (map : RegisterMap) : Traffic → Bool
  | ⟨_, _, .read _ (.ok status)⟩ => status &&& map.errorMask == 0 && status &&& map.busyMask == 0
  | _ => false

/-- The configuration of a descriptor, with every write accepted. -/
def configuration (desc : Descriptor) : List Traffic :=
  desc.config.map fun w => ⟨.configure desc, .idle, .write w.register w.value (.ok ())⟩

/-- An access by which a part of a call may reach the bus, and the state for it. -/
def Allowed (map : RegisterMap) (t : Traffic) : Prop :=
  match t.part with
  | .configure desc => t.state = .idle ∧ ∃ w ∈ desc.config, ∃ answer, t.access = .write w.register w.value answer
  | .launch => t.state = .configured ∧ ∃ answer, t.access = .write map.start map.startValue answer
  | .poll => t.state = .running ∧ ∃ answer, t.access = .read map.status answer
  | .clear => t.state = .done ∧ ∃ r answer, map.clear = some r ∧ t.access = .write r 0 answer

/-- All ends in the configuration of one descriptor, but for starts that were refused. -/
def Configured (traffic : List Traffic) : Prop :=
  ∃ earlier desc refused, traffic = earlier ++ configuration desc ++ refused ∧ ∀ t ∈ refused, t.holds

/-- A completing status, and after it one acknowledgement if the device has a register for that. -/
def Separated (map : RegisterMap) (traffic : List Traffic) : Prop :=
  ∃ before t after, traffic = before ++ t :: after ∧ t.completes map ∧
    (map.clear.isSome → after.countP acknowledges = 1)

/-- Every start so far is over. -/
def Rested (map : RegisterMap) (traffic : List Traffic) : Prop :=
  ∀ before t after, traffic = before ++ t :: after → t.starts → Separated map after

/-- Every start so far came with its configuration, when all starts before it were over. -/
def Armed (map : RegisterMap) (traffic : List Traffic) : Prop :=
  ∀ before t after, traffic = before ++ t :: after → t.starts → Configured before ∧ Rested map before

variable {map : RegisterMap} {log new before after : List Traffic} {t : Traffic}

theorem split_append (h : log ++ new = before ++ t :: after) :
    (∃ rest, log = before ++ t :: rest ∧ after = rest ++ new) ∨
      ∃ first, before = log ++ first ∧ new = first ++ t :: after := by
  rcases List.append_eq_append_iff.mp h with ⟨first, rfl, rfl⟩ | ⟨rest, rfl, hnew⟩
  · exact Or.inr ⟨first, rfl, rfl⟩
  · cases rest with
    | nil => exact Or.inr ⟨[], by simp, hnew.symm⟩
    | cons u rest =>
      obtain ⟨rfl, rfl⟩ := List.cons.inj hnew
      exact Or.inl ⟨rest, rfl, rfl⟩

theorem Rested.append (h : Rested map log) (hstarts : ∀ t ∈ new, t.starts = false)
    (hclears : ∀ t ∈ new, t.acknowledges = false) : Rested map (log ++ new) := by
  intro before t after heq ht
  rcases split_append heq with ⟨rest, rfl, rfl⟩ | ⟨first, rfl, rfl⟩
  · obtain ⟨x, r, y, rfl, hr, hone⟩ := h _ _ _ rfl ht
    refine ⟨x, r, y ++ new, by simp, hr, fun hx => ?_⟩
    rw [List.countP_append, hone hx, List.countP_eq_zero.mpr fun u hu => by simp [hclears u hu]]
  · rw [hstarts t (by simp)] at ht
    cases ht

theorem Armed.append (h : Armed map log) (hstarts : ∀ t ∈ new, t.starts = false) : Armed map (log ++ new) := by
  intro before t after heq ht
  rcases split_append heq with ⟨rest, rfl, rfl⟩ | ⟨first, rfl, rfl⟩
  · exact h _ _ _ rfl ht
  · rw [hstarts t (by simp)] at ht
    cases ht

theorem Configured.append (h : Configured log) (ht : t.holds) : Configured (log ++ [t]) := by
  obtain ⟨earlier, desc, refused, rfl, hrefused⟩ := h
  refine ⟨earlier, desc, refused ++ [t], by simp, fun u hu => ?_⟩
  rcases List.mem_append.mp hu with hu | hu
  · exact hrefused u hu
  · exact List.mem_singleton.mp hu ▸ ht

theorem starts_of_completes (h : t.completes map) : t.starts = false := by
  obtain ⟨part, state, access⟩ := t
  cases access with
  | read r answer => cases part <;> rfl
  | write r v answer => cases h

theorem completes_iff {part : DevicePart} {state : DeviceState} {r status : Word} :
    completes map ⟨part, state, .read r (.ok status)⟩ ↔ map.verdict status = .ok .done := by
  simp only [completes, RegisterMap.verdict, Bool.and_eq_true, beq_iff_eq]
  split
  · simp_all
  · split <;> simp_all

/-- All is over once the last start has completed and was acknowledged. -/
theorem rested_of_completed (ht : t.completes map) (hafter : ∀ u ∈ after, u.starts = false)
    (hone : map.clear.isSome → after.countP acknowledges = 1) : Rested map (before ++ t :: after) := by
  intro before' u after' heq hu
  rcases split_append heq with ⟨rest, rfl, rfl⟩ | ⟨first, rfl, hnew⟩
  · exact ⟨rest, t, after, rfl, ht, hone⟩
  · have hmem : u ∈ t :: after := hnew ▸ List.mem_append_right first List.mem_cons_self
    have hquiet : u.starts = false := by
      rcases List.mem_cons.mp hmem with rfl | hmem
      · exact starts_of_completes ht
      · exact hafter u hmem
    rw [hquiet] at hu
    cases hu

end Traffic

namespace Device

open Traffic

variable {σ : Type} {d d' : Device σ} {map : RegisterMap} {log new : List Traffic}

/-- What the traffic so far is like in each state of the device. -/
def InState (map : RegisterMap) (log : List Traffic) : DeviceState → Prop
  | .idle => Rested map log
  | .configured => Configured log ∧ Rested map log
  | .running => True
  | .done => ∃ before t after, log = before ++ t :: after ∧ t.completes map ∧
      ∀ u ∈ after, u.starts = false ∧ u.acknowledges = false

/-- The device and its traffic so far keep to the protocol. -/
structure Follows (map : RegisterMap) (d : Device σ) (log : List Traffic) : Prop where
  map_eq : d.map = map
  allowed : ∀ t ∈ log, t.Allowed map
  armed : Armed map log
  counted : d.launches = log.countP (completes map)
  inState : InState map log d.state

/-- Accesses that neither start the device nor see it complete. -/
theorem Follows.append (h : Follows map d log) (hmap : d'.map = d.map) (hlaunches : d'.launches = d.launches)
    (hallowed : ∀ t ∈ new, t.Allowed map) (hquiet : ∀ t ∈ new, t.starts = false ∧ t.completes map = false)
    (hstate : InState map (log ++ new) d'.state) : Follows map d' (log ++ new) where
  map_eq := hmap.trans h.map_eq
  allowed := List.forall_mem_append.mpr ⟨h.allowed, hallowed⟩
  armed := h.armed.append fun t ht => (hquiet t ht).1
  counted := by
    have hnone : new.countP (completes map) = 0 := List.countP_eq_zero.mpr fun t ht => by simp [(hquiet t ht).2]
    rw [List.countP_append, hnone, hlaunches, h.counted, Nat.add_zero]
  inState := hstate

theorem Follows.note {t : Traffic} (h : Follows map d log) (hmap : d'.map = d.map)
    (hlaunches : d'.launches = d.launches) (hallowed : t.Allowed map) (hstarts : t.starts = false)
    (hcompletes : t.completes map = false) (hstate : InState map (log ++ [t]) d'.state) : Follows map d' (log ++ [t]) :=
  h.append hmap hlaunches (List.forall_mem_singleton.mpr hallowed)
    (List.forall_mem_singleton.mpr ⟨hstarts, hcompletes⟩) hstate

theorem Follows.configure {desc : Descriptor} {accesses : List Access} {s : σ} (h : Follows map d log)
    (hidle : d.state = .idle)
    (haccesses : ∀ a ∈ accesses, ∃ w ∈ desc.config, ∃ answer, a = .write w.register w.value answer)
    (hd : d' = { d with target := s } ∨
      d' = { d with target := s, state := .configured } ∧ accesses = desc.config.map DevicePart.accepted) :
    Follows map d' (log ++ accesses.map (⟨.configure desc, d.state, ·⟩)) := by
  have hstate := h.inState
  rw [hidle] at hstate ⊢
  have hquiet : ∀ t ∈ accesses.map (Traffic.mk (.configure desc) .idle),
      t.Allowed map ∧ t.starts = false ∧ t.completes map = false ∧ t.acknowledges = false := by
    intro t ht
    obtain ⟨a, ha, rfl⟩ := List.mem_map.mp ht
    obtain ⟨w, hw, answer, rfl⟩ := haccesses a ha
    exact ⟨⟨rfl, w, hw, answer, rfl⟩, rfl, rfl, rfl⟩
  have hrested : Rested map (log ++ accesses.map (⟨.configure desc, .idle, ·⟩)) :=
    Rested.append hstate (fun t ht => (hquiet t ht).2.1) fun t ht => (hquiet t ht).2.2.2
  rcases hd with rfl | ⟨rfl, rfl⟩
  · refine h.append rfl rfl (fun t ht => (hquiet t ht).1) (fun t ht => ⟨(hquiet t ht).2.1, (hquiet t ht).2.2.1⟩) ?_
    rw [hidle]
    exact hrested
  · refine h.append rfl rfl (fun t ht => (hquiet t ht).1) (fun t ht => ⟨(hquiet t ht).2.1, (hquiet t ht).2.2.1⟩)
      ⟨⟨log, desc, [], ?_, List.forall_mem_nil _⟩, hrested⟩
    rw [List.map_map, List.append_nil]
    rfl

theorem Follows.launched {s : σ} (h : Follows map d log) (hconfigured : d.state = .configured) :
    Follows map { d with target := s, state := .running }
      (log ++ [⟨.launch, .configured, .write d.map.start d.map.startValue (.ok ())⟩]) := by
  have hstate := h.inState
  rw [hconfigured] at hstate
  refine ⟨h.map_eq, List.forall_mem_append.mpr ⟨h.allowed, List.forall_mem_singleton.mpr ?_⟩, ?_, ?_, trivial⟩
  · exact ⟨rfl, .ok (), by rw [h.map_eq]⟩
  · intro before t after heq ht
    rcases split_append heq with ⟨rest, hlog, rfl⟩ | ⟨first, rfl, hnew⟩
    · exact h.armed _ _ _ hlog ht
    · -- The only new access is this one, so all before it is what was there.
      rcases List.singleton_eq_append_iff.mp hnew with ⟨rfl, -⟩ | ⟨-, hnil⟩
      · rw [List.append_nil]
        exact hstate
      · cases hnil
  · rw [List.countP_append]
    exact h.counted

theorem Follows.completed {status : Word} {s : σ} (h : Follows map d log) (hverdict : map.verdict status = .ok .done) :
    Follows map { d with target := s, state := .done, launches := d.launches + 1 }
      (log ++ [⟨.poll, .running, .read d.map.status (.ok status)⟩]) := by
  have hcompletes : completes map ⟨.poll, .running, .read d.map.status (.ok status)⟩ := completes_iff.mpr hverdict
  refine ⟨h.map_eq, List.forall_mem_append.mpr ⟨h.allowed, List.forall_mem_singleton.mpr ?_⟩, ?_, ?_, ?_⟩
  · exact ⟨rfl, .ok status, by rw [h.map_eq]⟩
  · exact h.armed.append (List.forall_mem_singleton.mpr rfl)
  · rw [List.countP_append, List.countP_singleton, if_pos hcompletes]
    exact congrArg (· + 1) h.counted
  · exact ⟨log, _, [], rfl, hcompletes, List.forall_mem_nil _⟩

/-- A device that was seen complete is at rest once it was acknowledged, which takes an access or none. -/
theorem Follows.cleared {s : σ} (h : Follows map d log) (hdone : d.state = .done)
    (hnew : map.clear = none ∧ new = [] ∨
      ∃ r, map.clear = some r ∧ new = [⟨.clear, .done, .write r 0 (.ok ())⟩]) :
    Follows map { d with target := s, state := .idle } (log ++ new) := by
  have hstate := h.inState
  rw [hdone] at hstate
  obtain ⟨before, t, after, rfl, ht, hafter⟩ := hstate
  have hnone : after.countP acknowledges = 0 := List.countP_eq_zero.mpr fun u hu => by simp [(hafter u hu).2]
  rcases hnew with ⟨hclear, rfl⟩ | ⟨r, hclear, rfl⟩
  · refine h.append rfl rfl (List.forall_mem_nil _) (List.forall_mem_nil _) ?_
    rw [List.append_nil]
    exact rested_of_completed ht (fun u hu => (hafter u hu).1) fun hsome => by rw [hclear] at hsome; cases hsome
  · refine h.note rfl rfl ⟨rfl, r, .ok (), hclear, rfl⟩ rfl rfl ?_
    rw [List.append_assoc]
    refine rested_of_completed ht (List.forall_mem_append.mpr ⟨fun u hu => (hafter u hu).1, ?_⟩) fun _ => ?_
    · exact List.forall_mem_singleton.mpr rfl
    · exact List.countP_append.trans (by rw [hnone]; rfl)

theorem Follows.ran {p : DevicePart} {accesses : List Access} {answer : Except Error Completion} (h : Follows map d log)
    (hr : DevicePart.Ran d p accesses answer d') : Follows map d' (log ++ accesses.map (⟨p, d.state, ·⟩)) := by
  have hstate := h.inState
  have hmap := h.map_eq
  cases hr with
  | barred p e =>
    rw [List.map_nil, List.append_nil]
    exact h
  | halfConfigured hidle hconfig e s =>
    refine h.configure hidle (fun a ha => ?_) (Or.inl rfl)
    rw [hconfig]
    rcases List.mem_append.mp ha with ha | ha
    · obtain ⟨v, hv, rfl⟩ := List.mem_map.mp ha
      exact ⟨v, List.mem_append_left _ hv, .ok (), rfl⟩
    · exact ⟨_, List.mem_append_right _ List.mem_cons_self, .error e, List.mem_singleton.mp ha⟩
  | configured hidle desc s =>
    refine h.configure hidle (fun a ha => ?_) (Or.inr ⟨rfl, rfl⟩)
    obtain ⟨v, hv, rfl⟩ := List.mem_map.mp ha
    exact ⟨v, hv, .ok (), rfl⟩
  | held hconfigured e s =>
    refine h.note rfl rfl ⟨hconfigured, .error e, by rw [hmap]⟩ rfl rfl ?_
    rw [hconfigured] at hstate ⊢
    exact ⟨hstate.1.append rfl, hstate.2.append (List.forall_mem_singleton.mpr rfl) (List.forall_mem_singleton.mpr rfl)⟩
  | launched hconfigured s =>
    rw [hconfigured]
    exact h.launched hconfigured
  | unread hrunning e s =>
    refine h.note rfl rfl ⟨hrunning, .error e, by rw [hmap]⟩ rfl rfl ?_
    rw [hrunning]
    trivial
  | @faulty hrunning status e hverdict s | @busy hrunning status hverdict s =>
    have hcompletes : completes map ⟨.poll, d.state, .read d.map.status (.ok status)⟩ = false := by
      rw [Bool.eq_false_iff, ne_eq, completes_iff, ← hmap, hverdict]
      exact nofun
    refine h.note rfl rfl ⟨hrunning, .ok status, by rw [hmap]⟩ rfl hcompletes ?_
    rw [hrunning]
    trivial
  | completed hrunning hverdict s =>
    rw [hrunning]
    exact h.completed (hmap ▸ hverdict)
  | observed hdone =>
    rw [List.map_nil, List.append_nil]
    exact h
  | @uncleared hdone r hclear e s =>
    refine h.note rfl rfl ⟨hdone, r, .error e, hmap ▸ hclear, rfl⟩ rfl rfl ?_
    rw [hdone] at hstate ⊢
    obtain ⟨before, t, after, rfl, ht, hafter⟩ := hstate
    refine ⟨before, t, after ++ [_], List.append_assoc .., ht, List.forall_mem_append.mpr ⟨hafter, ?_⟩⟩
    exact List.forall_mem_singleton.mpr ⟨rfl, rfl⟩
  | @cleared hdone r hclear s =>
    rw [hdone]
    exact h.cleared hdone (Or.inr ⟨r, hmap ▸ hclear, rfl⟩)
  | released hdone hclear => exact h.cleared hdone (Or.inl ⟨hmap ▸ hclear, rfl⟩)

theorem Follows.traffic (bus : Bus σ) (h : Follows map d log) (ps : List DevicePart) :
    Follows map (DevicePart.after bus ps d) (log ++ DevicePart.traffic bus ps d) := by
  induction ps generalizing d log with
  | nil =>
    rw [DevicePart.traffic, List.append_nil]
    exact h
  | cons p ps ih =>
    rw [DevicePart.traffic, ← List.append_assoc]
    exact ih (h.ran (p.ran bus d).1)

variable {bus : Bus σ} {e : Error}

end Device

end TileOffload
