import Mathlib.Data.List.Induction
import Mathlib.Data.List.Nodup
import TileOffload.Proofs.Starting

/-! # What a builder accepts

A builder looks at its writes one after another, each beside those before it. Main statement: it accepts exactly the
lists of writes that configure the device as a whole, gives back what was put in, and of any other list it names the
first write that is out of place. -/

namespace TileOffload

namespace RegisterMap

variable {map : RegisterMap} {ws : List RegisterWrite} {w : RegisterWrite}

/-- The writes configure the device: no two of them are to one register, and none is to a control register. -/
structure Admits (map : RegisterMap) (ws : List RegisterWrite) : Prop where
  plain : ∀ w ∈ ws, w.register ≠ map.start ∧ w.register ≠ map.status ∧ map.clear ≠ some w.register
  distinct : (ws.map (·.register)).Nodup

theorem isControl_eq_false_iff {r : Word} :
    map.isControl r = false ↔ r ≠ map.start ∧ r ≠ map.status ∧ map.clear ≠ some r := by
  rw [← Bool.not_eq_true, isControl_iff, not_or, not_or]

theorem admits_nil (map : RegisterMap) : map.Admits [] := ⟨List.forall_mem_nil _, List.nodup_nil⟩

theorem admits_snoc_iff :
    map.Admits (ws ++ [w]) ↔
      map.Admits ws ∧ map.isControl w.register = false ∧ w.register ∉ ws.map (·.register) := by
  constructor
  · rintro ⟨hplain, hdistinct⟩
    rw [List.map_append, List.nodup_append] at hdistinct
    obtain ⟨hws, -, hnew⟩ := hdistinct
    refine ⟨⟨fun v hv => hplain v (List.mem_append_left _ hv), hws⟩, ?_, fun hmem => ?_⟩
    · exact isControl_eq_false_iff.mpr (hplain w (List.mem_append_right _ List.mem_cons_self))
    · exact hnew _ hmem _ List.mem_cons_self rfl
  · rintro ⟨⟨hplain, hdistinct⟩, hcontrol, hnew⟩
    refine ⟨List.forall_mem_append.mpr ⟨hplain, ?_⟩, ?_⟩
    · exact List.forall_mem_singleton.mpr (isControl_eq_false_iff.mp hcontrol)
    · rw [List.map_append, List.map_singleton, ← List.concat_eq_append]
      exact hdistinct.concat hnew

end RegisterMap

namespace Descriptor

variable {map : RegisterMap} {ws vs earlier : List RegisterWrite} {w : RegisterWrite} {fault : DescriptorFault}
  {d : Descriptor}

/-! ### The scan -/

theorem firstFault_append :
    firstFault map earlier (ws ++ vs) = (firstFault map earlier ws).or (firstFault map (earlier ++ ws) vs) := by
  induction ws generalizing earlier with
  | nil => simp [firstFault]
  | cons w ws ih =>
    rw [List.cons_append, firstFault, firstFault]
    split
    · rfl
    · split
      · rfl
      · rw [ih, List.append_assoc, List.singleton_append]

theorem firstFault_singleton :
    firstFault map earlier [w] =
      if map.isControl w.register then some (.controlRegister map.name w.register)
      else if w.register ∈ earlier.map (·.register) then some (.writtenTwice map.name w.register)
      else none := by
  have hany : (earlier.any (·.register == w.register)) = true ↔ w.register ∈ earlier.map (·.register) := by
    simp only [List.any_eq_true, beq_iff_eq, List.mem_map]
  simp only [firstFault, hany]

/-- The scan from write to write comes to the global condition. -/
theorem firstFault_eq_none_iff : firstFault map [] ws = none ↔ map.Admits ws := by
  induction ws using List.reverseRecOn with
  | nil => exact iff_of_true rfl (RegisterMap.admits_nil map)
  | append_singleton ws w ih =>
    rw [firstFault_append, Option.or_eq_none_iff, ih, List.nil_append, firstFault_singleton,
      RegisterMap.admits_snoc_iff]
    refine and_congr_right fun _ => ?_
    split
    · simp_all
    · split <;> simp_all

theorem firstFault_eq_some (h : firstFault map [] ws = some fault) :
    ∃ earlier w later, ws = earlier ++ w :: later ∧ map.Admits earlier ∧ firstFault map earlier [w] = some fault := by
  induction ws using List.reverseRecOn with
  | nil => cases h
  | append_singleton ws w ih =>
    rw [firstFault_append] at h
    cases hws : firstFault map [] ws with
    | none =>
      rw [hws, Option.none_or, List.nil_append] at h
      exact ⟨ws, w, [], rfl, firstFault_eq_none_iff.mp hws, h⟩
    | some fault' =>
      rw [hws, Option.some_or] at h
      obtain ⟨earlier, v, later, rfl, hearlier, hfault⟩ := ih (hws.trans h)
      exact ⟨earlier, v, later ++ [w], by rw [List.append_assoc, List.cons_append], hearlier, hfault⟩

/-! ### Descriptors -/

theorem build_eq_ok_iff :
    build map ws = .ok d ↔ ws ≠ [] ∧ map.Admits ws ∧ d = ⟨ws, ⟨map.start, map.startValue⟩⟩ := by
  unfold build
  split
  · rename_i hempty
    simp [List.isEmpty_iff.mp hempty]
  · rename_i hsome
    rw [List.isEmpty_iff] at hsome
    rw [← firstFault_eq_none_iff]
    cases firstFault map [] ws with
    | none => simp [hsome, eq_comm]
    | some fault => simp

theorem build_eq_error {e : Error} (h : build map ws = .error e) :
    ws = [] ∧ e = .invalidDescriptor (.empty map.name) ∨
      ∃ fault, e = .invalidDescriptor fault ∧ firstFault map [] ws = some fault := by
  unfold build at h
  split at h
  · rename_i hempty
    cases h
    exact Or.inl ⟨List.isEmpty_iff.mp hempty, rfl⟩
  · cases hfault : firstFault map [] ws with
    | none => rw [hfault] at h; cases h
    | some fault =>
      rw [hfault] at h
      cases h
      exact Or.inr ⟨fault, rfl, rfl⟩

/-- Registers that are all different are looked up as in a finite map. -/
theorem valueOf_eq_some_iff (h : (d.writes.map (·.register)).Nodup) {r v : Word} :
    d.valueOf r = some v ↔ ⟨r, v⟩ ∈ d.writes := by
  have hsame : ∀ {x y : RegisterWrite}, x ∈ d.writes → y ∈ d.writes → x.register = y.register → x = y :=
    fun hx hy heq => List.inj_on_of_nodup_map h hx hy heq
  simp only [valueOf, Option.map_eq_some_iff]
  constructor
  · rintro ⟨w, hw, rfl⟩
    have hr : w.register = r := by simpa using List.find?_some hw
    exact hr ▸ List.mem_of_find?_eq_some hw
  · intro hmem
    have hfound : (d.writes.find? (·.register == r)).isSome = true :=
      List.find?_isSome.mpr ⟨_, hmem, beq_self_eq_true r⟩
    obtain ⟨w, hw⟩ := Option.isSome_iff_exists.mp hfound
    have hr : w.register = r := by simpa using List.find?_some hw
    obtain rfl := hsame (List.mem_of_find?_eq_some hw) hmem hr
    exact ⟨_, hw, rfl⟩

theorem nodup_writes (h : build map ws = .ok d) : (d.writes.map (·.register)).Nodup := by
  obtain ⟨-, hws, rfl⟩ := build_eq_ok_iff.mp h
  rw [writes, List.map_append, List.map_singleton, ← List.concat_eq_append]
  refine hws.distinct.concat fun hmem => ?_
  obtain ⟨w, hw, hstart⟩ := List.mem_map.mp hmem
  exact (hws.plain w hw).1 hstart

end Descriptor

/-- The write that a call adds. -/
def BuilderCall.entry : BuilderCall → RegisterWrite
  | baseAddr register value | shape register value | stride register value | write register value => ⟨register, value⟩

namespace DescriptorBuilder

theorem callAll_eq (b : DescriptorBuilder) (calls : List BuilderCall) :
    b.callAll calls = { b with config := b.config ++ calls.map BuilderCall.entry } := by
  induction calls generalizing b with
  | nil => simp [callAll]
  | cons c calls ih =>
    have hcall : b.call c = { b with config := b.config ++ [c.entry] } := by cases c <;> rfl
    rw [callAll, List.foldl_cons, ← callAll, hcall, ih, List.map_cons, List.append_assoc, List.singleton_append]

theorem foldl_write (b : DescriptorBuilder) (ws : List RegisterWrite) :
    ws.foldl (fun b w => b.write w.register w.value) b = { b with config := b.config ++ ws } := by
  induction ws generalizing b with
  | nil => simp
  | cons w ws ih => rw [List.foldl_cons, ih, write, List.append_assoc, List.singleton_append]

theorem build_callAll (map : RegisterMap) (calls : List BuilderCall) :
    ((begin map).callAll calls).build = Descriptor.build map (calls.map BuilderCall.entry) := by
  rw [callAll_eq]
  rfl

/-- Writes are added to a builder for any device, by calls of any kinds in any order. There is a descriptor exactly if
    there are writes, each to a register of its own, and none to a control register of the device. Its writes are
    those, in their order, and then the start, and it knows for every register the value that is written there.
    Otherwise the message tells the first write that is out of place, where a control register is told before a second
    write. Base addresses, shapes and strides together are the same as calls with these writes in this order. -/
theorem accepts_exactly_transactions (map : RegisterMap) (calls : List BuilderCall) :
    ((∃ d, ((begin map).callAll calls).build = .ok d) ↔
      calls ≠ [] ∧ map.Admits (calls.map BuilderCall.entry)) ∧
    (∀ d, ((begin map).callAll calls).build = .ok d →
      d.writes = calls.map BuilderCall.entry ++ [⟨map.start, map.startValue⟩] ∧
      d.config = calls.map BuilderCall.entry ∧ (d.writes.map (·.register)).Nodup ∧
      ∀ r v, d.valueOf r = some v ↔ ⟨r, v⟩ ∈ d.writes) ∧
    (∀ e, ((begin map).callAll calls).build = .error e →
      (calls = [] ∧ e.message = s!"Invalid descriptor: {map.name}: descriptor has no configuration writes") ∨
      ∃ earlier w later, calls.map BuilderCall.entry = earlier ++ w :: later ∧ map.Admits earlier ∧
        ((map.isControl w.register = true ∧ e.message =
            s!"Invalid descriptor: {map.name}: register {Numeral.hex w.register.toNat} is a control register") ∨
          (map.isControl w.register = false ∧ w.register ∈ earlier.map (·.register) ∧ e.message =
            s!"Invalid descriptor: {map.name}: register {Numeral.hex w.register.toNat} written twice"))) ∧
    ∀ bases shapes strides, bases ++ shapes ++ strides = calls.map BuilderCall.entry →
      Descriptor.ofParts map bases shapes strides = ((begin map).callAll calls).build := by
  simp only [build_callAll]
  refine ⟨?_, fun d hd => ?_, fun e he => ?_, fun bases shapes strides hparts => ?_⟩
  · simp only [Descriptor.build_eq_ok_iff, exists_and_left, exists_eq, and_true, ne_eq, List.map_eq_nil_iff]
  · have hdistinct := Descriptor.nodup_writes hd
    obtain ⟨-, -, rfl⟩ := Descriptor.build_eq_ok_iff.mp hd
    exact ⟨rfl, rfl, hdistinct, fun r v => Descriptor.valueOf_eq_some_iff hdistinct⟩
  · rcases Descriptor.build_eq_error he with ⟨hnil, rfl⟩ | ⟨fault, rfl, hfault⟩
    · exact Or.inl ⟨List.map_eq_nil_iff.mp hnil, rfl⟩
    · obtain ⟨earlier, w, later, hsplit, hearlier, hfault⟩ := Descriptor.firstFault_eq_some hfault
      refine Or.inr ⟨earlier, w, later, hsplit, hearlier, ?_⟩
      rw [Descriptor.firstFault_singleton] at hfault
      split at hfault
      · rename_i hcontrol
        cases hfault
        exact Or.inl ⟨hcontrol, rfl⟩
      · rename_i hcontrol
        split at hfault
        · rename_i htwice
          cases hfault
          exact Or.inr ⟨Bool.eq_false_iff.mpr hcontrol, htwice, rfl⟩
        · cases hfault
  · rw [← hparts]
    simp only [Descriptor.ofParts, baseAddr, shape, stride, foldl_write]
    rfl

/-- A pointer and a length make a descriptor, which ends with the start. -/
theorem pointer_and_length_accepted :
    ∃ d, ((begin .alu).callAll [.baseAddr Chip.Alu.pointerA 5, .shape Chip.Alu.length 4]).build = .ok d ∧
      d.writes = [⟨Chip.Alu.pointerA, 5⟩, ⟨Chip.Alu.length, 4⟩, ⟨Chip.Alu.start, 1⟩] ∧
      d.valueOf Chip.Alu.length = some 4 := by
  obtain ⟨haccepts, hwrites, -⟩ :=
    accepts_exactly_transactions .alu [.baseAddr Chip.Alu.pointerA 5, .shape Chip.Alu.length 4]
  obtain ⟨d, hd⟩ := haccepts.mpr ⟨List.cons_ne_nil _ _, by decide, by decide⟩
  obtain ⟨hws, -, -, hvalue⟩ := hwrites d hd
  exact ⟨d, hd, hws, (hvalue _ _).mpr (hws ▸ List.mem_cons_of_mem _ List.mem_cons_self)⟩

/-- A second write to a register is told, and not the write to a control register after it. -/
example : ((begin .alu).callAll [.shape Chip.Alu.length 8, .stride Chip.Alu.loopBound 1, .stride Chip.Alu.loopBound 4,
    .write Chip.Alu.start 0]).build = .error (.invalidDescriptor (.writtenTwice "snax-alu" Chip.Alu.loopBound)) := rfl

end DescriptorBuilder

end TileOffload
