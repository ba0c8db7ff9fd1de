import TileOffload.Accelerator
import TileOffload.Proofs.Checks

/-! # Launches

What the registers hold after a transaction, and the pass that an accelerator then makes of them: the
transactions of the built-in kernels describe the elementwise operation on the operands of the tile. -/

namespace TileOffload

namespace RegisterFile

theorem lookup_insert (r v r' : Word) (cells : List (Word × Word)) :
    (write.insert r v cells).lookup r' = if r' = r then some v else cells.lookup r' := by
  induction cells with
  | nil =>
    rw [write.insert, List.lookup_cons]
    split <;> simp_all
  | cons cell rest ih =>
    obtain ⟨r₁, v₁⟩ := cell
    rw [write.insert]
    split
    · rw [List.lookup_cons]
      split <;> simp_all
    · split
      · rename_i h
        subst h
        rw [List.lookup_cons, List.lookup_cons]
        split <;> simp_all
      · rename_i hne
        rw [List.lookup_cons, ih, List.lookup_cons]
        by_cases h : r' = r
        · subst h
          simp [beq_false_of_ne hne]
        · simp [h]

theorem read_write (f : RegisterFile) (r v r' : Word) : (f.write r v).read r' = if r' = r then v else f.read r' := by
  simp only [read, write, lookup_insert]
  split <;> rfl

end RegisterFile

namespace Descriptor

theorem firstFault_eq_none {map : RegisterMap} {ws : List RegisterWrite} :
    ∀ {earlier : List RegisterWrite}, firstFault map earlier ws = none →
      (∀ w ∈ ws, map.isControl w.register = false) ∧ (∀ v ∈ earlier, ∀ w ∈ ws, w.register ≠ v.register) ∧
      ws.Pairwise fun v w => w.register ≠ v.register := by
  induction ws with
  | nil => exact fun _ => ⟨nofun, fun _ _ => nofun, .nil⟩
  | cons w ws ih =>
    intro earlier h
    rw [firstFault] at h
    split at h
    · cases h
    · rename_i hcontrol
      split at h
      · cases h
      · rename_i hnew
        obtain ⟨hc, he, hp⟩ := ih h
        simp only [List.any_eq_true, beq_iff_eq, not_exists, not_and] at hnew
        refine ⟨?_, ?_, List.pairwise_cons.mpr ⟨fun v hv => he w (by simp) v hv, hp⟩⟩
        · intro v hv
          rcases List.mem_cons.mp hv with rfl | hv
          · exact Bool.not_eq_true _ ▸ hcontrol
          · exact hc v hv
        · intro u hu v hv
          rcases List.mem_cons.mp hv with rfl | hv
          · exact fun heq => hnew u hu heq.symm
          · exact he u (List.mem_append_left _ hu) v hv

theorem build_eq_ok {map : RegisterMap} {config : List RegisterWrite} {d : Descriptor} (h : build map config = .ok d) :
    d.config = config ∧ d.start = ⟨map.start, map.startValue⟩ ∧ (∀ w ∈ config, map.isControl w.register = false) ∧
      config.Pairwise fun v w => w.register ≠ v.register := by
  unfold build at h
  split at h
  · cases h
  · split at h
    · cases h
    · rename_i hfault
      cases h
      obtain ⟨hc, -, hp⟩ := firstFault_eq_none hfault
      exact ⟨rfl, rfl, hc, hp⟩

end Descriptor

namespace Kernel

theorem lengthRegister_eq_ok {what : String} {n : Nat} {w : Word} :
    lengthRegister what n = .ok w ↔ n = w.toNat := by
  unfold lengthRegister
  split
  · rename_i v h
    rw [Except.ok.injEq, Word.ofSize?_eq_some.mp h, UInt32.toNat_inj]
  · rename_i h
    simp only [reduceCtorEq, false_iff]
    exact fun hn => by rw [Word.ofSize?_eq_some.mpr hn] at h; cases h

/-- The kernel drives the device of a built-in kernel, expects the same results, and wherever it comes up
    with a transaction at all, it is that kernel's. -/
structure Follows (k : Kernel) (b : BuiltIn) : Prop where
  map_eq : k.map = b.kernel.map
  reference_eq : k.reference = b.kernel.reference
  describe_eq : ∀ {tile : Tile} {desc : Descriptor}, k.describe tile = .done desc → b.kernel.describe tile = .done desc

theorem BuiltIn.follows (b : BuiltIn) : b.kernel.Follows b := ⟨rfl, rfl, id⟩

theorem ofExcept_eq_done {α : Type} {x : Except Error α} {a : α} : Outcome.ofExcept x = .done a ↔ x = .ok a := by
  cases x <;> simp [Outcome.ofExcept]

theorem BuiltIn.describe_built {b : BuiltIn} {tile : Tile} {desc : Descriptor} (h : b.kernel.describe tile = .done desc) :
    Descriptor.build b.kernel.map desc.config = .ok desc := by
  cases b with
  | mac =>
    simp only [kernel, Kernel.mac, ofExcept_eq_done, describeMac, bind_eq_ok] at h
    obtain ⟨n, -, h⟩ := h
    rw [(Descriptor.build_eq_ok h).1]
    exact h
  | alu mode =>
    simp only [kernel, Kernel.alu, ofExcept_eq_done, describeAlu, bind_eq_ok] at h
    obtain ⟨n, -, h⟩ := h
    rw [(Descriptor.build_eq_ok h).1]
    exact h

/-- The longest transaction of a built-in kernel configures that many registers. -/
def longest : Nat := 13

/-- A built-in kernel has a transaction for every tile whose length fits a register. -/
theorem BuiltIn.exists_describe (b : BuiltIn) (tile : Tile) (h : tile.elements < addressLimit) :
    ∃ desc, b.kernel.describe tile = .done desc ∧ desc.config.length ≤ longest := by
  have hn : ∀ what, lengthRegister what tile.elements = .ok (UInt32.ofNat tile.elements) := by
    intro what
    rw [lengthRegister_eq_ok, UInt32.toNat_ofNat']
    exact (Nat.mod_eq_of_lt h).symm
  cases b with
  | mac =>
    simp only [kernel, Kernel.mac, describeMac, hn]
    exact ⟨_, rfl, by simp [longest]⟩
  | alu mode =>
    simp only [kernel, Kernel.alu, describeAlu, hn]
    exact ⟨_, rfl, by simp [longest, Chip.Alu.strides]⟩

end Kernel

/-- Built-in kernels drive devices without error bits: a status of zero says done, and the busy bits say busy. -/
theorem Kernel.BuiltIn.verdict_status (b : Kernel.BuiltIn) :
    b.kernel.map.verdict 0 = .ok .done ∧ b.kernel.map.verdict b.kernel.map.busyMask = .ok .busy := by
  cases b with
  | mac => exact ⟨rfl, rfl⟩
  | alu mode =>
    simp [Kernel.BuiltIn.kernel, Kernel.alu, RegisterMap.verdict, RegisterMap.alu, Chip.Alu.busyMask]

namespace Accelerator

variable {a : Accelerator}

theorem write_config {r v : Word} (m : Memory) (h : a.map.isControl r = false) :
    a.write m r v = .ok ({ a with registers := a.registers.write r v }, m) := by
  simp only [RegisterMap.isControl, Bool.or_eq_false_iff, beq_eq_false_iff_ne] at h
  obtain ⟨⟨hstart, hstatus⟩, hclear⟩ := h
  rw [write, if_neg hstart, configure, if_neg hclear, if_neg hstatus]
  rfl

theorem register_written {written rest : List RegisterWrite} {r : RegisterWrite}
    (hdistinct : (written ++ r :: rest).Pairwise fun v w => w.register ≠ v.register)
    (hregs : ∀ v ∈ written, a.register v.register = v.value) :
    ∀ v ∈ written ++ [r],
      ({ a with registers := a.registers.write r.register r.value } : Accelerator).register v.register = v.value := by
  intro v hv
  simp only [register, RegisterFile.read_write]
  rcases List.mem_append.mp hv with hv | hv
  · rw [if_neg fun heq => (List.pairwise_append.mp hdistinct).2.2 v hv r List.mem_cons_self heq.symm]
    exact hregs v hv
  · obtain rfl := List.mem_singleton.mp hv
    rw [if_pos rfl]

/-- The pass of a tile. -/
def passOf (b : Kernel.BuiltIn) (tile : Tile) : Pass :=
  ⟨tile.a, tile.b, tile.o, tile.elements, b.kernel.reference⟩

theorem ofMap?_eq_some {m : RegisterMap} {p : Personality} (h : Personality.ofMap? m = some p) : p.map = m := by
  simpa using List.find?_some h

/-- Registers that hold the transaction of a tile describe the pass of the tile. -/
theorem configuredPass_of_describe {b : Kernel.BuiltIn} {tile : Tile} {desc : Descriptor}
    (hp : Personality.ofMap? b.kernel.map = some a.personality) (hd : b.kernel.describe tile = .done desc)
    (hr : ∀ w ∈ desc.config, a.register w.register = w.value) : a.configuredPass = .ok (passOf b tile) := by
  cases b with
  | mac =>
    simp only [Kernel.BuiltIn.kernel, Kernel.mac, Kernel.ofExcept_eq_done, Kernel.describeMac, bind_eq_ok,
      Kernel.lengthRegister_eq_ok] at hd
    obtain ⟨n, hn, hbuild⟩ := hd
    rw [(Descriptor.build_eq_ok hbuild).1] at hr
    simp only [List.forall_mem_cons] at hr
    obtain ⟨ha, hb, ho, hi, hl, hm, -⟩ := hr
    have hmac : a.personality = .mac := Option.some.inj hp.symm
    rw [configuredPass, hmac]
    simp only [macPass, hm, hi, ha, hb, ho, hl, ne_eq, not_true_eq_false, if_false, ← hn]
    rfl
  | alu mode =>
    simp only [Kernel.BuiltIn.kernel, Kernel.alu, Kernel.ofExcept_eq_done, Kernel.describeAlu, bind_eq_ok,
      Kernel.lengthRegister_eq_ok] at hd
    obtain ⟨n, hn, hbuild⟩ := hd
    rw [(Descriptor.build_eq_ok hbuild).1] at hr
    simp only [List.forall_mem_append, List.forall_mem_cons, List.forall_mem_map] at hr
    obtain ⟨⟨⟨hbound, -⟩, hstrides⟩, ha, hb, ho, -, hm, hl, -⟩ := hr
    have halu : a.personality = .alu := Option.some.inj hp.symm
    have hmode : AluMode.ofRegister? mode.register = some mode := by cases mode <;> rfl
    have hunit : (Chip.Alu.strides.find? fun r => a.register r != Chip.Alu.unitStride) = none :=
      List.find?_eq_none.mpr fun r hr => by simp [hstrides r hr]
    rw [configuredPass, halu]
    simp only [aluPass, hm, hmode, hunit, hbound, ha, hb, ho, hl, ne_eq, not_true_eq_false, if_false, ← hn]
    rfl

theorem personality_read (a : Accelerator) (r : Word) : (a.read r).2.personality = a.personality := by
  unfold read status
  split
  · split
    · rfl
    · split
      · rfl
      · split <;> rfl
  · split <;> rfl

theorem write_clear {r v : Word} (m : Memory) (h : a.map.clear = some r) :
    a.write m r v = .ok ({ a with running := false }, m) := by
  have hstart : r ≠ a.map.start := by
    cases hp : a.personality with
    | mac =>
      rw [map, hp] at h ⊢
      cases h
      decide
    | alu =>
      rw [map, hp] at h
      cases h
  rw [write, if_neg hstart, configure, if_pos h]
  rfl

/-- A start is accepted when the registers hold the transaction of a tile in the TCDM. -/
theorem begin_of_describe {b : Kernel.BuiltIn} {tile : Tile} {desc : Descriptor}
    (hp : Personality.ofMap? b.kernel.map = some a.personality) (hd : b.kernel.describe tile = .done desc)
    (hr : ∀ w ∈ desc.config, a.register w.register = w.value) (hrunning : a.running = false)
    (hin : ∀ addr ∈ [tile.a, tile.b, tile.o], Chip.inTcdm addr (tile.elements * Chip.elementBytes) = true) :
    a.begin = .ok (passOf b tile) := by
  have hall : ([tile.a, tile.b, tile.o].find? fun addr => !Chip.inTcdm addr (tile.elements * Chip.elementBytes)) =
      none := List.find?_eq_none.mpr fun addr haddr => by simp [hin addr haddr]
  have hoperands : a.checkOperands (passOf b tile) = .ok () := by simp only [checkOperands, passOf, hall]
  simp only [begin, unless_eq_ok, bind_eq_ok, pure_eq_ok]
  exact ⟨by simp [hrunning], _, configuredPass_of_describe hp hd hr, (), hoperands, rfl⟩

/-- The status of a started accelerator while it is busy, and once it no longer is. -/
theorem status_started (hrunning : a.running = true) (hstuck : a.stuck = false) :
    a.status = if 0 < a.busyLeft then (a.map.busyMask, { a with busyLeft := a.busyLeft - 1 })
      else (0, { a with running := a.map.clear.isSome }) := by
  simp [status, hrunning, hstuck]

theorem begin_eq_ok {p : Pass} (h : a.begin = .ok p) : a.configuredPass = .ok p := by
  simp only [begin, unless_eq_ok, bind_eq_ok, pure_eq_ok] at h
  obtain ⟨-, q, hq, -, -, rfl⟩ := h
  exact hq

end Accelerator

end TileOffload
