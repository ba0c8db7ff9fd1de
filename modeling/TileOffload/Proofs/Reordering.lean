import Mathlib.Data.List.Perm.Basic
import TileOffload.Proofs.TileRun
import TileOffload.Proofs.Transactions

/-! # The order of configuration writes

A configuration write does nothing but fill a register, and a descriptor fills each register once. Main statement: an
accelerator to which the configuration of a descriptor is written in any order, and then its start, comes to the same
state with the same answer, and at the start its registers hold the values of the descriptor. -/

namespace TileOffload

namespace RegisterFile

variable {r s : Word} {v w : Word} {ws vs : List RegisterWrite}

theorem insert_comm_of_lt (h : r < s) (cells : List (Word × Word)) :
    write.insert s w (write.insert r v cells) = write.insert r v (write.insert s w cells) := by
  induction cells with
  | nil => grind [write.insert]
  | cons cell rest ih => grind [write.insert]

theorem write_comm (f : RegisterFile) (h : r ≠ s) : (f.write r v).write s w = (f.write s w).write r v := by
  rcases UInt32.lt_or_lt_of_ne h with hlt | hgt
  · exact congrArg mk (insert_comm_of_lt hlt f.cells)
  · exact (congrArg mk (insert_comm_of_lt hgt f.cells)).symm

/-- The file after writes one after another. -/
def writeAll (f : RegisterFile) (ws : List RegisterWrite) : RegisterFile :=
  ws.foldl (fun f w => f.write w.register w.value) f

theorem writeAll_perm (f : RegisterFile) (h : ws.Perm vs) (hdistinct : (ws.map (·.register)).Nodup) :
    f.writeAll ws = f.writeAll vs := by
  refine h.foldl_eq' (fun x hx y hy f => ?_) f
  by_cases hxy : x = y
  · rw [hxy]
  · exact f.write_comm fun heq => hxy (List.inj_on_of_nodup_map hdistinct hx hy heq)

end RegisterFile

namespace Device

theorem writeAll_snoc {σ : Type} {bus : Bus σ} {ws : List RegisterWrite} {s s' : σ} (w : RegisterWrite)
    (h : writeAll bus ws s = (.ok (), s')) : writeAll bus (ws ++ [w]) s = bus.write w.register w.value s' := by
  induction ws generalizing s with
  | nil =>
    cases h
    rw [List.nil_append, writeAll]
    split <;> rename_i hwrite <;> exact hwrite.symm
  | cons v ws ih =>
    rw [writeAll] at h
    rw [List.cons_append, writeAll]
    split at h
    · exact ih h
    · cases h

end Device

namespace Accelerator

variable {a : Accelerator} {m : Memory} {config order : List RegisterWrite} {desc : Descriptor}

theorem writeAll_registers (hplain : ∀ w ∈ config, a.map.isControl w.register = false) :
    Device.writeAll bus config (a, m) = (.ok (), ({ a with registers := a.registers.writeAll config }, m)) := by
  induction config generalizing a with
  | nil => rfl
  | cons w rest ih =>
    obtain ⟨hw, hrest⟩ := List.forall_mem_cons.mp hplain
    simp only [Device.writeAll, bus_write (write_config m hw)]
    exact ih hrest

theorem read_writeAll (hbuilt : Descriptor.build a.map config = .ok desc) :
    (∀ w ∈ desc.config, (a.registers.writeAll desc.config).read w.register = w.value) ∧
      ∀ r, (∀ w ∈ desc.config, w.register ≠ r) → (a.registers.writeAll desc.config).read r = a.register r := by
  obtain ⟨hconfig, -, hplain, hpairwise⟩ := Descriptor.build_eq_ok hbuilt
  rw [← hconfig] at hplain hpairwise
  obtain ⟨f, hwritten, hread, hkept⟩ := writeAll_config (m := .empty) hplain hpairwise
  obtain rfl : a.registers.writeAll desc.config = f :=
    congrArg (·.2.1.registers) ((writeAll_registers hplain).symm.trans hwritten)
  exact ⟨hread, hkept⟩

/-- The start register is the only one whose value a descriptor has and does not store. -/
theorem read_of_ne_start (hbuilt : Descriptor.build a.map config = .ok desc) {r : Word} (hr : r ≠ a.map.start) :
    (a.registers.writeAll desc.config).read r = (desc.valueOf r).getD (a.register r) := by
  obtain ⟨hread, hkept⟩ := read_writeAll hbuilt
  have hmem : ∀ {v}, desc.valueOf r = some v ↔ ⟨r, v⟩ ∈ desc.config := fun {v} => by
    obtain ⟨-, hstart, -⟩ := Descriptor.build_eq_ok hbuilt
    rw [Descriptor.valueOf_eq_some_iff (Descriptor.nodup_writes hbuilt), Descriptor.writes, List.mem_append,
      List.mem_singleton, hstart, or_iff_left]
    exact fun heq => hr (congrArg RegisterWrite.register heq)
  cases hvalue : desc.valueOf r with
  | some v => exact hread ⟨r, v⟩ (hmem.mp hvalue)
  | none =>
    refine hkept r fun w hw heq => ?_
    have hsome := hmem.mpr (heq ▸ hw : ⟨r, w.value⟩ ∈ desc.config)
    rw [hvalue] at hsome
    cases hsome

theorem read_start (hbuilt : Descriptor.build a.map config = .ok desc) :
    (a.registers.writeAll desc.config).read a.map.start = a.register a.map.start := by
  obtain ⟨hconfig, -, hplain, -⟩ := Descriptor.build_eq_ok hbuilt
  rw [← hconfig] at hplain
  exact (read_writeAll hbuilt).2 _ fun w hw => (RegisterMap.isControl_eq_false_iff.mp (hplain w hw)).1

/-- The configuration of a descriptor for the accelerator, written in any order and followed by the start, does what
    the descriptor's own order does: the same answer, and the same registers, memory, flag and counts. All configuration
    writes are accepted and leave memory alone. The start finds in every register but its own the value that the
    descriptor has for it, or else the value that was there before. The start register is no place for a value: what
    is in it stays. -/
theorem configuration_order_is_free (hbuilt : Descriptor.build a.map config = .ok desc)
    (horder : order.Perm desc.config) (m : Memory) :
    Device.writeAll bus (order ++ [desc.start]) (a, m) = Device.writeAll bus desc.writes (a, m) ∧
    ∃ f : RegisterFile, Device.writeAll bus order (a, m) = (.ok (), ({ a with registers := f }, m)) ∧
      Device.writeAll bus (order ++ [desc.start]) (a, m) =
        bus.write desc.start.register desc.start.value ({ a with registers := f }, m) ∧
      (∀ r, r ≠ a.map.start → f.read r = (desc.valueOf r).getD (a.register r)) ∧
      f.read a.map.start = a.register a.map.start := by
  obtain ⟨hconfig, -, hplain, -⟩ := Descriptor.build_eq_ok hbuilt
  rw [← hconfig] at hplain
  have hdistinct : (desc.config.map (·.register)).Nodup := by
    obtain ⟨-, hws, rfl⟩ := Descriptor.build_eq_ok_iff.mp hbuilt
    exact hws.distinct
  have hown : Device.writeAll bus desc.config (a, m) = _ := writeAll_registers hplain
  have hother : Device.writeAll bus order (a, m) = _ := writeAll_registers fun w hw => hplain w (horder.subset hw)
  rw [← a.registers.writeAll_perm horder.symm hdistinct] at hother
  refine ⟨?_, _, hother, Device.writeAll_snoc _ hother, fun r => read_of_ne_start hbuilt, read_start hbuilt⟩
  rw [Device.writeAll_snoc _ hother, Descriptor.writes, Device.writeAll_snoc _ hown]

/-- An arithmetic unit in whose registers values are left. -/
def leftover : Accelerator :=
  { fresh .alu 2 false with registers := ⟨[(Chip.Alu.loopBound, 8), (Chip.Alu.pointerA, 5)]⟩ }

/-- Written backwards, a configuration replaces one of two values that were left, and its start is refused all the
    same. -/
theorem backward_configuration_same :
    ∃ desc f, Descriptor.build .alu [⟨Chip.Alu.length, 4⟩, ⟨Chip.Alu.loopBound, 4⟩, ⟨Chip.Alu.mode, 9⟩] = .ok desc ∧
      Device.writeAll bus (desc.config.reverse ++ [desc.start]) (leftover, .empty) =
        Device.writeAll bus desc.writes (leftover, .empty) ∧
      (Device.writeAll bus desc.writes (leftover, .empty)).1 = .error (.deviceFault (.unknownMode 9)) ∧
      Device.writeAll bus desc.config.reverse (leftover, .empty) =
        (.ok (), ({ leftover with registers := f }, .empty)) ∧
      f.read Chip.Alu.loopBound = 4 ∧ f.read Chip.Alu.pointerA = 5 := by
  have hbuilt : Descriptor.build leftover.map
      [⟨Chip.Alu.length, 4⟩, ⟨Chip.Alu.loopBound, 4⟩, ⟨Chip.Alu.mode, 9⟩] = .ok _ := rfl
  obtain ⟨hsame, f, hconfig, -, hread, -⟩ := configuration_order_is_free hbuilt (List.reverse_perm _) .empty
  exact ⟨_, f, hbuilt, hsame, rfl, hconfig, hread Chip.Alu.loopBound (by decide), hread Chip.Alu.pointerA (by decide)⟩

/-- A descriptor has a value for the start register, which is not in that register when the accelerator is started. Here
    one pair of words is to be added. -/
theorem start_value_not_held :
    ∃ desc a, Kernel.describeAlu .add ⟨0, 0x10000000, 0x10000004, 0x10000008, 1, 4⟩ = .ok desc ∧
      Descriptor.build .alu desc.config = .ok desc ∧
      Device.writeAll bus desc.config (fresh .alu 0 false, .empty) = (.ok (), (a, .empty)) ∧
      desc.valueOf Chip.Alu.start = some 1 ∧ a.register Chip.Alu.start = 0 ∧
      ¬∀ r, a.register r = (desc.valueOf r).getD ((fresh .alu 0 false).register r) := by
  refine ⟨_, _, rfl, rfl, rfl, rfl, rfl, fun h => ?_⟩
  have hstart := h Chip.Alu.start
  cases hstart

end Accelerator

end TileOffload
