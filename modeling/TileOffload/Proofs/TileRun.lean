import TileOffload.Proofs.FlatRefinement
import TileOffload.Proofs.Service

/-! # A tile on an accelerator

The engine of a built-in kernel over the accelerator that the kernel drives. Main statement: a tile whose operands
lie in the TCDM is computed whatever the registers still hold from before, its results and nothing else is written,
and the device is left as it was found, ready for the next tile. -/

namespace TileOffload

/-- The operands of the tile are rows of words in the TCDM. They may overlap. -/
def Tile.InTcdm (t : Tile) : Prop :=
  ∀ l, 4 ∣ (t.addr l).toNat ∧ Chip.inTcdm (t.addr l) (t.elements * Chip.elementBytes) = true

/-- The tile has its results, made of what its operands were before, and nothing else has changed. -/
structure Tile.Computed (t : Tile) (k : Kernel) (m m' : Memory) : Prop where
  results : ∀ i < t.elements, m'.flat.word (t.o.toNat + 4 * i) =
    k.reference (m.flat.word (t.a.toNat + 4 * i)) (m.flat.word (t.b.toNat + 4 * i))
  kept : ∀ x, ¬(t.o.toNat ≤ x ∧ x < t.o.toNat + 4 * t.elements) → m'.byteAt? x = m.byteAt? x

variable {b : Kernel.BuiltIn} {tile : Tile} {desc : Descriptor} {m m' : Memory} {backing : Nat}

theorem Tile.InTcdm.maps (h : tile.InTcdm) (hm : m.Snax backing) (l : Lane) :
    m.maps (tile.addr l) (tile.elements * Bytes.perWord) = true :=
  hm.maps_tcdm (Chip.inTcdm_iff.mp (h l).2)

theorem Tile.InTcdm.elements_lt (h : tile.InTcdm) : tile.elements < addressLimit := by
  have hwithin := (Chip.inTcdm_iff.mp (h .a).2).2
  have hend : Chip.tcdm.stop < addressLimit := by decide
  have hbytes : tile.elements ≤ tile.elements * Chip.elementBytes := Nat.le_mul_of_pos_right _ (by decide)
  exact Nat.lt_of_le_of_lt (Nat.le_trans hbytes (Nat.le_trans (Nat.le_add_left _ _) hwithin)) hend

/-- Results of two rows of words that are written over a third are made of what the rows were before, and nothing else
    has changed. -/
theorem Memory.combined_of_writeWords {f : Word → Word → Word} {x y o : Word} {n : Nat} {xs ys : List Word}
    (hd : m.Disjoint) (hxs : m.readWords x n = .ok xs) (hys : m.readWords y n = .ok ys)
    (hwrite : m.writeWords o (List.zipWith f xs ys) = .ok m') :
    (∀ i < n, m'.flat.word (o.toNat + 4 * i) = f (m.flat.word (x.toNat + 4 * i)) (m.flat.word (y.toNat + 4 * i))) ∧
      m.Wrote m' ⟨o.toNat, Bytes.perWord * n⟩ := by
  have hx := Memory.readWords_eq_words hd hxs
  have hy := Memory.readWords_eq_words hd hys
  have hlength : (List.zipWith f xs ys).length = n := by simp [hx, hy]
  constructor
  · intro i hi
    rw [Memory.flat_of_writeWords hd hwrite]
    refine FlatMemory.word_put ?_
    simp [hx, hy, List.getElem?_range hi]
  · rw [← hlength]
    exact (Memory.wrote_writeWords hd hwrite).1

theorem Memory.Wrote.kept {s : Span} (h : m.Wrote m' s) {x : Nat} (hx : ¬(s.start ≤ x ∧ x < s.stop)) :
    m'.byteAt? x = m.byteAt? x := by
  refine h.apart ⟨x, 1⟩ ?_ x (Nat.le_refl x) (Nat.lt_succ_self x)
  simp only [Span.Apart, Span.stop] at hx ⊢
  omega

/-- Results of both operands that are written over the output compute the tile. -/
theorem Tile.computed_of_writeWords {k : Kernel} {xs ys : List Word} (hd : m.Disjoint)
    (hxs : m.readWords tile.a tile.elements = .ok xs) (hys : m.readWords tile.b tile.elements = .ok ys)
    (hwrite : m.writeWords tile.o (List.zipWith k.reference xs ys) = .ok m') : tile.Computed k m m' := by
  obtain ⟨hresults, hwrote⟩ := Memory.combined_of_writeWords hd hxs hys hwrite
  exact ⟨hresults, fun x hx => hwrote.kept hx⟩

namespace Accelerator

variable {a : Accelerator}

theorem bus_write {r v : Word} {s : Accelerator × Memory} (h : a.write m r v = .ok s) :
    bus.write r v (a, m) = (.ok (), s) := by
  simp only [bus, h]

/-- Writes to different registers, none of them a control register, are all there in the end. -/
theorem writeAll_config {config : List RegisterWrite} (hc : ∀ w ∈ config, a.map.isControl w.register = false)
    (hp : config.Pairwise fun v w => w.register ≠ v.register) :
    ∃ f : RegisterFile, Device.writeAll bus config (a, m) = (.ok (), ({ a with registers := f }, m)) ∧
      (∀ w ∈ config, f.read w.register = w.value) ∧
      ∀ r, (∀ w ∈ config, w.register ≠ r) → f.read r = a.registers.read r := by
  -- On the writes: what the first has written stays, since no later one is to its register.
  induction config generalizing a with
  | nil => exact ⟨a.registers, rfl, nofun, fun _ _ => rfl⟩
  | cons w rest ih =>
    obtain ⟨hfirst, hrest⟩ := List.pairwise_cons.mp hp
    have hwrite := write_config (v := w.value) m (hc w List.mem_cons_self)
    obtain ⟨f, hall, hread, hkept⟩ :=
      ih (a := { a with registers := a.registers.write w.register w.value })
        (fun v hv => hc v (List.mem_cons_of_mem _ hv)) hrest
    refine ⟨f, ?_, fun v hv => ?_, fun r hr => ?_⟩
    · simp only [Device.writeAll, bus, hwrite]
      exact hall
    · rcases List.mem_cons.mp hv with rfl | hv
      · rw [hkept _ hfirst, RegisterFile.read_write, if_pos rfl]
      · exact hread v hv
    · rw [hkept r fun v hv => hr v (List.mem_cons_of_mem _ hv), RegisterFile.read_write,
        if_neg (hr w List.mem_cons_self).symm]

theorem start_of_describe (hp : Personality.ofMap? b.kernel.map = some a.personality)
    (hdesc : b.kernel.describe tile = .done desc) (hr : ∀ w ∈ desc.config, a.register w.register = w.value)
    (hrunning : a.running = false) (hin : tile.InTcdm) (hm : m.Snax backing) :
    ∃ m', a.start m = .ok (a.started tile.elements, m') ∧ m'.Snax backing ∧ tile.Computed b.kernel m m' := by
  have hbegin : a.begin = .ok (passOf b tile) := by
    refine begin_of_describe hp hdesc hr hrunning ?_
    simp only [List.forall_mem_cons]
    exact ⟨(hin .a).2, (hin .b).2, (hin .o).2, nofun⟩
  obtain ⟨xs, hxs⟩ := Memory.exists_readWords (hin .a).1 (hin.maps hm .a)
  obtain ⟨ys, hys⟩ := Memory.exists_readWords (hin .b).1 (hin.maps hm .b)
  have hlength : (List.zipWith b.kernel.reference xs ys).length = tile.elements := by
    simp [Memory.readWords_eq_words hm.2 hxs, Memory.readWords_eq_words hm.2 hys]
  obtain ⟨m', hwrite⟩ : ∃ m', m.writeWords tile.o (List.zipWith b.kernel.reference xs ys) = .ok m' :=
    Memory.exists_writeWords (hin .o).1 (hlength ▸ hin.maps hm .o)
  refine ⟨m', ?_, (Memory.wrote_writeWords hm.2 hwrite).1.snax hm, Tile.computed_of_writeWords hm.2 hxs hys hwrite⟩
  simp only [start, bind_eq_ok, pure_eq_ok]
  exact ⟨_, hbegin, xs, hxs, ys, hys, m', hwrite, rfl⟩

end Accelerator

namespace Device

variable {d : Device (Accelerator × Memory)} {L n : Nat} {policy : WaitPolicy} {clock : Stopwatch}

/-- The device of a built-in kernel, busy for `L` polls after each start. What its registers hold is left open. -/
structure Attached (b : Kernel.BuiltIn) (L backing : Nat) (d : Device (Accelerator × Memory)) : Prop where
  map_eq : d.map = b.kernel.map
  personality : Personality.ofMap? b.kernel.map = some d.target.1.personality
  latency : d.target.1.latency = L
  stuck : d.target.1.stuck = false
  memory : d.target.2.Snax backing

/-- A device that can take a tile. -/
structure Ready (b : Kernel.BuiltIn) (L backing : Nat) (d : Device (Accelerator × Memory)) : Prop
    extends d.Attached b L backing where
  state : d.state = .idle
  running : d.target.1.running = false

/-- A device that will be busy for `n` more polls. -/
structure Launched (b : Kernel.BuiltIn) (L backing n : Nat) (d : Device (Accelerator × Memory)) : Prop
    extends d.Attached b L backing where
  state : d.state = .running
  running : d.target.1.running = true
  busyLeft : d.target.1.busyLeft = n

/-- A device whose status has said that it is done. -/
structure Finished (b : Kernel.BuiltIn) (L backing : Nat) (d : Device (Accelerator × Memory)) : Prop
    extends d.Attached b L backing where
  state : d.state = .done
  running : d.target.1.running = d.map.clear.isSome

theorem Attached.map_target (h : d.Attached b L backing) : d.target.1.map = d.map :=
  (Accelerator.ofMap?_eq_some h.personality).trans h.map_eq.symm

/-- A ready device starts with the transaction of a tile, and the tile is computed at once. -/
theorem start_ready (h : d.Ready b L backing) (hdesc : b.kernel.describe tile = .done desc) (hin : tile.InTcdm) :
    ∃ d', d.start Accelerator.bus desc = (.ok (), d') ∧ d'.Launched b L backing L ∧ d'.launches = d.launches ∧
      d'.target.1.launches = d.target.1.launches + 1 ∧ tile.Computed b.kernel d.target.2 d'.target.2 := by
  have htarget := h.map_target
  obtain ⟨⟨hmap, hp, hlatency, hstuck, hm⟩, hidle, hrunning⟩ := h
  obtain ⟨hcontrol, hdistinct⟩ := World.config_of_describe b.follows hdesc
  rw [← hmap, ← htarget] at hcontrol
  obtain ⟨f, hall, hread, -⟩ := Accelerator.writeAll_config (m := d.target.2) hcontrol hdistinct
  obtain ⟨m', hstart, hm', hcomputed⟩ :=
    Accelerator.start_of_describe (a := { d.target.1 with registers := f }) hp hdesc hread hrunning hin hm
  have hconfigure : d.configure Accelerator.bus desc = (.ok (), { d with
      state := .configured, target := ({ d.target.1 with registers := f }, d.target.2) }) := by
    simp only [configure, checkDescriptor_ok hmap hdesc hidle, hall]
  have hwrite : Accelerator.bus.write d.map.start d.map.startValue ({ d.target.1 with registers := f }, d.target.2) =
      (.ok (), ({ d.target.1 with registers := f } : Accelerator).started tile.elements, m') := by
    rw [← htarget]
    exact Accelerator.bus_write ((if_pos rfl).trans hstart)
  refine ⟨{ d with
    state := .running
    target := (({ d.target.1 with registers := f } : Accelerator).started tile.elements, m') }, ?_,
    ⟨⟨hmap, hp, hlatency, hstuck, hm'⟩, rfl, rfl, hlatency⟩, rfl, rfl, hcomputed⟩
  simp only [start, hconfigure, launch, expect, if_true, hwrite]

theorem poll_launched (h : d.Launched b L backing n) :
    d.poll Accelerator.bus = { d with target := (d.target.1.status.2, d.target.2) }.observe d.target.1.status.1 := by
  have hread : Accelerator.bus.read d.map.status d.target =
      (.ok d.target.1.status.1, d.target.1.status.2, d.target.2) := by
    rw [← h.map_target]
    simp only [Accelerator.bus, Accelerator.read, if_true]
  simp only [poll, checkPoll, h.state, hread]

theorem poll_busy (h : d.Launched b L backing (n + 1)) :
    ∃ d', d.poll Accelerator.bus = (.ok .busy, d') ∧ d'.Launched b L backing n ∧ d'.launches = d.launches ∧
      d'.target.1.launches = d.target.1.launches ∧ d'.target.2 = d.target.2 := by
  have hpoll := poll_launched h
  have htarget := h.map_target
  obtain ⟨⟨hmap, hp, hlatency, hstuck, hm⟩, hstate, hrunning, hleft⟩ := h
  rw [Accelerator.status_started hrunning hstuck, if_pos (hleft ▸ Nat.succ_pos n), htarget] at hpoll
  have hverdict := b.verdict_status.2
  rw [← hmap] at hverdict
  simp only [observe, hverdict] at hpoll
  exact ⟨_, hpoll, ⟨⟨hmap, hp, hlatency, hstuck, hm⟩, hstate, hrunning, hleft ▸ Nat.add_sub_cancel n 1⟩, rfl, rfl, rfl⟩

theorem poll_done (h : d.Launched b L backing 0) :
    ∃ d', d.poll Accelerator.bus = (.ok .done, d') ∧ d'.Finished b L backing ∧ d'.launches = d.launches + 1 ∧
      d'.target.1.launches = d.target.1.launches ∧ d'.target.2 = d.target.2 := by
  have hpoll := poll_launched h
  have htarget := h.map_target
  obtain ⟨⟨hmap, hp, hlatency, hstuck, hm⟩, hstate, hrunning, hleft⟩ := h
  rw [Accelerator.status_started hrunning hstuck, if_neg (hleft ▸ Nat.lt_irrefl 0), htarget] at hpoll
  have hverdict := b.verdict_status.1
  rw [← hmap] at hverdict
  simp only [observe, hverdict] at hpoll
  exact ⟨_, hpoll, ⟨⟨hmap, hp, hlatency, hstuck, hm⟩, rfl, rfl⟩, rfl, rfl, rfl⟩

/-- A launched device is polled until it is done, if the wait is not given up before. -/
theorem pollUntil_launched (h : d.Launched b L backing n) {patience polls : Nat} (hn : n < patience)
    (hwait : ∀ q, polls < q → q ≤ polls + n → policy.givesUp q (clock q) = false) :
    ∃ d', d.pollUntil Accelerator.bus policy clock patience polls = some (.ok (polls + n + 1), d') ∧
      d'.Finished b L backing ∧ d'.launches = d.launches + 1 ∧ d'.target.1.launches = d.target.1.launches ∧
      d'.target.2 = d.target.2 := by
  obtain ⟨patience, rfl⟩ := Nat.exists_eq_add_one_of_ne_zero (Nat.ne_zero_of_lt hn)
  rw [pollUntil]
  -- On the busy polls that are left.
  induction n generalizing d patience polls with
  | zero =>
    obtain ⟨d', hpoll, hfinished⟩ := poll_done h
    exact ⟨d', by rw [hpoll], hfinished⟩
  | succ n ih =>
    obtain ⟨d₁, hpoll, h₁, hlaunches, hstarts, hmemory⟩ := poll_busy h
    obtain ⟨patience, rfl⟩ := Nat.exists_eq_add_one_of_ne_zero (Nat.ne_zero_of_lt (Nat.lt_of_succ_lt_succ hn))
    have hlater : ∀ q, polls + 1 < q → q ≤ polls + 1 + n → policy.givesUp q (clock q) = false := fun q hq hle =>
      hwait q (Nat.lt_of_succ_lt hq) (by omega)
    obtain ⟨d', hrest, hfinished, hlaunches', hstarts', hmemory'⟩ := ih h₁ hlater patience (Nat.lt_of_succ_lt_succ hn)
    refine ⟨d', ?_, hfinished, hlaunches ▸ hlaunches', hstarts'.trans hstarts, hmemory'.trans hmemory⟩
    have hcount : polls + 1 + n + 1 = polls + (n + 1) + 1 := by omega
    rw [hpoll]
    simp only [hwait (polls + 1) (Nat.lt_succ_self polls) (by omega)]
    rw [if_neg Bool.false_ne_true, pollUntil, hrest, hcount]

theorem clear_finished (h : d.Finished b L backing) :
    ∃ d', d.clear Accelerator.bus = (.ok (), d') ∧ d'.Ready b L backing ∧ d'.launches = d.launches ∧
      d'.target.1.launches = d.target.1.launches ∧ d'.target.2 = d.target.2 := by
  have htarget := h.map_target
  obtain ⟨⟨hmap, hp, hlatency, hstuck, hm⟩, hstate, hrunning⟩ := h
  simp only [clear, expect, hstate, if_true]
  cases hclear : d.map.clear with
  | none =>
    rw [hclear] at hrunning
    exact ⟨_, rfl, ⟨⟨hmap, hp, hlatency, hstuck, hm⟩, rfl, hrunning⟩, rfl, rfl, rfl⟩
  | some r =>
    have hwrite := Accelerator.bus_write (Accelerator.write_clear (v := 0) d.target.2 (htarget ▸ hclear))
    simp only [hwrite]
    exact ⟨_, rfl, ⟨⟨hmap, hp, hlatency, hstuck, hm⟩, rfl, rfl⟩, rfl, rfl, rfl⟩

end Device

namespace Engine

variable {e : Engine} {d : Device (Accelerator × Memory)} {L patience : Nat}

/-- A tile with its operands in the TCDM, wherever they overlap, on a device that is ready and answers in time: the
    engine polls once more than the device is busy, the results are those for the operands as they were before, no
    other byte has changed, both count one launch more, and the device is ready for the next tile. -/
theorem tile_runs_and_device_is_ready_again (he : e.kernel = b.kernel) (h : d.Ready b L backing) (hin : tile.InTcdm)
    (hpolls : ∀ limit, e.wait.maxPolls = some limit → L + 1 ≤ max limit 1)
    (hdeadline : ∀ limit, e.wait.deadline = some limit →
      ∀ polls, 0 < polls → polls ≤ L → e.clock tile.index polls < limit)
    (hpatience : L < patience) :
    ∃ d', e.runTile Accelerator.bus patience tile d = some (.done (L + 1), d') ∧ d'.Ready b L backing ∧
      d'.launches = d.launches + 1 ∧ d'.target.1.launches = d.target.1.launches + 1 ∧
      (∀ i < tile.elements, d'.target.2.flat.word (tile.o.toNat + 4 * i) = b.kernel.reference
        (d.target.2.flat.word (tile.a.toNat + 4 * i)) (d.target.2.flat.word (tile.b.toNat + 4 * i))) ∧
      ∀ x, ¬(tile.o.toNat ≤ x ∧ x < tile.o.toNat + 4 * tile.elements) →
        d'.target.2.byteAt? x = d.target.2.byteAt? x := by
  obtain ⟨desc, hdesc, -⟩ := b.exists_describe tile hin.elements_lt
  obtain ⟨d₁, hstart, h₁, hlaunches₁, hstarts₁, hcomputed⟩ := Device.start_ready h hdesc hin
  have hwait : ∀ q, 0 < q → q ≤ 0 + L → e.wait.givesUp q (e.clock tile.index q) = false := by
    intro q hpos hle
    rw [Nat.zero_add] at hle
    exact WaitPolicy.givesUp_eq_false hpolls (fun limit hlimit => hdeadline limit hlimit q hpos hle) hpos hle
  obtain ⟨d₂, hpoll, h₂, hlaunches₂, hstarts₂, hmemory₂⟩ := Device.pollUntil_launched h₁ hpatience hwait
  obtain ⟨d₃, hclear, h₃, hlaunches₃, hstarts₃, hmemory₃⟩ := Device.clear_finished h₂
  have hmemory := hmemory₃.trans hmemory₂
  rw [Nat.zero_add] at hpoll
  refine ⟨d₃, ?_, h₃, ?_, ?_, hmemory ▸ hcomputed.results, hmemory ▸ hcomputed.kept⟩
  · simp only [runTile, he, hdesc, hstart, Device.wait, hpoll, hclear]
    rfl
  · rw [hlaunches₃, hlaunches₂, hlaunches₁]
  · rw [hstarts₃, hstarts₂, hstarts₁]

/-- Sums of neighbours, stored over all of them but the first, with registers left over from another tile. -/
theorem overlapping_tile_runs :
    ∃ m₀ m d', Memory.snax 80 = .ok m₀ ∧ m₀.writeWords Chip.tcdmBase [10, 20, 30, 40] = .ok m ∧
      runTile ⟨Kernel.alu .add, .polls 5, fun _ => .still⟩ Accelerator.bus 5
        ⟨7, Chip.tcdmBase, 0x10000004, 0x10000004, 3, 4⟩
        ⟨.alu, .idle, 2, ⟨.alu, ⟨[(Chip.Alu.loopBound, 9), (Chip.Alu.mode, 7)]⟩, 4, 1, false, false, 2, 6⟩, m⟩ =
          some (.done 5, d') ∧
      d'.launches = 3 ∧ (List.range 3).map (fun i => d'.target.2.flat.word (0x10000004 + 4 * i)) = [30, 50, 70] := by
  obtain ⟨m₀, h₀⟩ : ∃ m₀, Memory.snax 80 = .ok m₀ := Memory.exists_snax (by decide) (by decide)
  have hsnax := Memory.snax_eq_ok h₀
  have hwithin : Span.Within ⟨Chip.tcdmBase.toNat, 4 * Bytes.perWord⟩ Chip.tcdm := ⟨by decide, by decide⟩
  obtain ⟨m, hm⟩ : ∃ m, m₀.writeWords Chip.tcdmBase [10, 20, 30, 40] = .ok m :=
    Memory.exists_writeWords (by decide) (hsnax.maps_tcdm hwithin)
  have hready : Device.Ready (.alu .add) 4 80
      ⟨.alu, .idle, 2, ⟨.alu, ⟨[(Chip.Alu.loopBound, 9), (Chip.Alu.mode, 7)]⟩, 4, 1, false, false, 2, 6⟩, m⟩ :=
    ⟨⟨rfl, rfl, rfl, rfl, (Memory.wrote_writeWords hsnax.2 hm).1.snax hsnax⟩, rfl, rfl⟩
  have hin : Tile.InTcdm ⟨7, Chip.tcdmBase, 0x10000004, 0x10000004, 3, 4⟩ := by
    intro l
    cases l <;> exact ⟨by decide, by decide⟩
  have hpatience : 4 < 5 := by decide
  obtain ⟨d', hrun, -, hlaunches, -, hresults, -⟩ := tile_runs_and_device_is_ready_again
    (e := ⟨Kernel.alu .add, .polls 5, fun _ => .still⟩) rfl hready hin (by rintro limit ⟨⟩; decide) nofun hpatience
  have hword : ∀ {i : Nat} {w : Word}, [10, 20, 30, 40][i]? = some w → m.flat.word (0x10000000 + 4 * i) = w := by
    intro i w hw
    rw [Memory.flat_of_writeWords hsnax.2 hm]
    exact FlatMemory.word_put hw
  have hsum : ∀ {i : Nat} {x y : Word}, i < 3 → [10, 20, 30, 40][i]? = some x → [10, 20, 30, 40][i + 1]? = some y →
      d'.target.2.flat.word (0x10000004 + 4 * i) = x + y := by
    intro i x y hi hx hy
    have hnext : 0x10000004 + 4 * i = 0x10000000 + 4 * (i + 1) := by omega
    refine (hresults i hi).trans (congr (congrArg (· + ·) (hword hx)) ?_)
    exact (congrArg m.flat.word hnext).trans (hword hy)
  have hthree : (List.range 3).map (fun i => d'.target.2.flat.word (0x10000004 + 4 * i)) =
      [10 + 20, 20 + 30, 30 + 40] := by
    simp only [List.range, List.range.loop, List.map, hsum (Nat.zero_lt_succ _) rfl rfl,
      hsum (i := 1) (by decide) rfl rfl, hsum (i := 2) (by decide) rfl rfl]
  exact ⟨m₀, m, d', h₀, hm, hrun, hlaunches, hthree⟩

end Engine

end TileOffload
