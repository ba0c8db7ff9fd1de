import TileOffload.Proofs.TileRun

/-! # The effect of a start

A write to the start register goes through the checks of the configuration, of the operands and of the memory before it
stores anything. Main statement: it does the whole pass, on what memory held before, or nothing at all, and over the
memory of a cluster it is known beforehand which. -/

namespace TileOffload

/-- The pass has been carried out: its results are there, made of what its operands were before, and no other byte of
    memory has changed. -/
structure Pass.CarriedOut (p : Pass) (m m' : Memory) : Prop where
  spans : m'.spans = m.spans
  results : ∀ i < p.len, m'.flat.word (p.o.toNat + 4 * i) =
    p.apply (m.flat.word (p.a.toNat + 4 * i)) (m.flat.word (p.b.toNat + 4 * i))
  kept : ∀ x, ¬(p.o.toNat ≤ x ∧ x < p.o.toNat + 4 * p.len) → m'.byteAt? x = m.byteAt? x

/-- The operands of the pass begin at words and lie in the TCDM. -/
def Pass.InTcdm (p : Pass) : Prop :=
  ∀ addr ∈ [p.a, p.b, p.o], 4 ∣ addr.toNat ∧ Chip.inTcdm addr (p.len * Chip.elementBytes) = true

/-- Each operand of the pass is mapped. -/
def Pass.Mapped (p : Pass) (m : Memory) : Prop :=
  ∀ addr ∈ [p.a, p.b, p.o], m.maps addr (p.len * Bytes.perWord) = true

theorem Pass.mapped_congr {m m' : Memory} (h : m'.spans = m.spans) (p : Pass) : p.Mapped m' ↔ p.Mapped m := by
  simp only [Mapped, Memory.maps_iff, h]

theorem AluMode.ofRegister?_eq_some {value : Word} {mode : AluMode} :
    ofRegister? value = some mode ↔ value = mode.register := by
  constructor
  · intro h
    have hvalue := List.find?_some h
    exact (beq_iff_eq.mp hvalue).symm
  · rintro rfl
    cases mode <;> rfl

namespace Accelerator

variable {a : Accelerator} {m : Memory} {p : Pass} {value : Word} {backing : Nat}

/-- The registers describe the pass. The multiply-accumulate unit multiplies, in one iteration; the arithmetic unit is
    in a mode that it knows, all its strides are those of operands without gaps, and its two lengths are equal. -/
inductive Configured (a : Accelerator) : Pass → Prop
  | mac (hmac : a.personality = .mac) (hmode : a.register Chip.Mac.mode = Chip.Mac.simpleMultiply)
      (honce : a.register Chip.Mac.iterations = 1) :
      Configured a {
        a := a.register Chip.Mac.pointerA
        b := a.register Chip.Mac.pointerB
        o := a.register Chip.Mac.pointerO
        len := (a.register Chip.Mac.vectorLength).toNat
        apply := (· * ·) }
  | alu (halu : a.personality = .alu) {mode : AluMode} (hmode : a.register Chip.Alu.mode = mode.register)
      (hstrides : ∀ r ∈ Chip.Alu.strides, a.register r = Chip.Alu.unitStride)
      (hbound : a.register Chip.Alu.loopBound = a.register Chip.Alu.length) :
      Configured a {
        a := a.register Chip.Alu.pointerA
        b := a.register Chip.Alu.pointerB
        o := a.register Chip.Alu.pointerO
        len := (a.register Chip.Alu.length).toNat
        apply := mode.apply }

/-! ### Checks -/

theorem macPass_iff (hmac : a.personality = .mac) : a.macPass = .ok p ↔ a.Configured p := by
  constructor
  · intro h
    unfold macPass at h
    dsimp only at h
    split at h
    · cases h
    · rename_i hmode
      split at h
      · cases h
      · rename_i honce
        cases h
        exact .mac hmac (Classical.not_not.mp hmode) (Classical.not_not.mp honce)
  · intro h
    cases h with
    | mac _ hmode honce =>
      simp only [macPass, hmode, honce, ne_eq, not_true_eq_false, if_false]
    | alu halu => rw [hmac] at halu; cases halu

theorem aluPass_iff (halu : a.personality = .alu) : a.aluPass = .ok p ↔ a.Configured p := by
  constructor
  · intro h
    unfold aluPass at h
    split at h
    · cases h
    · rename_i mode hmode
      split at h
      · cases h
      · rename_i hstrides
        dsimp only at h
        split at h
        · cases h
        · rename_i hbound
          cases h
          refine .alu halu (AluMode.ofRegister?_eq_some.mp hmode) (fun r hr => ?_) (Classical.not_not.mp hbound)
          simpa using List.find?_eq_none.mp hstrides r hr
  · intro h
    cases h with
    | mac hmac => rw [halu] at hmac; cases hmac
    | @alu _ mode hmode hstrides hbound =>
      have hunit : (Chip.Alu.strides.find? fun r => a.register r != Chip.Alu.unitStride) = none :=
        List.find?_eq_none.mpr fun r hr => by simp [hstrides r hr]
      simp only [aluPass, AluMode.ofRegister?_eq_some.mpr hmode, hunit, hbound, ne_eq, not_true_eq_false, if_false]

theorem configuredPass_iff : a.configuredPass = .ok p ↔ a.Configured p := by
  unfold configuredPass
  cases h : a.personality with
  | mac => exact macPass_iff h
  | alu => exact aluPass_iff h

theorem checkOperands_iff {u : Unit} :
    a.checkOperands p = .ok u ↔
      ∀ addr ∈ [p.a, p.b, p.o], Chip.inTcdm addr (p.len * Chip.elementBytes) = true := by
  unfold checkOperands
  dsimp only
  constructor
  · intro h
    split at h
    · cases h
    · rename_i hnone
      exact fun addr haddr => by simpa using List.find?_eq_none.mp hnone addr haddr
  · intro h
    have hnone : ([p.a, p.b, p.o].find? fun addr => !Chip.inTcdm addr (p.len * Chip.elementBytes)) = none :=
      List.find?_eq_none.mpr fun addr haddr => by simp [h addr haddr]
    rw [hnone]

theorem begin_iff :
    a.begin = .ok p ↔ a.running = false ∧ a.Configured p ∧
      ∀ addr ∈ [p.a, p.b, p.o], Chip.inTcdm addr (p.len * Chip.elementBytes) = true := by
  simp only [begin, unless_eq_ok, bind_eq_ok, pure_eq_ok, configuredPass_iff, checkOperands_iff, Bool.not_eq_true]
  constructor
  · rintro ⟨hrunning, q, hq, -, hin, rfl⟩
    exact ⟨hrunning, hq, hin⟩
  · rintro ⟨hrunning, hp, hin⟩
    exact ⟨hrunning, p, hp, (), hin, rfl⟩

/-! ### The start -/

theorem start_carries_out (hd : m.Disjoint) {s : Accelerator × Memory} (h : a.start m = .ok s) :
    ∃ p, a.Configured p ∧ a.running = false ∧ p.InTcdm ∧ p.Mapped m ∧ s.1 = a.started p.len ∧
      p.CarriedOut m s.2 := by
  simp only [start, bind_eq_ok, pure_eq_ok] at h
  obtain ⟨p, hbegin, xs, hxs, ys, hys, m', hwrite, rfl⟩ := h
  obtain ⟨hrunning, hp, hin⟩ := begin_iff.mp hbegin
  obtain ⟨hresults, hwrote⟩ := Memory.combined_of_writeWords hd hxs hys hwrite
  -- That words were read and stored tells that they are mapped.
  have hread : ∀ {addr : Word} {ws : List Word}, m.readWords addr p.len = .ok ws →
      4 ∣ addr.toNat ∧ m.maps addr (p.len * Bytes.perWord) = true := by
    intro addr ws h
    obtain ⟨b, hb, -⟩ := bind_eq_ok.mp h
    obtain ⟨haligned, hbank⟩ := Memory.locateWords_eq_ok.mp hb
    exact ⟨haligned, Memory.maps_of_bank? hbank⟩
  have hwritten : 4 ∣ p.o.toNat ∧ m.maps p.o (p.len * Bytes.perWord) = true := by
    have hlength : (List.zipWith p.apply xs ys).length = p.len := by
      simp [Memory.readWords_eq_words hd hxs, Memory.readWords_eq_words hd hys]
    obtain ⟨b, hb, -⟩ := bind_eq_ok.mp hwrite
    obtain ⟨haligned, hbank⟩ := Memory.locateWords_eq_ok.mp hb
    rw [hlength] at hbank
    exact ⟨haligned, Memory.maps_of_bank? hbank⟩
  have hall : ∀ addr ∈ [p.a, p.b, p.o], 4 ∣ addr.toNat ∧ m.maps addr (p.len * Bytes.perWord) = true := by
    simp only [List.forall_mem_cons]
    exact ⟨hread hxs, hread hys, hwritten, List.forall_mem_nil _⟩
  exact ⟨p, hp, hrunning, fun addr haddr => ⟨(hall addr haddr).1, hin addr haddr⟩,
    fun addr haddr => (hall addr haddr).2, rfl, hwrote.spans_eq, hresults, fun x hx => hwrote.kept hx⟩

theorem exists_start (hd : m.Disjoint) (hp : a.Configured p) (hrunning : a.running = false) (hin : p.InTcdm)
    (hmapped : p.Mapped m) : ∃ s, a.start m = .ok s := by
  have hbegin := begin_iff.mpr ⟨hrunning, hp, fun addr haddr => (hin addr haddr).2⟩
  simp only [Pass.InTcdm, Pass.Mapped, List.forall_mem_cons] at hin hmapped
  obtain ⟨ha, hb, ho, -⟩ := hin
  obtain ⟨hma, hmb, hmo, -⟩ := hmapped
  obtain ⟨xs, hxs⟩ := Memory.exists_readWords ha.1 hma
  obtain ⟨ys, hys⟩ := Memory.exists_readWords hb.1 hmb
  have hlength : (List.zipWith p.apply xs ys).length = p.len := by
    simp [Memory.readWords_eq_words hd hxs, Memory.readWords_eq_words hd hys]
  obtain ⟨m', hwrite⟩ : ∃ m', m.writeWords p.o (List.zipWith p.apply xs ys) = .ok m' :=
    Memory.exists_writeWords ho.1 (hlength ▸ hmo)
  refine ⟨(a.started p.len, m'), ?_⟩
  simp only [start, bind_eq_ok, pure_eq_ok]
  exact ⟨p, hbegin, xs, hxs, ys, hys, m', hwrite, rfl⟩

theorem bus_start (a : Accelerator) (m : Memory) (value : Word) :
    bus.write a.map.start value (a, m) = match a.start m with
      | .ok s => (.ok (), s)
      | .error e => (.error e, (a, m)) := by
  have hstart : a.write m a.map.start value = a.start m := if_pos rfl
  cases h : a.start m <;> simp only [bus, hstart, h]

theorem bus_start_eq_ok_iff (hd : m.Disjoint) (a : Accelerator) (value : Word) :
    (bus.write a.map.start value (a, m)).1 = .ok () ↔
      a.running = false ∧ ∃ p, a.Configured p ∧ p.InTcdm ∧ p.Mapped m := by
  rw [bus_start]
  constructor
  · intro h
    cases hstart : a.start m with
    | error e => rw [hstart] at h; cases h
    | ok s =>
      obtain ⟨p, hp, hrunning, hin, hmapped, -⟩ := start_carries_out hd hstart
      exact ⟨hrunning, p, hp, hin, hmapped⟩
  · rintro ⟨hrunning, p, hp, hin, hmapped⟩
    obtain ⟨s, hs⟩ := exists_start hd hp hrunning hin hmapped
    rw [hs]

theorem counter_started (halu : a.personality = .alu) (len : Nat) :
    ((a.started len).read Chip.Alu.counter).1 = (a.read Chip.Alu.counter).1 + UInt32.ofNat len := by
  have hstatus : Chip.Alu.counter ≠ RegisterMap.alu.status := by decide
  have hread : ∀ a' : Accelerator, a'.personality = .alu →
      (a'.read Chip.Alu.counter).1 = UInt32.ofNat a'.elements := by
    intro a' h
    simp only [read, map, h, Personality.map, if_neg hstatus, true_and, if_true]
  rw [hread a halu, hread (a.started len) halu, started, UInt32.ofNat_add]

/-- A write to the start register, with whatever value, over any memory whose banks share no byte. Accepted, it has
    carried out the pass that the registers describe: memory has changed at its results only, which are made of what was
    in memory before, the unit runs, and its launch and its elements are counted. Refused, it has changed nothing. Over
    the memory of a cluster it is accepted when the unit does not run and the registers describe a pass over words in
    the TCDM, and otherwise not. -/
theorem start_all_or_nothing (hd : m.Disjoint) (a : Accelerator) (value : Word) :
    (∀ s, bus.write a.map.start value (a, m) = (.ok (), s) →
      ∃ p, a.Configured p ∧ a.running = false ∧ p.InTcdm ∧ p.CarriedOut m s.2 ∧
        s.1 = { a with running := true, busyLeft := a.latency, launches := a.launches + 1,
                       elements := a.elements + p.len } ∧
        (a.personality = .alu →
          (s.1.read Chip.Alu.counter).1 = (a.read Chip.Alu.counter).1 + UInt32.ofNat p.len)) ∧
    (∀ e s, bus.write a.map.start value (a, m) = (.error e, s) → s = (a, m)) ∧
    ((bus.write a.map.start value (a, m)).1 = .ok () ↔
      a.running = false ∧ ∃ p, a.Configured p ∧ p.InTcdm ∧ p.Mapped m) ∧
    ∀ backing, m.Snax backing →
      ((bus.write a.map.start value (a, m)).1 = .ok () ↔ a.running = false ∧ ∃ p, a.Configured p ∧ p.InTcdm) := by
  have haccepted := bus_start_eq_ok_iff hd a value
  refine ⟨fun s h => ?_, fun e s h => ?_, haccepted, fun backing hm => ?_⟩
  · rw [bus_start] at h
    cases hstart : a.start m with
    | error e => rw [hstart] at h; cases h
    | ok s' =>
      rw [hstart] at h
      cases h
      obtain ⟨p, hp, hrunning, hin, -, hstarted, hdone⟩ := start_carries_out hd hstart
      refine ⟨p, hp, hrunning, hin, hdone, hstarted, fun halu => ?_⟩
      rw [hstarted, counter_started halu]
  · rw [bus_start] at h
    cases hstart : a.start m with
    | error e' => rw [hstart] at h; cases h; rfl
    | ok s' => rw [hstart] at h; cases h
  · rw [haccepted]
    refine and_congr_right fun _ => exists_congr fun p => and_congr_right fun _ => ?_
    exact and_iff_left_of_imp fun hin addr haddr => hm.maps_tcdm (Chip.inTcdm_iff.mp (hin addr haddr).2)

/-- Products of neighbours, stored over all of them but the first. A second start finds the unit busy. -/
theorem overlapping_start_carries_out :
    ∃ (a : Accelerator) (m₀ m : Memory) (s : Accelerator × Memory), a = { fresh .mac 2 false with registers :=
        ⟨[(Chip.Mac.pointerA, Chip.tcdmBase), (Chip.Mac.pointerB, 0x10000004), (Chip.Mac.pointerO, 0x10000004),
          (Chip.Mac.iterations, 1), (Chip.Mac.vectorLength, 4), (Chip.Mac.mode, Chip.Mac.simpleMultiply)]⟩ } ∧
      Memory.snax 16 = .ok m₀ ∧ m₀.writeWords Chip.tcdmBase [1, 2, 3, 4, 5] = .ok m ∧
      bus.write Chip.Mac.start 9 (a, m) = (.ok (), s) ∧ s.1.launches = 1 ∧
      (List.range 4).map (fun i => s.2.flat.word (0x10000004 + 4 * i)) = [2, 6, 12, 20] ∧
      bus.write Chip.Mac.start 9 s = (.error (.deviceFault (.startWhileBusy "snax-mac")), s) := by
  obtain ⟨m₀, h₀⟩ : ∃ m₀, Memory.snax 16 = .ok m₀ := Memory.exists_snax (by decide) (by decide)
  have hsnax := Memory.snax_eq_ok h₀
  have hwithin : Span.Within ⟨Chip.tcdmBase.toNat, 5 * Bytes.perWord⟩ Chip.tcdm := ⟨by decide, by decide⟩
  obtain ⟨m, hm⟩ : ∃ m, m₀.writeWords Chip.tcdmBase [1, 2, 3, 4, 5] = .ok m :=
    Memory.exists_writeWords (by decide) (hsnax.maps_tcdm hwithin)
  have hsnax' := (Memory.wrote_writeWords hsnax.2 hm).1.snax hsnax
  let a : Accelerator := { fresh .mac 2 false with registers :=
    ⟨[(Chip.Mac.pointerA, Chip.tcdmBase), (Chip.Mac.pointerB, 0x10000004), (Chip.Mac.pointerO, 0x10000004),
      (Chip.Mac.iterations, 1), (Chip.Mac.vectorLength, 4), (Chip.Mac.mode, Chip.Mac.simpleMultiply)]⟩ }
  have hp : a.Configured ⟨Chip.tcdmBase, 0x10000004, 0x10000004, 4, (· * ·)⟩ := .mac rfl rfl rfl
  have hin : Pass.InTcdm ⟨Chip.tcdmBase, 0x10000004, 0x10000004, 4, (· * ·)⟩ := by
    simp only [Pass.InTcdm, List.forall_mem_cons]
    exact ⟨⟨by decide, by decide⟩, ⟨by decide, by decide⟩, ⟨by decide, by decide⟩, List.forall_mem_nil _⟩
  obtain ⟨hcarried, -, -, haccepted⟩ := start_all_or_nothing hsnax'.2 a 9
  obtain ⟨s, hs⟩ : ∃ s, bus.write Chip.Mac.start 9 (a, m) = (.ok (), s) :=
    ⟨_, Prod.ext ((haccepted 16 hsnax').mpr ⟨rfl, _, hp, hin⟩) rfl⟩
  obtain ⟨q, hq, -, -, hdone, hstarted, -⟩ := hcarried s hs
  obtain rfl : q = ⟨Chip.tcdmBase, 0x10000004, 0x10000004, 4, (· * ·)⟩ :=
    Except.ok.inj ((configuredPass_iff.mpr hq).symm.trans (configuredPass_iff.mpr hp))
  have hword : ∀ {i : Nat} {w : Word}, [1, 2, 3, 4, 5][i]? = some w → m.flat.word (0x10000000 + 4 * i) = w := by
    intro i w hw
    rw [Memory.flat_of_writeWords hsnax.2 hm]
    exact FlatMemory.word_put hw
  have hproduct : ∀ {i : Nat} {x y : Word}, i < 4 → [1, 2, 3, 4, 5][i]? = some x → [1, 2, 3, 4, 5][i + 1]? = some y →
      s.2.flat.word (0x10000004 + 4 * i) = x * y := by
    intro i x y hi hx hy
    have hnext : 0x10000004 + 4 * i = 0x10000000 + 4 * (i + 1) := by omega
    refine (hdone.results i hi).trans (congr (congrArg (· * ·) (hword hx)) ?_)
    exact (congrArg m.flat.word hnext).trans (hword hy)
  have hfour : (List.range 4).map (fun i => s.2.flat.word (0x10000004 + 4 * i)) = [1 * 2, 2 * 3, 3 * 4, 4 * 5] := by
    simp only [List.range, List.range.loop, List.map, hproduct (Nat.zero_lt_succ _) rfl rfl,
      hproduct (i := 1) (by decide) rfl rfl, hproduct (i := 2) (by decide) rfl rfl,
      hproduct (i := 3) (by decide) rfl rfl]
  obtain ⟨a', m'⟩ := s
  obtain rfl : a' = _ := hstarted
  exact ⟨a, m₀, m, _, rfl, h₀, hm, hs, rfl, hfour, rfl⟩

end Accelerator

end TileOffload
