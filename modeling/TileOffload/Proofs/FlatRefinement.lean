import TileOffload.Proofs.FlatMemory

/-! # Banks as one flat memory

A memory of banks behaves like one array of bytes with some spans of it mapped. Main statement: whatever banks are
added, no address is in two of them, and words are read and written and bytes copied, one access after another, as
in the flat memory, with the same answers and refusals. -/

namespace TileOffload

/-- An access to a memory by address. -/
inductive MemoryAccess
  | read (addr : Word) (count : Nat)
  | write (addr : Word) (words : List Word)
  | copy (dst src : Word) (len : Nat)

/-- The answers to accesses one after another, and what they leave. A refused access leaves everything as it was. -/
def MemoryAccess.serve {σ : Type} (access : σ → MemoryAccess → Except Error (List Word × σ)) :
    List MemoryAccess → σ → List (Except Error (List Word)) × σ
  | [], s => ([], s)
  | a :: rest, s =>
    match access s a with
    | .ok (words, t) => ((serve access rest t).map (.ok words :: ·) id)
    | .error e => ((serve access rest s).map (.error e :: ·) id)

/-- A byte for every address, and the spans that are mapped. -/
structure FlatMemory where
  mapped : List Span
  byte : Nat → UInt8

namespace FlatMemory

/-- Zero bytes everywhere. -/
def zeros (mapped : List Span) : FlatMemory := ⟨mapped, fun _ => 0⟩

/-- A range of bytes lies inside one mapped span. -/
def check (f : FlatMemory) (addr : Word) (len : Nat) : Except Error Unit :=
  if ∃ s ∈ f.mapped, Span.Within ⟨addr.toNat, len⟩ s then .ok () else .error (.addressOutOfRange addr.toNat len)

/-- A range of words is aligned, and lies inside one mapped span. -/
def checkWords (f : FlatMemory) (addr : Word) (count : Nat) : Except Error Unit :=
  if 4 ∣ addr.toNat then f.check addr (count * 4) else .error (.misaligned "word access" addr.toNat 4)

/-- The word stored from an address on, the least significant byte first. -/
def word (f : FlatMemory) (addr : Nat) : Word :=
  .ofBytes (f.byte addr) (f.byte (addr + 1)) (f.byte (addr + 2)) (f.byte (addr + 3))

/-- The memory with other bytes at the `len` addresses from `addr` on. -/
def put (f : FlatMemory) (addr len : Nat) (value : Nat → UInt8) : FlatMemory :=
  { f with byte := fun x => if addr ≤ x ∧ x < addr + len then value (x - addr) else f.byte x }

/-- A byte of words that are stored one after another. -/
def byteOf (words : List Word) (i : Nat) : UInt8 := (words.getD (i / 4) 0).bytes.getD (i % 4) 0

/-- What an access answers and leaves. -/
def access (f : FlatMemory) : MemoryAccess → Except Error (List Word × FlatMemory)
  | .read addr count => do
    f.checkWords addr count
    return ((List.range count).map fun k => f.word (addr.toNat + 4 * k), f)
  | .write addr words => do
    f.checkWords addr words.length
    return ([], f.put addr.toNat (4 * words.length) (byteOf words))
  | .copy dst src len => do
    f.check dst len
    f.check src len
    return ([], f.put dst.toNat len fun i => f.byte (src.toNat + i))

variable {f : FlatMemory}

theorem byteOf_word {ws : List Word} {k r : Nat} {w : Word} (hw : ws[k]? = some w) (hr : r < 4) :
    byteOf ws (4 * k + r) = w.bytes.getD r 0 := by
  have hword : ws.getD k 0 = w := by rw [List.getD_eq_getElem?_getD, hw, Option.getD_some]
  rw [byteOf, Nat.mul_add_div (by decide), Nat.div_eq_of_lt hr, Nat.add_zero, hword, Nat.mul_add_mod,
    Nat.mod_eq_of_lt hr]

theorem word_put {addr : Nat} {ws : List Word} {k : Nat} {w : Word} (hw : ws[k]? = some w) :
    (f.put addr (4 * ws.length) (byteOf ws)).word (addr + 4 * k) = w := by
  have hk : k < ws.length := (List.getElem?_eq_some_iff.mp hw).1
  have hbyte : ∀ r < 4, (f.put addr (4 * ws.length) (byteOf ws)).byte (addr + 4 * k + r) = w.bytes.getD r 0 := by
    intro r hr
    have hindex : addr + 4 * k + r - addr = 4 * k + r := by omega
    simp only [put]
    rw [if_pos (by omega), hindex, byteOf_word hw hr]
  have h₀ := hbyte 0 (by decide)
  rw [Nat.add_zero] at h₀
  rw [word, h₀, hbyte 1 (by decide), hbyte 2 (by decide), hbyte 3 (by decide)]
  exact Word.ofBytes_bytes w

theorem put_congr {addr len : Nat} {v v' : Nat → UInt8} (h : ∀ i < len, v i = v' i) :
    f.put addr len v = f.put addr len v' := by
  unfold put
  congr 1
  funext x
  split
  · exact h _ (by omega)
  · rfl

end FlatMemory

namespace Bytes

theorem byteAt_ofWords_eq {ws : List Word} {i : Nat} (hi : i < perWord * ws.length) :
    byteAt (ofWords ws) i = FlatMemory.byteOf ws i := by
  have hmod : i % 4 < 4 := Nat.mod_lt i (by decide)
  have hk : i / 4 < ws.length := Nat.div_lt_of_lt_mul hi
  have hsplit : i = perWord * (i / 4) + i % 4 := (Nat.div_add_mod i 4).symm
  have hw := List.getElem?_eq_getElem hk
  rw [hsplit, byteAt_ofWords, getElem?_flatMap_bytes hw hmod, ← List.getD_eq_getElem?_getD]
  exact (FlatMemory.byteOf_word hw hmod).symm

end Bytes

namespace Memory

variable {m m' : Memory}

/-- The banks as one flat memory, with zeros where there is no bank. -/
def flat (m : Memory) : FlatMemory := ⟨m.spans, fun x => (m.byteAt? x).getD 0⟩

/-- What an access answers and leaves. -/
def access (m : Memory) : MemoryAccess → Except Error (List Word × Memory)
  | .read addr count => (m.readWords addr count).map (·, m)
  | .write addr words => (m.writeWords addr words).map ([], ·)
  | .copy dst src len => (m.copy dst src len).map ([], ·)

/-- Banks added one after another: the name, first address and size of each. -/
def addBanks (m : Memory) : List (String × Word × Nat) → Except Error Memory
  | [] => .ok m
  | (name, base, len) :: rest => do (← m.addBank name base len).addBanks rest

/-! ### Views -/

theorem check_flat (m : Memory) (addr : Word) (len : Nat) :
    m.flat.check addr len = (m.locate addr len).map fun _ => () := by
  cases h : m.bank? addr len with
  | some b =>
    rw [locate_eq_ok.mpr h]
    exact if_pos (maps_iff.mp (maps_of_bank? h))
  | none =>
    have hnone : ¬∃ s ∈ m.spans, Span.Within ⟨addr.toNat, len⟩ s := by
      rw [← maps_iff, maps, h]
      exact Bool.false_ne_true
    rw [locate, h]
    exact if_neg hnone

theorem checkWords_flat (m : Memory) (addr : Word) (count : Nat) :
    m.flat.checkWords addr count = (m.locateWords addr count).map fun _ => () := by
  unfold FlatMemory.checkWords locateWords
  unfold Bytes.perWord
  by_cases h : 4 ∣ addr.toNat
  · rw [if_pos h, if_pos (Nat.mod_eq_zero_of_dvd h)]
    exact check_flat m addr _
  · rw [if_neg h, if_neg fun hx => h (Nat.dvd_of_mod_eq_zero hx)]
    rfl

theorem byte_flat (hd : m.Disjoint) {addr : Word} {len : Nat} {b : Bank} (hb : m.bank? addr len = some b) {i : Nat}
    (hi : i < len) : m.flat.byte (addr.toNat + i) = Bytes.byteAt b.bytes (b.indexOf addr + i) := by
  obtain ⟨hmem, hstart, hstop⟩ := bank?_eq_some hb
  simp only [Span.stop, Bank.span] at hstart hstop
  have hend : b.stop = b.base.toNat + b.bytes.size := rfl
  have hindex : addr.toNat + i - b.base.toNat = b.indexOf addr + i := Nat.sub_add_comm hstart
  simp only [flat]
  rw [byteAt?_of_mem hd hmem (by omega) (by omega), hindex]
  rfl

theorem flat_store (hd : m.Disjoint) {addr : Word} {data : ByteArray} (h : m.maps addr data.size = true) :
    (m.store addr data).flat = m.flat.put addr.toNat data.size (Bytes.byteAt data) := by
  simp only [flat, FlatMemory.put, spans_store, FlatMemory.mk.injEq, true_and]
  funext x
  rw [byteAt?_store hd h]
  split <;> rfl

/-! ### Accesses -/

theorem flat_readWords (hd : m.Disjoint) (addr : Word) (count : Nat) :
    m.flat.access (.read addr count) = (m.readWords addr count).map (·, m.flat) := by
  simp only [FlatMemory.access, readWords, checkWords_flat]
  cases h : m.locateWords addr count with
  | error e => rfl
  | ok b =>
    obtain ⟨-, hb⟩ := locateWords_eq_ok.mp h
    have hwords : (List.range count).map (fun k => m.flat.word (addr.toNat + 4 * k)) =
        Bytes.wordsAt b.bytes (b.indexOf addr) count := by
      refine List.map_congr_left fun k hk => ?_
      have hk := List.mem_range.mp hk
      have hbyte : ∀ r < 4, m.flat.byte (addr.toNat + 4 * k + r) =
          Bytes.byteAt b.bytes (b.indexOf addr + Bytes.perWord * k + r) := by
        intro r hr
        rw [Nat.add_assoc, byte_flat hd hb (by simp only [Bytes.perWord]; omega), Nat.add_assoc]
        rfl
      have h₀ := hbyte 0 (by decide)
      rw [Nat.add_zero, Nat.add_zero] at h₀
      rw [FlatMemory.word, h₀, hbyte 1 (by decide), hbyte 2 (by decide), hbyte 3 (by decide)]
      rfl
    exact congrArg (fun ws => Except.ok (ws, m.flat)) hwords

theorem readWords_eq_words (hd : m.Disjoint) {addr : Word} {count : Nat} {ws : List Word}
    (h : m.readWords addr count = .ok ws) : ws = (List.range count).map fun k => m.flat.word (addr.toNat + 4 * k) := by
  have hflat := flat_readWords hd addr count
  rw [h] at hflat
  obtain ⟨-, -, hwords⟩ := bind_eq_ok.mp hflat
  exact (Prod.mk.inj (pure_eq_ok.mp hwords)).1.symm

theorem flat_writeWords (hd : m.Disjoint) (addr : Word) (words : List Word) :
    m.flat.access (.write addr words) = (m.writeWords addr words).map fun m' => ([], m'.flat) := by
  simp only [FlatMemory.access, writeWords, checkWords_flat]
  cases h : m.locateWords addr words.length with
  | error e => rfl
  | ok b =>
    obtain ⟨-, hb⟩ := locateWords_eq_ok.mp h
    have hsize := Bytes.size_ofWords words
    have hmaps : m.maps addr (Bytes.ofWords words).size = true := by
      rw [hsize, Nat.mul_comm]
      exact maps_of_bank? hb
    have hput : m.flat.put addr.toNat (4 * words.length) (FlatMemory.byteOf words) =
        (m.store addr (Bytes.ofWords words)).flat := by
      rw [flat_store hd hmaps, hsize]
      exact FlatMemory.put_congr fun i hi => (Bytes.byteAt_ofWords_eq hi).symm
    exact congrArg (fun f => Except.ok ([], f)) hput

theorem flat_of_writeWords (hd : m.Disjoint) {addr : Word} {ws : List Word} (h : m.writeWords addr ws = .ok m') :
    m'.flat = m.flat.put addr.toNat (4 * ws.length) (FlatMemory.byteOf ws) := by
  have hflat := flat_writeWords hd addr ws
  rw [h] at hflat
  obtain ⟨-, -, hput⟩ := bind_eq_ok.mp hflat
  exact (Prod.mk.inj (pure_eq_ok.mp hput)).2.symm

theorem flat_copy (hd : m.Disjoint) (dst src : Word) (len : Nat) :
    m.flat.access (.copy dst src len) = (m.copy dst src len).map fun m' => ([], m'.flat) := by
  simp only [FlatMemory.access, copy, check_flat]
  cases hdst : m.locate dst len with
  | error e => rfl
  | ok c =>
    cases hsrc : m.locate src len with
    | error e => rfl
    | ok b =>
      have hb := locate_eq_ok.mp hsrc
      have hfit : b.indexOf src + len ≤ b.bytes.size := by
        obtain ⟨-, hstart, hstop⟩ := bank?_eq_some hb
        simp only [Span.stop, Bank.span] at hstart hstop
        simp only [Bank.indexOf]
        omega
      have hsize : (b.bytes.extract (b.indexOf src) (b.indexOf src + len)).size = len := by
        rw [ByteArray.size_extract]
        omega
      have hmaps : m.maps dst (b.bytes.extract (b.indexOf src) (b.indexOf src + len)).size = true := by
        rw [hsize]
        exact maps_of_bank? (locate_eq_ok.mp hdst)
      have hput : m.flat.put dst.toNat len (fun i => m.flat.byte (src.toNat + i)) =
          (m.store dst (b.bytes.extract (b.indexOf src) (b.indexOf src + len))).flat := by
        rw [flat_store hd hmaps, hsize]
        refine FlatMemory.put_congr fun i hi => ?_
        rw [byte_flat hd hb hi, Bytes.byteAt_extract hfit hi]
      exact congrArg (fun f => Except.ok ([], f)) hput

/-- An access to the banks is the access to the flat memory. -/
theorem flat_access (hd : m.Disjoint) (a : MemoryAccess) :
    m.flat.access a = (m.access a).map (Prod.map id flat) := by
  cases a with
  | read addr count =>
    rw [flat_readWords hd, access]
    cases m.readWords addr count <;> rfl
  | write addr words =>
    rw [flat_writeWords hd, access]
    cases m.writeWords addr words <;> rfl
  | copy dst src len =>
    rw [flat_copy hd, access]
    cases m.copy dst src len <;> rfl

theorem disjoint_access (hd : m.Disjoint) {a : MemoryAccess} {words : List Word} (h : m.access a = .ok (words, m')) :
    m'.Disjoint := by
  cases a with
  | read addr count =>
    simp only [access] at h
    cases hr : m.readWords addr count with
    | error e => rw [hr] at h; cases h
    | ok ws =>
      rw [hr] at h
      cases h
      exact hd
  | write addr ws =>
    simp only [access] at h
    cases hw : m.writeWords addr ws with
    | error e => rw [hw] at h; cases h
    | ok m₁ =>
      rw [hw] at h
      cases h
      exact (wrote_writeWords hd hw).1.disjoint hd
  | copy dst src len =>
    simp only [access] at h
    cases hc : m.copy dst src len with
    | error e => rw [hc] at h; cases h
    | ok m₁ =>
      rw [hc] at h
      cases h
      exact (wrote_copy hd hc).1.disjoint hd

/-! ### Banks -/

theorem addBank_eq_ok_iff {name : String} {base : Word} {len : Nat} :
    m.addBank name base len = .ok m' ↔
      4 ∣ base.toNat ∧ 4 ∣ len ∧ base.toNat + len ≤ addressLimit ∧
        (∀ b ∈ m.banks, ¬(base.toNat < b.stop ∧ b.base.toNat < base.toNat + len)) ∧
        m' = ⟨m.banks ++ [⟨name, base, Bytes.zeros len⟩]⟩ := by
  simp only [addBank, unless_eq_ok, ne_eq, Classical.not_not, Nat.not_lt, Bytes.perWord, ← Nat.dvd_iff_mod_eq_zero]
  refine and_congr_right fun _ => and_congr_right fun _ => and_congr_right fun _ => ?_
  cases hfind : m.banks.find? fun b => base.toNat < b.stop && b.base.toNat < base.toNat + len with
  | some b =>
    have hmeets : base.toNat < b.stop ∧ b.base.toNat < base.toNat + len := by simpa using List.find?_some hfind
    constructor
    · intro h
      cases h
    · rintro ⟨hfree, -⟩
      exact absurd hmeets (hfree b (List.mem_of_find?_eq_some hfind))
  | none =>
    have hfree : ∀ b ∈ m.banks, ¬(base.toNat < b.stop ∧ b.base.toNat < base.toNat + len) := by
      simpa using hfind
    refine ⟨fun h => ⟨hfree, (pure_eq_ok.mp h).symm⟩, fun h => pure_eq_ok.mpr h.2.symm⟩

/-- A bank is refused exactly when it does not begin and end at whole words, ends beyond the address space, or meets
    another bank. -/
theorem addBank_refused_iff {name : String} {base : Word} {len : Nat} :
    (∃ e, m.addBank name base len = .error e) ↔
      ¬4 ∣ base.toNat ∨ ¬4 ∣ len ∨ addressLimit < base.toNat + len ∨
        ∃ b ∈ m.banks, base.toNat < b.stop ∧ b.base.toNat < base.toNat + len := by
  cases h : m.addBank name base len with
  | ok m' =>
    obtain ⟨hb, hl, hend, hfree, -⟩ := addBank_eq_ok_iff.mp h
    constructor
    · rintro ⟨e, he⟩
      cases he
    · rintro (hx | hx | hx | ⟨b, hm, hx⟩)
      · exact absurd hb hx
      · exact absurd hl hx
      · omega
      · exact absurd hx (hfree b hm)
  | error e =>
    refine ⟨fun _ => Classical.byContradiction fun hno => ?_, fun _ => ⟨e, rfl⟩⟩
    simp only [not_or, Classical.not_not, not_exists, not_and] at hno
    obtain ⟨hb, hl, hend, hfree⟩ := hno
    have hok : m.addBank name base len = .ok _ :=
      addBank_eq_ok_iff.mpr ⟨hb, hl, Nat.le_of_not_lt hend, fun b hm hx => hfree b hm hx.1 hx.2, rfl⟩
    rw [h] at hok
    cases hok

/-- A memory that was not yet written to. -/
def Blank (m : Memory) : Prop := ∀ b ∈ m.banks, ∀ i, Bytes.byteAt b.bytes i = 0

theorem byteAt_zeros (n i : Nat) : Bytes.byteAt (Bytes.zeros n) i = 0 := by
  rw [Bytes.byteAt_eq_getElem?, Bytes.data_zeros, Array.getElem?_replicate]
  split <;> rfl

theorem addBanks_eq_ok {requests : List (String × Word × Nat)} (hd : m.Disjoint) (hz : m.Blank)
    (h : m.addBanks requests = .ok m') :
    m'.spans = m.spans ++ requests.map (fun r => ⟨r.2.1.toNat, r.2.2⟩) ∧ m'.Disjoint ∧ m'.Blank := by
  induction requests generalizing m with
  | nil =>
    cases h
    exact ⟨(List.append_nil _).symm, hd, hz⟩
  | cons r rest ih =>
    obtain ⟨name, base, len⟩ := r
    obtain ⟨m₁, h₁, h⟩ := bind_eq_ok.mp h
    obtain ⟨hspans, hd₁⟩ := addBank_eq_ok h₁
    have hz₁ : m₁.Blank := by
      obtain ⟨-, -, -, -, rfl⟩ := addBank_eq_ok_iff.mp h₁
      intro b hb
      rcases List.mem_append.mp hb with hb | hb
      · exact hz b hb
      · obtain rfl := List.mem_singleton.mp hb
        exact byteAt_zeros len
    obtain ⟨hspans', hrest⟩ := ih (hd₁ hd) hz₁ h
    refine ⟨?_, hrest⟩
    rw [hspans', hspans, List.append_assoc]
    rfl

theorem flat_blank (hz : m.Blank) : m.flat = .zeros m.spans := by
  simp only [flat, FlatMemory.zeros, FlatMemory.mk.injEq, true_and]
  funext x
  unfold byteAt?
  cases h : m.banks.find? fun b => b.base.toNat ≤ x && x < b.stop with
  | none => rfl
  | some b => exact hz b (List.mem_of_find?_eq_some h) _

theorem bank_unique (hd : m.Disjoint) {i j : Nat} {b c : Bank} {x : Nat} (hb : m.banks[i]? = some b)
    (hc : m.banks[j]? = some c) (hxb : b.base.toNat ≤ x ∧ x < b.stop) (hxc : c.base.toNat ≤ x ∧ x < c.stop) :
    i = j := by
  have hapart : ∀ {i j : Nat} {b c : Bank}, i < j → m.banks[i]? = some b → m.banks[j]? = some c →
      b.span.Apart c.span := by
    intro i j b c hij hb hc
    obtain ⟨hi, rfl⟩ := List.getElem?_eq_some_iff.mp hb
    obtain ⟨hj, rfl⟩ := List.getElem?_eq_some_iff.mp hc
    exact List.pairwise_iff_getElem.mp (List.pairwise_map.mp hd) i j hi hj hij
  simp only [Span.Apart, Span.stop, Bank.span, Bank.stop] at *
  rcases Nat.lt_trichotomy i j with hij | hij | hij
  · have := hapart hij hb hc
    omega
  · exact hij
  · have := hapart hij hc hb
    omega

theorem flat_serve (hd : m.Disjoint) (accesses : List MemoryAccess) :
    MemoryAccess.serve FlatMemory.access accesses m.flat =
      (MemoryAccess.serve Memory.access accesses m).map id flat := by
  -- On the accesses: a refused one leaves the memory, another leaves its banks apart.
  induction accesses generalizing m with
  | nil => rfl
  | cons a rest ih =>
    simp only [MemoryAccess.serve, flat_access hd a]
    cases h : m.access a with
    | error e =>
      simp only [Except.map, ih hd]
      rfl
    | ok r =>
      obtain ⟨words, m'⟩ := r
      simp only [Except.map, Prod.map, id, ih (disjoint_access hd h)]

/-- Whatever banks are added to an empty memory: the next one is refused exactly when it does not begin and end at
    whole words, ends beyond the address space or meets a bank; no address is in two banks; and accesses, one after
    another, have the answers and the effect that they have in a flat memory of zeros in which the banks' spans are
    mapped. -/
theorem banks_refine_flat_memory {requests : List (String × Word × Nat)} (h : empty.addBanks requests = .ok m) :
    (∀ (name : String) (base : Word) (len : Nat), (∃ e, m.addBank name base len = .error e) ↔
      ¬4 ∣ base.toNat ∨ ¬4 ∣ len ∨ addressLimit < base.toNat + len ∨
        ∃ b ∈ m.banks, base.toNat < b.stop ∧ b.base.toNat < base.toNat + len) ∧
    (∀ (i j : Nat) (b c : Bank) (x : Nat), m.banks[i]? = some b → m.banks[j]? = some c →
      b.base.toNat ≤ x ∧ x < b.stop → c.base.toNat ≤ x ∧ x < c.stop → i = j) ∧
    ∀ accesses : List MemoryAccess,
      (MemoryAccess.serve Memory.access accesses m).map id flat =
        MemoryAccess.serve FlatMemory.access accesses (.zeros (requests.map fun r => ⟨r.2.1.toNat, r.2.2⟩)) := by
  obtain ⟨hspans, hd, hz⟩ := addBanks_eq_ok (m := empty) List.Pairwise.nil (fun b hb => nomatch hb) h
  refine ⟨fun name base len => addBank_refused_iff, fun i j b c x hb hc hxb hxc => bank_unique hd hb hc hxb hxc,
    fun accesses => ?_⟩
  rw [← flat_serve hd, flat_blank hz, hspans]
  rfl

/-- Two banks side by side and an empty one between them: bytes move within a bank onto themselves and across, at any
    alignment, but not out of a range that lies in both. -/
theorem adjacent_banks_answer :
    ∃ m, empty.addBanks [("low", 0x1000, 8), ("none", 0x1008, 0), ("high", 0x1008, 8)] = .ok m ∧
      (MemoryAccess.serve Memory.access
        [.write 0x1000 [0x04030201, 0x08070605], .copy 0x1001 0x1000 7, .copy 0x100A 0x1003 3, .copy 0x1000 0x1006 4,
          .read 0x1000 2, .read 0x1008 1, .read 0x1002 1] m).1 =
        [.ok [], .ok [], .ok [], .error (.addressOutOfRange 0x1006 4), .ok [0x03020101, 0x07060504], .ok [0x04030000],
          .error (.misaligned "word access" 0x1002 4)] := by
  have hbanks : ∃ m, empty.addBanks [("low", 0x1000, 8), ("none", 0x1008, 0), ("high", 0x1008, 8)] = .ok m := ⟨_, rfl⟩
  obtain ⟨m, hm⟩ := hbanks
  obtain ⟨-, -, hserve⟩ := banks_refine_flat_memory hm
  exact ⟨m, hm, (congrArg Prod.fst (hserve _)).trans rfl⟩

end Memory

end TileOffload
