import TileOffload.Memory
import TileOffload.Proofs.Checks
import TileOffload.Proofs.Span

/-! # Memory as bytes at addresses

Banks do not overlap, so a memory is known by the byte at each address, and what an operation does is told
by the bytes it changes. An operation that writes somewhere leaves every span apart from that as it was, and
no operation moves a bank. -/

namespace TileOffload

namespace Bytes

theorem size_zeros (n : Nat) : (zeros n).size = n := by
  rw [← ByteArray.size_data, data_zeros, Array.size_replicate]

theorem length_flatMap_bytes (ws : List Word) : (ws.flatMap Word.bytes).length = perWord * ws.length := by
  induction ws with
  | nil => rfl
  | cons w ws ih =>
    rw [List.flatMap_cons, List.length_append, ih, List.length_cons, Nat.mul_succ, Nat.add_comm]
    rfl

theorem data_ofWords (ws : List Word) : (ofWords ws).data = (ws.flatMap Word.bytes).toArray := by
  rw [ofWords, List.data_toByteArray]

theorem size_ofWords (ws : List Word) : (ofWords ws).size = perWord * ws.length := by
  rw [← ByteArray.size_data, data_ofWords, List.size_toArray, length_flatMap_bytes]

theorem byteAt_ofWords (ws : List Word) (i : Nat) : byteAt (ofWords ws) i = (ws.flatMap Word.bytes)[i]?.getD 0 := by
  rw [byteAt_eq_getElem?, data_ofWords, List.getElem?_toArray]

theorem byteAt_ofWords_append (xs ys : List Word) (i : Nat) :
    byteAt (ofWords (xs ++ ys)) i =
      if i < perWord * xs.length then byteAt (ofWords xs) i else byteAt (ofWords ys) (i - perWord * xs.length) := by
  simp only [byteAt_ofWords, List.flatMap_append, List.getElem?_append, length_flatMap_bytes]
  split <;> rfl

theorem getElem?_flatMap_bytes {ws : List Word} {k : Nat} {w : Word} (hw : ws[k]? = some w) {r : Nat} (hr : r < 4) :
    (ws.flatMap Word.bytes)[perWord * k + r]? = w.bytes[r]? := by
  induction ws generalizing k with
  | nil => cases hw
  | cons v ws ih =>
    rw [List.flatMap_cons, List.getElem?_append]
    have hlen : v.bytes.length = 4 := rfl
    cases k with
    | zero =>
      cases hw
      rw [if_pos (by omega), Nat.mul_zero, Nat.zero_add]
    | succ k =>
      rw [if_neg (by simp only [perWord]; omega)]
      have : perWord * (k + 1) + r - v.bytes.length = perWord * k + r := by
        simp only [perWord, hlen]
        omega
      rw [this]
      exact ih hw

theorem wordsAt_of_bytes {b : ByteArray} {i : Nat} {ws : List Word}
    (h : ∀ j < perWord * ws.length, byteAt b (i + j) = byteAt (ofWords ws) j) : wordsAt b i ws.length = ws := by
  refine List.ext_getElem (by simp [wordsAt]) fun k hk hk' => ?_
  have byte : ∀ r < 4, byteAt b (i + perWord * k + r) = ws[k].bytes[r]?.getD 0 := by
    intro r hr
    rw [Nat.add_assoc, h _ (by simp only [perWord]; omega), byteAt_ofWords,
      getElem?_flatMap_bytes (List.getElem?_eq_getElem hk') hr]
  simp only [wordsAt, List.getElem_map, List.getElem_range, wordAt]
  have h₀ := byte 0 (by decide)
  rw [Nat.add_zero] at h₀
  rw [h₀, byte 1 (by decide), byte 2 (by decide), byte 3 (by decide)]
  exact Word.ofBytes_bytes _

theorem wordsAt_congr {b c : ByteArray} {i j count : Nat}
    (h : ∀ x < perWord * count, byteAt b (i + x) = byteAt c (j + x)) : wordsAt b i count = wordsAt c j count := by
  refine List.map_congr_left fun k hk => ?_
  have hk := List.mem_range.mp hk
  have byte : ∀ r < 4, byteAt b (i + perWord * k + r) = byteAt c (j + perWord * k + r) := by
    intro r hr
    rw [Nat.add_assoc, h _ (by simp only [perWord]; omega), Nat.add_assoc]
  have h₀ := byte 0 (by decide)
  rw [Nat.add_zero, Nat.add_zero] at h₀
  rw [wordAt, h₀, byte 1 (by decide), byte 2 (by decide), byte 3 (by decide)]
  rfl

theorem byteAt_extract {b : ByteArray} {i n : Nat} (h : i + n ≤ b.size) {j : Nat} (hj : j < n) :
    byteAt (b.extract i (i + n)) j = byteAt b (i + j) := by
  simp only [byteAt_eq_getElem?, ByteArray.data_extract, Array.getElem?_extract]
  rw [← ByteArray.size_data] at h
  rw [if_pos (by omega)]

end Bytes

/-- The addresses of a bank. -/
def Bank.span (b : Bank) : Span := ⟨b.base.toNat, b.bytes.size⟩

theorem Bank.maps_iff {b : Bank} {addr : Word} {len : Nat} :
    b.maps addr len = true ↔ Span.Within ⟨addr.toNat, len⟩ b.span := by
  rw [maps, Bool.and_eq_true, decide_eq_true_iff, decide_eq_true_iff]
  exact Iff.rfl

namespace Memory

/-- The addresses of the banks. -/
def spans (m : Memory) : List Span := m.banks.map Bank.span

/-- No two banks share an address. -/
def Disjoint (m : Memory) : Prop := m.spans.Pairwise Span.Apart

/-- The memories have the same bytes in a span. -/
def AgreeOn (m m' : Memory) (s : Span) : Prop := ∀ x, s.start ≤ x → x < s.stop → m.byteAt? x = m'.byteAt? x

/-- The words are stored from an address on. -/
def Holds (m : Memory) (addr : Nat) (ws : List Word) : Prop :=
  ∀ i < Bytes.perWord * ws.length, m.byteAt? (addr + i) = some (Bytes.byteAt (Bytes.ofWords ws) i)

variable {m m' m'' : Memory}

theorem AgreeOn.refl (m : Memory) (s : Span) : m.AgreeOn m s := fun _ _ _ => rfl

theorem AgreeOn.trans {s : Span} (h : m.AgreeOn m' s) (h' : m'.AgreeOn m'' s) : m.AgreeOn m'' s :=
  fun x hx hx' => (h x hx hx').trans (h' x hx hx')

theorem Holds.congr {addr : Nat} {ws : List Word} (h : m.Holds addr ws)
    (ha : m'.AgreeOn m ⟨addr, Bytes.perWord * ws.length⟩) : m'.Holds addr ws := fun i hi =>
  (ha (addr + i) (Nat.le_add_right _ _) (Nat.add_lt_add_left hi _)).trans (h i hi)

theorem holds_append {addr : Nat} {xs ys : List Word} :
    m.Holds addr (xs ++ ys) ↔ m.Holds addr xs ∧ m.Holds (addr + Bytes.perWord * xs.length) ys := by
  simp only [Holds, Bytes.byteAt_ofWords_append, List.length_append, Nat.mul_add]
  constructor
  · intro h
    refine ⟨fun i hi => ?_, fun i hi => ?_⟩
    · rw [h i (by omega), if_pos hi]
    · rw [Nat.add_assoc, h _ (by omega), if_neg (by omega), Nat.add_sub_cancel_left]
  · rintro ⟨h, h'⟩ i hi
    split
    · exact h i ‹_›
    · have := h' (i - Bytes.perWord * xs.length) (by omega)
      rwa [Nat.add_assoc, Nat.add_sub_cancel' (by omega)] at this

theorem Holds.slice {addr : Nat} {ws : List Word} (h : m.Holds addr ws) {i n : Nat} (hi : i + n ≤ ws.length) :
    m.Holds (addr + Bytes.perWord * i) ((ws.drop i).take n) := by
  rw [← List.take_append_drop i ws, holds_append, List.length_take, Nat.min_eq_left (by omega)] at h
  have := h.2
  rw [← List.take_append_drop n (ws.drop i), holds_append] at this
  exact this.1

/-- A vector is stored when all its pieces are. -/
theorem holds_of_pieces {addr len n : Nat} {ws : List Word} (hws : ws.length = n * len)
    (h : ∀ i < n, m.Holds (addr + Bytes.perWord * (i * len)) ((ws.drop (i * len)).take len)) : m.Holds addr ws := by
  -- On the pieces: a prefix of whole pieces is stored when the one before it and the next piece are.
  have hprefix : ∀ i, i ≤ n → m.Holds addr (ws.take (i * len)) := by
    intro i
    induction i with
    | zero =>
      intro _
      rw [Nat.zero_mul, List.take_zero]
      exact fun j hj => absurd hj (Nat.not_lt_zero j)
    | succ i ih =>
      intro hi
      have hlen : (ws.take (i * len)).length = i * len := by
        have := Nat.mul_le_mul_right len (Nat.le_of_succ_le hi)
        rw [List.length_take]
        omega
      rw [Nat.succ_mul, List.take_add, holds_append, hlen]
      exact ⟨ih (Nat.le_of_succ_le hi), h i hi⟩
  have hall := hprefix n (Nat.le_refl n)
  rwa [List.take_of_length_le (Nat.le_of_eq hws)] at hall

/-! ### Banks -/

theorem maps_iff {addr : Word} {len : Nat} :
    m.maps addr len = true ↔ ∃ s ∈ m.spans, Span.Within ⟨addr.toNat, len⟩ s := by
  rw [maps, bank?, List.find?_isSome]
  constructor
  · rintro ⟨b, hb, hc⟩
    exact ⟨b.span, List.mem_map_of_mem hb, Bank.maps_iff.mp hc⟩
  · rintro ⟨s, hs, hw⟩
    obtain ⟨b, hb, rfl⟩ := List.mem_map.mp hs
    exact ⟨b, hb, Bank.maps_iff.mpr hw⟩

theorem locate_eq_ok {addr : Word} {len : Nat} {b : Bank} : m.locate addr len = .ok b ↔ m.bank? addr len = some b := by
  unfold locate
  split
  · rename_i h
    simp [h]
  · rename_i h
    simp [h]

theorem bank?_eq_some {addr : Word} {len : Nat} {b : Bank} (h : m.bank? addr len = some b) :
    b ∈ m.banks ∧ Span.Within ⟨addr.toNat, len⟩ b.span := by
  have hc : b.maps addr len = true := by simpa using List.find?_some h
  exact ⟨List.mem_of_find?_eq_some h, Bank.maps_iff.mp hc⟩

theorem maps_of_bank? {addr : Word} {len : Nat} {b : Bank} (h : m.bank? addr len = some b) :
    m.maps addr len = true := by
  rw [maps, h]
  rfl

theorem exists_bank? {addr : Word} {len : Nat} (h : m.maps addr len = true) : ∃ b, m.bank? addr len = some b :=
  Option.isSome_iff_exists.mp h

/-- What a memory is taken to hold depends on where its banks lie only. -/
theorem contains_eq_any (m : Memory) (addr : Word) (len : Nat) :
    m.contains addr len =
      m.spans.any fun s => decide (s.start ≤ addr.toNat) && decide (Size.wrap (addr.toNat + len) ≤ s.stop) := by
  rw [contains, spans, List.any_map]
  rfl

theorem contains_of_maps {addr : Word} {len : Nat} (h : m.maps addr len = true) : m.contains addr len = true := by
  obtain ⟨s, hs, hstart, hstop⟩ := maps_iff.mp h
  rw [contains_eq_any]
  refine List.any_eq_true.mpr ⟨s, hs, Bool.and_eq_true_iff.mpr ⟨decide_eq_true hstart, decide_eq_true ?_⟩⟩
  exact Nat.le_trans (Size.wrap_le _) hstop

/-- A range that ends within 64 bits is taken for mapped only if it is. -/
theorem contains_eq_maps {addr : Word} {len : Nat} (hlen : addr.toNat + len < Size.limit) :
    m.contains addr len = m.maps addr len := by
  rw [Bool.eq_iff_iff, maps_iff, contains_eq_any, Size.wrap_of_lt hlen, List.any_eq_true]
  simp only [Bool.and_eq_true, decide_eq_true_iff]
  exact Iff.rfl

theorem byteAt?_cons (b : Bank) (rest : List Bank) (x : Nat) :
    byteAt? ⟨b :: rest⟩ x =
      if b.base.toNat ≤ x ∧ x < b.stop then some (Bytes.byteAt b.bytes (x - b.base.toNat)) else byteAt? ⟨rest⟩ x := by
  simp only [byteAt?, List.find?_cons, ← Bool.decide_and]
  by_cases h : b.base.toNat ≤ x ∧ x < b.stop
  · simp [h]
  · simp [h]

theorem Disjoint.congr (hd : m.Disjoint) (h : m'.spans = m.spans) : m'.Disjoint := by
  rw [Disjoint, h]
  exact hd

theorem disjoint_cons {b : Bank} {rest : List Bank} :
    Disjoint ⟨b :: rest⟩ ↔ (∀ c ∈ rest, b.span.Apart c.span) ∧ Disjoint ⟨rest⟩ := by
  simp [Disjoint, spans]

theorem byteAt?_of_mem (hd : m.Disjoint) {b : Bank} (hb : b ∈ m.banks) {x : Nat} (hx : b.base.toNat ≤ x)
    (hx' : x < b.stop) : m.byteAt? x = some (Bytes.byteAt b.bytes (x - b.base.toNat)) := by
  obtain ⟨banks⟩ := m
  induction banks with
  | nil => cases hb
  | cons c rest ih =>
    obtain ⟨hc, hd⟩ := disjoint_cons.mp hd
    rw [byteAt?_cons]
    rcases List.mem_cons.mp hb with rfl | hb
    · rw [if_pos ⟨hx, hx'⟩]
    · have hout : ¬(c.base.toNat ≤ x ∧ x < c.stop) := by
        have := hc b hb
        simp only [Span.Apart, Span.stop, Bank.span, Bank.stop] at *
        omega
      rw [if_neg hout]
      exact ih hd hb

/-! ### Writes -/

theorem spans_store (m : Memory) (addr : Word) (data : ByteArray) : (m.store addr data).spans = m.spans := by
  obtain ⟨banks⟩ := m
  simp only [spans, store]
  induction banks with
  | nil => rfl
  | cons b rest ih =>
    rw [store.go]
    split
    · rename_i hc
      have hw := Bank.maps_iff.mp hc
      simp only [Span.Within, Span.stop, Bank.span] at hw
      have hsize : (Bytes.splice b.bytes (b.indexOf addr) data).size = b.bytes.size :=
        Bytes.size_splice (by simp only [Bank.indexOf]; omega)
      simp [Bank.span, hsize]
    · rw [List.map_cons, List.map_cons, ih]

/-- A store into one bank changes exactly the bytes it covers. -/
theorem byteAt?_store (hd : m.Disjoint) {addr : Word} {data : ByteArray} (h : m.maps addr data.size = true)
    (x : Nat) :
    (m.store addr data).byteAt? x =
      if addr.toNat ≤ x ∧ x < addr.toNat + data.size then some (Bytes.byteAt data (x - addr.toNat)) else m.byteAt? x := by
  obtain ⟨banks⟩ := m
  obtain ⟨s, hs, hwithin⟩ := maps_iff.mp h
  clear h
  simp only [store]
  -- On the banks: the store is into the first that covers the range, and the others are apart from it.
  induction banks with
  | nil => cases hs
  | cons b rest ih =>
    obtain ⟨hb, hd⟩ := disjoint_cons.mp hd
    rw [store.go]
    split
    · rename_i hc
      have hw := Bank.maps_iff.mp hc
      simp only [Span.Within, Span.stop, Bank.span] at hw
      have hindex : b.indexOf addr = addr.toNat - b.base.toNat := rfl
      have hstop : b.stop = b.base.toNat + b.bytes.size := rfl
      have hfit : b.indexOf addr + data.size ≤ b.bytes.size := by omega
      have hstop' : Bank.stop { b with bytes := Bytes.splice b.bytes (b.indexOf addr) data } = b.stop := by
        simp only [Bank.stop, Bytes.size_splice hfit]
      rw [byteAt?_cons, byteAt?_cons, hstop', Bytes.byteAt_splice hfit]
      dsimp only
      by_cases hx : b.base.toNat ≤ x ∧ x < b.stop
      · rw [if_pos hx, if_pos hx]
        by_cases hr : addr.toNat ≤ x ∧ x < addr.toNat + data.size
        · rw [if_pos hr, if_pos (by omega)]
          congr 2
          omega
        · rw [if_neg hr, if_neg (by omega)]
      · rw [if_neg hx, if_neg hx, if_neg (by omega)]
    · rename_i hc
      -- The range lies in a later bank, so not in this one.
      have hs' : s ∈ Memory.spans ⟨rest⟩ := by
        rcases List.mem_cons.mp hs with rfl | hs
        · exact absurd (Bank.maps_iff.mpr hwithin) hc
        · exact hs
      obtain ⟨c, hcm, rfl⟩ := List.mem_map.mp hs'
      have hapart := hb c hcm
      have hstop : b.stop = b.base.toNat + b.bytes.size := rfl
      rw [byteAt?_cons, byteAt?_cons, ih hd hs']
      simp only [Span.Within, Span.Apart, Span.stop, Bank.span] at hwithin hapart
      by_cases hx : b.base.toNat ≤ x ∧ x < b.stop
      · rw [if_pos hx, if_pos hx, if_neg (by omega)]
      · rw [if_neg hx, if_neg hx]

/-- What an operation that writes `len` bytes at `addr` leaves alone. -/
structure Wrote (m m' : Memory) (s : Span) : Prop where
  spans_eq : m'.spans = m.spans
  apart : ∀ t : Span, t.Apart s → m'.AgreeOn m t

theorem wrote_store (hd : m.Disjoint) {addr : Word} {data : ByteArray} (h : m.maps addr data.size = true) :
    m.Wrote (m.store addr data) ⟨addr.toNat, data.size⟩ := by
  refine ⟨spans_store m addr data, fun t ht x hx hx' => ?_⟩
  simp only [Span.Apart, Span.stop] at ht hx'
  rw [byteAt?_store hd h, if_neg (by omega)]

theorem Wrote.refl (m : Memory) (s : Span) : m.Wrote m s := ⟨rfl, fun t _ => .refl m t⟩

theorem Wrote.disjoint {s : Span} (h : m.Wrote m' s) (hd : m.Disjoint) : m'.Disjoint := hd.congr h.spans_eq

theorem Wrote.holds {s : Span} (h : m.Wrote m' s) {addr : Nat} {ws : List Word} (hh : m.Holds addr ws)
    (ha : Span.Apart ⟨addr, Bytes.perWord * ws.length⟩ s) : m'.Holds addr ws :=
  hh.congr (h.apart _ ha)

theorem exists_copy {dst src : Word} {len : Nat} (hdst : m.maps dst len = true) (hsrc : m.maps src len = true) :
    ∃ m', m.copy dst src len = .ok m' := by
  obtain ⟨c, hc⟩ := exists_bank? hdst
  obtain ⟨b, hb⟩ := exists_bank? hsrc
  exact ⟨_, bind_eq_ok.mpr ⟨c, locate_eq_ok.mpr hc, bind_eq_ok.mpr ⟨b, locate_eq_ok.mpr hb, rfl⟩⟩⟩

/-- A copy writes its destination only, and what was at the source is at the destination then. -/
theorem wrote_copy (hd : m.Disjoint) {dst src : Word} {len : Nat} (h : m.copy dst src len = .ok m') :
    m.Wrote m' ⟨dst.toNat, len⟩ ∧
      ∀ ws : List Word, Bytes.perWord * ws.length = len → m.Holds src.toNat ws → m'.Holds dst.toNat ws := by
  simp only [copy, bind_eq_ok, locate_eq_ok, pure_eq_ok] at h
  obtain ⟨c, hc, b, hb, rfl⟩ := h
  obtain ⟨hbm, hw⟩ := bank?_eq_some hb
  simp only [Span.Within, Span.stop, Bank.span] at hw
  have hindex : b.indexOf src = src.toNat - b.base.toNat := rfl
  have hstop : b.stop = b.base.toNat + b.bytes.size := rfl
  have hfit : b.indexOf src + len ≤ b.bytes.size := by omega
  have hsize : (b.bytes.extract (b.indexOf src) (b.indexOf src + len)).size = len := by
    rw [ByteArray.size_extract]
    omega
  have hcont : m.maps dst (b.bytes.extract (b.indexOf src) (b.indexOf src + len)).size = true := by
    rw [hsize]
    exact maps_of_bank? hc
  have hwrote := wrote_store hd hcont
  rw [hsize] at hwrote
  refine ⟨hwrote, fun ws hws hh i hi => ?_⟩
  rw [byteAt?_store hd hcont, hsize, if_pos (by omega), Nat.add_sub_cancel_left, Bytes.byteAt_extract hfit (by omega),
    ← hh i hi, byteAt?_of_mem hd hbm (by omega) (by omega)]
  congr 2
  omega

theorem locateWords_eq_ok {addr : Word} {count : Nat} {b : Bank} :
    m.locateWords addr count = .ok b ↔ 4 ∣ addr.toNat ∧ m.bank? addr (count * Bytes.perWord) = some b := by
  unfold locateWords
  split
  · rename_i h
    rw [locate_eq_ok]
    exact ⟨fun hb => ⟨Nat.dvd_of_mod_eq_zero h, hb⟩, fun hb => hb.2⟩
  · rename_i h
    simp only [reduceCtorEq, false_iff]
    exact fun hb => h (Nat.mod_eq_zero_of_dvd hb.1)

theorem locateWords_eq_error {addr : Word} {count : Nat} {e : Error} (h : m.locateWords addr count = .error e) :
    ¬4 ∣ addr.toNat ∧ e = .misaligned "word access" addr.toNat Bytes.perWord ∨
      4 ∣ addr.toNat ∧ m.maps addr (count * Bytes.perWord) = false ∧
        e = .addressOutOfRange addr.toNat (count * Bytes.perWord) := by
  unfold locateWords at h
  split at h
  · rename_i ha
    unfold locate at h
    split at h
    · cases h
    · rename_i hnone
      cases h
      exact Or.inr ⟨Nat.dvd_of_mod_eq_zero ha, by rw [maps, hnone]; rfl, rfl⟩
  · rename_i ha
    cases h
    exact Or.inl ⟨fun hd => ha (Nat.mod_eq_zero_of_dvd hd), rfl⟩

theorem readWords_eq_error {addr : Word} {count : Nat} {e : Error} :
    m.readWords addr count = .error e ↔ m.locateWords addr count = .error e := by
  unfold readWords
  cases m.locateWords addr count <;> simp [bind, Except.bind, pure, Except.pure]

theorem writeWords_eq_error {addr : Word} {words : List Word} {e : Error} :
    m.writeWords addr words = .error e ↔ m.locateWords addr words.length = .error e := by
  unfold writeWords
  cases m.locateWords addr words.length <;> simp [bind, Except.bind, pure, Except.pure]

theorem exists_writeWords {addr : Word} {ws : List Word} (ha : 4 ∣ addr.toNat)
    (hc : m.maps addr (ws.length * Bytes.perWord) = true) : ∃ m', m.writeWords addr ws = .ok m' := by
  obtain ⟨b, hb⟩ := exists_bank? hc
  exact ⟨_, bind_eq_ok.mpr ⟨b, locateWords_eq_ok.mpr ⟨ha, hb⟩, rfl⟩⟩

/-- Words that have been written are there, and nothing else has changed. -/
theorem wrote_writeWords (hd : m.Disjoint) {addr : Word} {ws : List Word} (h : m.writeWords addr ws = .ok m') :
    m.Wrote m' ⟨addr.toNat, Bytes.perWord * ws.length⟩ ∧ m'.Holds addr.toNat ws := by
  simp only [writeWords, bind_eq_ok, locateWords_eq_ok, pure_eq_ok] at h
  obtain ⟨b, ⟨-, hb⟩, rfl⟩ := h
  have hsize := Bytes.size_ofWords ws
  have hcont : m.maps addr (Bytes.ofWords ws).size = true := by
    rw [hsize, Nat.mul_comm]
    exact maps_of_bank? hb
  have hwrote := wrote_store hd hcont
  rw [hsize] at hwrote
  refine ⟨hwrote, fun i hi => ?_⟩
  rw [byteAt?_store hd hcont, hsize, if_pos (by omega), Nat.add_sub_cancel_left]

/-! ### Reads -/

theorem readWords_of_holds (hd : m.Disjoint) {addr : Word} {ws : List Word} (hh : m.Holds addr.toNat ws)
    (ha : 4 ∣ addr.toNat) (hc : m.maps addr (ws.length * Bytes.perWord) = true) :
    m.readWords addr ws.length = .ok ws := by
  obtain ⟨b, hb⟩ := exists_bank? hc
  obtain ⟨hbm, hw⟩ := bank?_eq_some hb
  refine bind_eq_ok.mpr ⟨b, locateWords_eq_ok.mpr ⟨ha, hb⟩, pure_eq_ok.mpr (Bytes.wordsAt_of_bytes fun j hj => ?_)⟩
  simp only [Span.Within, Span.stop, Bank.span] at hw
  have hindex : b.indexOf addr = addr.toNat - b.base.toNat := rfl
  have hstop : b.stop = b.base.toNat + b.bytes.size := rfl
  have hbyte := hh j hj
  rw [Nat.mul_comm] at hj
  rw [byteAt?_of_mem hd hbm (by omega) (by omega), Option.some.injEq] at hbyte
  rw [← hbyte]
  congr 1
  omega

theorem exists_readWords {addr : Word} {count : Nat} (ha : 4 ∣ addr.toNat)
    (hc : m.maps addr (count * Bytes.perWord) = true) : ∃ ws, m.readWords addr count = .ok ws := by
  obtain ⟨b, hb⟩ := exists_bank? hc
  exact ⟨_, bind_eq_ok.mpr ⟨b, locateWords_eq_ok.mpr ⟨ha, hb⟩, rfl⟩⟩

theorem length_readWords {addr : Word} {count : Nat} {ws : List Word} (h : m.readWords addr count = .ok ws) :
    ws.length = count := by
  simp only [readWords, bind_eq_ok, pure_eq_ok] at h
  obtain ⟨b, -, rfl⟩ := h
  simp [Bytes.wordsAt]

theorem readWords_eq (hd : m.Disjoint) {addr : Word} {ws xs : List Word} (h : m.readWords addr ws.length = .ok xs)
    (hh : m.Holds addr.toNat ws) : xs = ws := by
  obtain ⟨b, hb, -⟩ := bind_eq_ok.mp h
  obtain ⟨ha, hbank⟩ := locateWords_eq_ok.mp hb
  have := readWords_of_holds hd hh ha (maps_of_bank? hbank)
  exact Except.ok.inj (h.symm.trans this)

theorem readWords_congr (hd : m.Disjoint) (hd' : m'.Disjoint) {addr : Word} {count : Nat}
    (h : m'.AgreeOn m ⟨addr.toNat, Bytes.perWord * count⟩) (ha : 4 ∣ addr.toNat)
    (hc : m.maps addr (count * Bytes.perWord) = true) (hc' : m'.maps addr (count * Bytes.perWord) = true) :
    m'.readWords addr count = m.readWords addr count := by
  obtain ⟨b, hb⟩ := exists_bank? hc
  obtain ⟨b', hb'⟩ := exists_bank? hc'
  obtain ⟨hbm, hw⟩ := bank?_eq_some hb
  obtain ⟨hbm', hw'⟩ := bank?_eq_some hb'
  have hread : m.readWords addr count = .ok (Bytes.wordsAt b.bytes (b.indexOf addr) count) :=
    bind_eq_ok.mpr ⟨b, locateWords_eq_ok.mpr ⟨ha, hb⟩, rfl⟩
  refine Eq.trans (bind_eq_ok.mpr ⟨b', locateWords_eq_ok.mpr ⟨ha, hb'⟩, ?_⟩) hread.symm
  refine pure_eq_ok.mpr (Bytes.wordsAt_congr fun x hx => ?_)
  simp only [Span.Within, Span.stop, Bank.span] at hw hw'
  have hstop : b.stop = b.base.toNat + b.bytes.size := rfl
  have hstop' : b'.stop = b'.base.toNat + b'.bytes.size := rfl
  have hcount : Bytes.perWord * count = count * Bytes.perWord := Nat.mul_comm _ _
  have hbyte := h (addr.toNat + x) (Nat.le_add_right _ _) (Nat.add_lt_add_left hx _)
  rw [byteAt?_of_mem hd hbm (by omega) (by omega), byteAt?_of_mem hd' hbm' (by omega) (by omega),
    Option.some.injEq] at hbyte
  rw [show b'.indexOf addr + x = addr.toNat + x - b'.base.toNat by simp only [Bank.indexOf]; omega, hbyte]
  congr 1
  simp only [Bank.indexOf]
  omega

/-! ### The memory of a cluster -/

theorem addBank_eq_ok {name : String} {base : Word} {len : Nat} (h : m.addBank name base len = .ok m') :
    m'.spans = m.spans ++ [⟨base.toNat, len⟩] ∧ (m.Disjoint → m'.Disjoint) := by
  simp only [addBank, unless_eq_ok] at h
  obtain ⟨-, -, -, h⟩ := h
  split at h
  · cases h
  · rename_i hfree
    cases h
    have hspans : Memory.spans ⟨m.banks ++ [⟨name, base, Bytes.zeros len⟩]⟩ = m.spans ++ [⟨base.toNat, len⟩] := by
      simp [spans, Bank.span, Bytes.size_zeros]
    refine ⟨hspans, fun hd => ?_⟩
    rw [Disjoint, hspans]
    refine List.pairwise_append.mpr ⟨hd, List.pairwise_singleton _ _, fun s hs t ht => ?_⟩
    obtain ⟨b, hb, rfl⟩ := List.mem_map.mp hs
    obtain rfl := List.mem_singleton.mp ht
    have := List.find?_eq_none.mp hfree b hb
    simp only [Bool.and_eq_true, decide_eq_true_eq] at this
    simp only [Span.Apart, Span.stop, Bank.span, Bank.stop] at *
    omega

theorem exists_addBank (name : String) {base : Word} {len : Nat} (hb : 4 ∣ base.toNat) (hl : 4 ∣ len)
    (hend : base.toNat + len ≤ addressLimit) (hfree : ∀ s ∈ m.spans, s.Apart ⟨base.toNat, len⟩) :
    ∃ m', m.addBank name base len = .ok m' := by
  have hnone : (m.banks.find? fun b => base.toNat < b.stop && b.base.toNat < base.toNat + len) = none := by
    refine List.find?_eq_none.mpr fun b hm => ?_
    have := hfree b.span (List.mem_map_of_mem hm)
    simp only [Bool.and_eq_true, decide_eq_true_eq]
    simp only [Span.Apart, Span.stop, Bank.span, Bank.stop] at *
    omega
  refine ⟨⟨m.banks ++ [⟨name, base, Bytes.zeros len⟩]⟩, ?_⟩
  simp only [addBank, unless_eq_ok]
  refine ⟨fun hne => hne (Nat.mod_eq_zero_of_dvd hb), fun hne => hne (Nat.mod_eq_zero_of_dvd hl), by omega, ?_⟩
  rw [hnone]
  rfl

/-- Backing storage and the TCDM, and nothing else. -/
def Snax (m : Memory) (backing : Nat) : Prop :=
  m.spans = [⟨Chip.backingBase.toNat, backing⟩, ⟨Chip.tcdmBase.toNat, Chip.tcdmSize⟩] ∧ m.Disjoint

theorem snax_eq_ok {backing : Nat} (h : snax backing = .ok m) : m.Snax backing := by
  simp only [snax, bind_eq_ok, unless_eq_ok] at h
  obtain ⟨-, m₁, h₁, h₂⟩ := h
  obtain ⟨hs₁, hd₁⟩ := addBank_eq_ok h₁
  obtain ⟨hs₂, hd₂⟩ := addBank_eq_ok h₂
  refine ⟨?_, hd₂ (hd₁ .nil)⟩
  rw [hs₂, hs₁]
  rfl

theorem exists_snax {backing : Nat} (hw : 4 ∣ backing) (hle : backing ≤ Chip.backingLimit) :
    ∃ m, snax backing = .ok m := by
  have hbase : Chip.backingBase.toNat = 2147483648 := rfl
  have hbase' : Chip.tcdmBase.toNat = 268435456 := rfl
  have hsize : Chip.tcdmSize = 131072 := rfl
  have hlimit : Chip.backingLimit = 4194304 := rfl
  have hend : addressLimit = 4294967296 := rfl
  have hword : 4 ∣ Chip.backingBase.toNat := by decide
  have hword' : 4 ∣ Chip.tcdmBase.toNat := by decide
  obtain ⟨m₁, h₁⟩ := exists_addBank (m := empty) "l3" hword hw (by omega) nofun
  obtain ⟨hs₁, -⟩ := addBank_eq_ok h₁
  have hfree : ∀ s ∈ m₁.spans, s.Apart ⟨Chip.tcdmBase.toNat, Chip.tcdmSize⟩ := by
    intro s hs
    rw [hs₁] at hs
    obtain rfl := List.mem_singleton.mp hs
    exact Or.inr (by simp only [Span.stop]; omega)
  obtain ⟨m₂, h₂⟩ := exists_addBank (m := m₁) "tcdm" hword' (by decide) (by omega) hfree
  refine ⟨m₂, ?_⟩
  simp only [snax, bind_eq_ok, unless_eq_ok]
  exact ⟨by omega, m₁, h₁, h₂⟩

theorem Wrote.snax {s : Span} {backing : Nat} (h : m.Wrote m' s) (hs : m.Snax backing) : m'.Snax backing :=
  ⟨h.spans_eq.trans hs.1, h.disjoint hs.2⟩

end Memory

end TileOffload
