import TileOffload.Transfer
import TileOffload.Proofs.FlatRefinement

/-! # Deferred transfers

A transfer is checked when it is started and takes effect when the queue is flushed, and in between others may read
and write the memory as they like. No bank ever moves, so what was mapped at the start is mapped at the flush. Main
statement: whatever is called in whatever order, as long as the ranges end within 64 bits, the queue and its memory
answer and behave as a list of transfers beside a flat memory, in which a flush cannot fail. The bound is needed: a
transfer so long that the end of a range wraps may be accepted though it is mapped nowhere, and then the flush
panics. -/

namespace TileOffload

/-- A call on a transfer queue, or an access by others to the memory that its transfers copy. -/
inductive QueueCall
  | start (t : Transfer)
  | flush
  | barrier
  | access (a : MemoryAccess)

/-- What a call answers that is not refused. -/
inductive QueueAnswer
  | started (id : Word)
  | flushed (count : Nat)
  | passed
  | accessed (words : List Word)
deriving DecidableEq, Repr

namespace QueueCall

/-- The ranges of the call end within 64 bits. -/
def Fits : QueueCall → Prop
  | .start t => t.src.toNat + t.len < Size.limit ∧ t.dst.toNat + t.len < Size.limit
  | .access (.read addr count) => addr.toNat + count * Bytes.perWord < Size.limit
  | .access (.copy dst src len) => dst.toNat + len < Size.limit ∧ src.toNat + len < Size.limit
  | .access (.write ..) | .flush | .barrier => True

instance : DecidablePred Fits
  | .start _ | .access (.copy ..) => inferInstanceAs (Decidable (_ ∧ _))
  | .access (.read ..) => inferInstanceAs (Decidable (_ < _))
  | .access (.write ..) | .flush | .barrier => inferInstanceAs (Decidable True)

/-- The answers to calls one after another, and what they leave. A panic is the last answer. -/
def serve {σ : Type} (call : σ → QueueCall → Outcome QueueAnswer × σ) :
    List QueueCall → σ → List (Outcome QueueAnswer) × σ
  | [], s => ([], s)
  | c :: rest, s =>
    match call s c with
    | (.panicked, s) => ([.panicked], s)
    | (answer, s) => (serve call rest s).map (answer :: ·) id

end QueueCall

/-- What an access answers and leaves, also where the end of its range does not fit. No list of words is so long. -/
def Memory.accessUnchecked (m : Memory) : MemoryAccess → Outcome (List Word × Memory)
  | .read addr count => (m.readUnchecked addr count).map (·, m)
  | .write addr words => (Outcome.ofExcept (m.writeWords addr words)).map ([], ·)
  | .copy dst src len => (m.copyUnchecked dst src len).map ([], ·)

/-- What a call on a queue, or an access to its memory, answers and leaves. -/
def TransferQueue.call (s : TransferQueue × Memory) : QueueCall → Outcome QueueAnswer × TransferQueue × Memory
  | .start t =>
    match s.1.start s.2 t with
    | .ok (id, queue) => (.done (.started id), queue, s.2)
    | .error e => (.failed e, s)
  | .flush => ((s.1.flush s.2).1.map .flushed, (s.1.flush s.2).2)
  | .barrier => ((s.1.settle s.2).1.map fun _ => .passed, (s.1.settle s.2).2)
  | .access a =>
    match s.2.accessUnchecked a with
    | .done (words, memory) => (.done (.accessed words), s.1, memory)
    | .failed e => (.failed e, s)
    | .panicked => (.panicked, s)

namespace FlatMemory

/-- A range of bytes lies inside one mapped span. -/
def Maps (f : FlatMemory) (addr : Word) (len : Nat) : Prop := ∃ s ∈ f.mapped, Span.Within ⟨addr.toNat, len⟩ s

instance (f : FlatMemory) (addr : Word) (len : Nat) : Decidable (f.Maps addr len) :=
  inferInstanceAs (Decidable (∃ s ∈ f.mapped, _))

/-- The memory after a transfer: the bytes that were at its source are at its destination. -/
def move (f : FlatMemory) (t : Transfer) : FlatMemory := f.put t.dst.toNat t.len fun i => f.byte (t.src.toNat + i)

theorem mapped_access {f f' : FlatMemory} {a : MemoryAccess} {words : List Word} (h : f.access a = .ok (words, f')) :
    f'.mapped = f.mapped := by
  cases a with
  | read addr count =>
    obtain ⟨-, -, h⟩ := bind_eq_ok.mp h
    cases h
    rfl
  | write addr ws =>
    obtain ⟨-, -, h⟩ := bind_eq_ok.mp h
    cases h
    rfl
  | copy dst src len =>
    obtain ⟨-, -, h⟩ := bind_eq_ok.mp h
    obtain ⟨-, -, h⟩ := bind_eq_ok.mp h
    cases h
    rfl

end FlatMemory

/-- A flat memory, the number of the transfers that have landed in it, and those that have yet to land. -/
structure Deferral where
  memory : FlatMemory
  landed : Nat
  waiting : List Transfer

namespace Deferral

/-- All that waits lands, one transfer after another. -/
def land (s : Deferral) : Deferral := ⟨s.waiting.foldl .move s.memory, s.landed + s.waiting.length, []⟩

/-- What a call answers and leaves: a transfer between mapped ranges is numbered and waits, and a flush or a barrier
    lands everything that waits. -/
def call (s : Deferral) : QueueCall → Outcome QueueAnswer × Deferral
  | .start t =>
    if ¬s.memory.Maps t.src t.len then (.failed (.transferFailed (.unmapped .source t.src t.len)), s)
    else if ¬s.memory.Maps t.dst t.len then (.failed (.transferFailed (.unmapped .destination t.dst t.len)), s)
    else (.done (.started (UInt32.ofNat (s.landed + s.waiting.length))), { s with waiting := s.waiting ++ [t] })
  | .flush => (.done (.flushed s.waiting.length), s.land)
  | .barrier => (.done .passed, s.land)
  | .access a =>
    match s.memory.access a with
    | .ok (words, memory) => (.done (.accessed words), { s with memory })
    | .error e => (.failed e, s)

end Deferral

/-- The queue and its memory are in the state that `s` describes, and all that waits can land. -/
structure Deferred (q : TransferQueue) (m : Memory) (s : Deferral) : Prop where
  disjoint : m.Disjoint
  memory : m.flat = s.memory
  pending : q.pending = s.waiting
  issued : q.issued = UInt32.ofNat (s.landed + s.waiting.length)
  quiet : q.fault = none
  mapped : ∀ t ∈ s.waiting, s.memory.Maps t.src t.len ∧ s.memory.Maps t.dst t.len

variable {q : TransferQueue} {m : Memory} {s : Deferral}

theorem QueueCall.serve_cons {σ : Type} {call : σ → QueueCall → Outcome QueueAnswer × σ} {s : σ} {c : QueueCall}
    {rest : List QueueCall} (h : (call s c).1 ≠ .panicked) :
    serve call (c :: rest) s = (serve call rest (call s c).2).map ((call s c).1 :: ·) id := by
  rw [serve]
  split
  · rename_i hc
    exact absurd (congrArg Prod.fst hc) h
  · rename_i hc
    rw [hc]

theorem Deferral.call_ne_panicked (s : Deferral) (c : QueueCall) : (s.call c).1 ≠ .panicked := by
  cases c with
  | start t =>
    simp only [call]
    split
    · simp
    · split <;> simp
  | flush | barrier => simp [call]
  | access a =>
    simp only [call]
    split <;> simp

/-! ### Accesses of any length -/

namespace Memory

theorem maps_iff_flat {addr : Word} {len : Nat} : m.maps addr len = true ↔ m.flat.Maps addr len := maps_iff

/-- A range that ends within 64 bits is taken for mapped exactly when it is. -/
theorem contains_iff_flat {addr : Word} {len : Nat} (hlen : addr.toNat + len < Size.limit) :
    m.contains addr len = true ↔ m.flat.Maps addr len := by
  rw [contains_eq_maps hlen, maps_iff_flat]

theorem contains_eq_false {addr : Word} {len : Nat} (hlen : addr.toNat + len < Size.limit) (h : ¬m.flat.Maps addr len) :
    m.contains addr len = false :=
  Bool.eq_false_iff.mpr fun hcontains => h ((contains_iff_flat hlen).mp hcontains)

theorem locate_of_not_maps {addr : Word} {len : Nat} (h : ¬m.flat.Maps addr len) :
    m.locate addr len = .error (.addressOutOfRange addr.toNat len) := by
  rw [← maps_iff_flat, maps, Option.not_isSome_iff_eq_none] at h
  rw [locate, h]

theorem copy_of_not_destination {dst src : Word} {len : Nat} (h : ¬m.flat.Maps dst len) :
    m.copy dst src len = .error (.addressOutOfRange dst.toNat len) := by
  rw [copy, locate_of_not_maps h]
  rfl

theorem copy_of_not_source {dst src : Word} {len : Nat} (hdst : m.flat.Maps dst len) (h : ¬m.flat.Maps src len) :
    m.copy dst src len = .error (.addressOutOfRange src.toNat len) := by
  obtain ⟨b, hb⟩ := exists_bank? (maps_iff_flat.mpr hdst)
  rw [copy, locate_eq_ok.mpr hb, locate_of_not_maps h]
  rfl

theorem copyUnchecked_of_ok {m' : Memory} {dst src : Word} {len : Nat} (h : m.copy dst src len = .ok m') :
    m.copyUnchecked dst src len = .done m' := by
  obtain ⟨c, hc, hrest⟩ := bind_eq_ok.mp h
  obtain ⟨b, hb, -⟩ := bind_eq_ok.mp hrest
  have hdst := contains_of_maps (maps_of_bank? (locate_eq_ok.mp hc))
  have hsrc := contains_of_maps (maps_of_bank? (locate_eq_ok.mp hb))
  simp only [copyUnchecked, hdst, hsrc, h, Bool.not_true, Bool.false_eq_true, if_false]

theorem copyUnchecked_of_fits {dst src : Word} {len : Nat} (hdst : dst.toNat + len < Size.limit)
    (hsrc : src.toNat + len < Size.limit) : m.copyUnchecked dst src len = .ofExcept (m.copy dst src len) := by
  by_cases hd : m.flat.Maps dst len
  · by_cases hs : m.flat.Maps src len
    · obtain ⟨m', hcopy⟩ := exists_copy (maps_iff_flat.mpr hd) (maps_iff_flat.mpr hs)
      rw [copyUnchecked_of_ok hcopy, hcopy]
      rfl
    · simp only [copyUnchecked, (contains_iff_flat hdst).mpr hd, contains_eq_false hsrc hs, copy_of_not_source hd hs,
        Outcome.ofExcept, Bool.not_true, Bool.not_false, Bool.false_eq_true, if_false, if_true]
  · simp only [copyUnchecked, contains_eq_false hdst hd, copy_of_not_destination hd, Outcome.ofExcept, Bool.not_false,
      if_true]

/-- Between ranges that are both taken for mapped, one of which is not, a copy panics. -/
theorem copyUnchecked_eq_panicked {dst src : Word} {len : Nat} (hdst : m.contains dst len = true)
    (hsrc : m.contains src len = true) (h : ¬(m.flat.Maps src len ∧ m.flat.Maps dst len)) :
    m.copyUnchecked dst src len = .panicked := by
  have hrefused : ∃ e, m.copy dst src len = .error e := by
    by_cases hd : m.flat.Maps dst len
    · exact ⟨_, copy_of_not_source hd fun hs => h ⟨hs, hd⟩⟩
    · exact ⟨_, copy_of_not_destination hd⟩
  obtain ⟨e, hcopy⟩ := hrefused
  simp only [copyUnchecked, hdst, hsrc, hcopy, Bool.not_true, Bool.false_eq_true, if_false]

theorem readUnchecked_of_fits {addr : Word} {count : Nat} (h : addr.toNat + count * Bytes.perWord < Size.limit) :
    m.readUnchecked addr count = .ofExcept (m.readWords addr count) := by
  have hwrap : Size.wrap (count * Bytes.perWord) = count * Bytes.perWord := Size.wrap_of_lt (by omega)
  rw [readUnchecked, hwrap]
  by_cases ha : addr.toNat % Bytes.perWord = 0
  · rw [if_neg (not_not_intro ha)]
    by_cases hm : m.flat.Maps addr (count * Bytes.perWord)
    · obtain ⟨ws, hread⟩ := exists_readWords (Nat.dvd_of_mod_eq_zero ha) (maps_iff_flat.mpr hm)
      simp only [(contains_iff_flat h).mpr hm, hread, Outcome.ofExcept, Bool.not_true, Bool.false_eq_true, if_false]
    · have hread : m.readWords addr count = .error (.addressOutOfRange addr.toNat (count * Bytes.perWord)) := by
        rw [readWords_eq_error, locateWords, if_pos ha, locate_of_not_maps hm]
      simp only [contains_eq_false h hm, hread, Outcome.ofExcept, Bool.not_false, if_true]
  · have hread : m.readWords addr count = .error (.misaligned "word access" addr.toNat Bytes.perWord) := by
      rw [readWords_eq_error, locateWords, if_neg ha]
    rw [if_pos ha, hread]
    rfl

theorem accessUnchecked_of_fits {a : MemoryAccess} (h : (QueueCall.access a).Fits) :
    m.accessUnchecked a = .ofExcept (m.access a) := by
  cases a with
  | read addr count =>
    rw [accessUnchecked, readUnchecked_of_fits h, access]
    cases m.readWords addr count <;> rfl
  | write addr words =>
    rw [accessUnchecked, access]
    cases m.writeWords addr words <;> rfl
  | copy dst src len =>
    rw [accessUnchecked, copyUnchecked_of_fits h.1 h.2, access]
    cases m.copy dst src len <;> rfl

/-- A transfer between mapped ranges moves its bytes. -/
theorem copy_of_maps (hd : m.Disjoint) {t : Transfer} (hsrc : m.flat.Maps t.src t.len)
    (hdst : m.flat.Maps t.dst t.len) :
    ∃ m', m.copyUnchecked t.dst t.src t.len = .done m' ∧ m'.Disjoint ∧ m'.flat = m.flat.move t := by
  obtain ⟨m', hcopy⟩ := exists_copy (maps_iff.mpr hdst) (maps_iff.mpr hsrc)
  refine ⟨m', copyUnchecked_of_ok hcopy, (wrote_copy hd hcopy).1.disjoint hd, ?_⟩
  have hflat := flat_copy hd t.dst t.src t.len
  rw [hcopy] at hflat
  obtain ⟨-, -, hflat⟩ := bind_eq_ok.mp hflat
  obtain ⟨-, -, hput⟩ := bind_eq_ok.mp hflat
  exact (Prod.mk.inj (pure_eq_ok.mp hput)).2.symm

/-- What a memory is taken to hold does not depend on its bytes. -/
theorem contains_congr {m' : Memory} (h : m'.flat.mapped = m.flat.mapped) (addr : Word) (len : Nat) :
    m'.contains addr len = m.contains addr len := by
  rw [contains_eq_any, contains_eq_any, show m'.spans = m.spans from h]

end Memory

namespace TransferQueue

theorem start_eq_ok {t : Transfer} {id : Word} {q' : TransferQueue} (h : q.start m t = .ok (id, q')) :
    m.contains t.src t.len = true ∧ m.contains t.dst t.len = true ∧ id = q.issued ∧
      q' = { q with pending := q.pending ++ [t], issued := q.issued + 1 } := by
  unfold start refusal? at h
  cases hsrc : m.contains t.src t.len <;> cases hdst : m.contains t.dst t.len <;> simp [hsrc, hdst] at h
  exact ⟨rfl, rfl, h.1.symm, h.2.symm⟩

theorem refusal?_flat {t : Transfer} (h : (QueueCall.start t).Fits) :
    refusal? m t =
      if ¬m.flat.Maps t.src t.len then some (.unmapped .source t.src t.len)
      else if ¬m.flat.Maps t.dst t.len then some (.unmapped .destination t.dst t.len)
      else none := by
  have hmaps : ∀ addr : Word, addr.toNat + t.len < Size.limit →
      ((!m.contains addr t.len) = true ↔ ¬m.flat.Maps addr t.len) := by
    intro addr hlen
    rw [Bool.not_eq_true', ← Bool.not_eq_true, Memory.contains_iff_flat hlen]
  simp only [refusal?, hmaps t.src h.1, hmaps t.dst h.2]

theorem perform_of_maps (hd : m.Disjoint) {ts : List Transfer}
    (hm : ∀ t ∈ ts, m.flat.Maps t.src t.len ∧ m.flat.Maps t.dst t.len) :
    ∃ m', perform m ts = (.done (), m') ∧ m'.Disjoint ∧ m'.flat = ts.foldl .move m.flat := by
  -- On the transfers: each changes bytes and leaves the mappings, so those after it find their ranges mapped.
  induction ts generalizing m with
  | nil => exact ⟨m, rfl, hd, rfl⟩
  | cons t rest ih =>
    obtain ⟨ht, hrest⟩ := List.forall_mem_cons.mp hm
    obtain ⟨m₁, hcopy, hd₁, hflat₁⟩ := Memory.copy_of_maps hd ht.1 ht.2
    obtain ⟨m', hperform, hd', hflat'⟩ := ih hd₁ (by rw [hflat₁]; exact hrest)
    refine ⟨m', ?_, hd', ?_⟩
    · rw [perform, hcopy]
      exact hperform
    · rw [hflat', hflat₁, List.foldl_cons]

theorem perform_append {m' : Memory} {ts us : List Transfer} (h : perform m ts = (.done (), m')) :
    perform m (ts ++ us) = perform m' us := by
  -- On the transfers that are performed first, none of which fails.
  induction ts generalizing m with
  | nil =>
    cases h
    rfl
  | cons t rest ih =>
    rw [perform] at h
    rw [List.cons_append, perform]
    split at h
    · exact ih h
    · cases h
    · cases h

end TransferQueue

theorem FlatMemory.mapped_foldl_move (f : FlatMemory) (ts : List Transfer) : (ts.foldl .move f).mapped = f.mapped := by
  induction ts generalizing f with
  | nil => rfl
  | cons t rest ih => exact ih (f.move t)

namespace Deferred

/-! ### Calls whose ranges fit -/

/-- A flush succeeds with the number of the transfers that waited, and all of them land. -/
theorem flush (h : Deferred q m s) :
    ∃ q' m', q.flush m = (.done s.waiting.length, q', m') ∧ Deferred q' m' s.land := by
  have hmapped : ∀ t ∈ s.waiting, m.flat.Maps t.src t.len ∧ m.flat.Maps t.dst t.len := by
    rw [h.memory]
    exact h.mapped
  obtain ⟨m', hperform, hd, hflat⟩ := TransferQueue.perform_of_maps h.disjoint hmapped
  refine ⟨{ q with pending := [] }, m', ?_, ⟨hd, ?_, rfl, h.issued, h.quiet, List.forall_mem_nil _⟩⟩
  · simp only [TransferQueue.flush, h.pending, hperform, Outcome.map]
  · rw [hflat, h.memory]
    rfl

theorem settle (h : Deferred q m s) : ∃ q' m', q.settle m = (.done (), q', m') ∧ Deferred q' m' s.land := by
  obtain ⟨q', m', hflush, hlanded⟩ := h.flush
  exact ⟨q', m', by rw [TransferQueue.settle, hflush], hlanded⟩

/-- A transfer is accepted exactly when both ranges are mapped, and gets the next number. -/
theorem start (h : Deferred q m s) {t : Transfer} (ht : (QueueCall.start t).Fits) :
    (TransferQueue.call (q, m) (.start t)).1 = (s.call (.start t)).1 ∧
      Deferred (TransferQueue.call (q, m) (.start t)).2.1 (TransferQueue.call (q, m) (.start t)).2.2
        (s.call (.start t)).2 := by
  simp only [TransferQueue.call, Deferral.call, TransferQueue.start, TransferQueue.refusal?_flat ht, h.memory]
  by_cases hsrc : s.memory.Maps t.src t.len
  · by_cases hdst : s.memory.Maps t.dst t.len
    · rw [if_neg (not_not_intro hsrc), if_neg (not_not_intro hdst), if_neg (not_not_intro hsrc),
        if_neg (not_not_intro hdst)]
      refine ⟨by rw [h.issued], h.disjoint, h.memory, congrArg (· ++ [t]) h.pending, ?_, h.quiet, ?_⟩
      · rw [List.length_append, List.length_singleton, ← Nat.add_assoc, h.issued]
        exact (UInt32.ofNat_add _ 1).symm
      · exact List.forall_mem_append.mpr ⟨h.mapped, List.forall_mem_singleton.mpr ⟨hsrc, hdst⟩⟩
    · rw [if_neg (not_not_intro hsrc), if_pos hdst, if_neg (not_not_intro hsrc), if_pos hdst]
      exact ⟨rfl, h⟩
  · rw [if_pos hsrc, if_pos hsrc]
    exact ⟨rfl, h⟩

theorem access (h : Deferred q m s) {a : MemoryAccess} (hfits : (QueueCall.access a).Fits) :
    (TransferQueue.call (q, m) (.access a)).1 = (s.call (.access a)).1 ∧
      Deferred (TransferQueue.call (q, m) (.access a)).2.1 (TransferQueue.call (q, m) (.access a)).2.2
        (s.call (.access a)).2 := by
  have hflat := Memory.flat_access h.disjoint a
  rw [h.memory] at hflat
  simp only [TransferQueue.call, Deferral.call, Memory.accessUnchecked_of_fits hfits, hflat]
  cases ha : m.access a with
  | error e => exact ⟨rfl, h⟩
  | ok r =>
    obtain ⟨words, m'⟩ := r
    rw [ha] at hflat
    have hmapped := FlatMemory.mapped_access hflat
    refine ⟨rfl, Memory.disjoint_access h.disjoint ha, rfl, h.pending, h.issued, h.quiet, ?_⟩
    simp only [FlatMemory.Maps]
    exact hmapped ▸ h.mapped

theorem call (h : Deferred q m s) {c : QueueCall} (hc : c.Fits) :
    (TransferQueue.call (q, m) c).1 = (s.call c).1 ∧
      Deferred (TransferQueue.call (q, m) c).2.1 (TransferQueue.call (q, m) c).2.2 (s.call c).2 := by
  cases c with
  | start t => exact h.start hc
  | flush =>
    obtain ⟨q', m', hflush, hlanded⟩ := h.flush
    simp only [TransferQueue.call, hflush]
    exact ⟨rfl, hlanded⟩
  | barrier =>
    obtain ⟨q', m', hsettle, hlanded⟩ := h.settle
    simp only [TransferQueue.call, hsettle]
    exact ⟨rfl, hlanded⟩
  | access a => exact h.access hc

theorem serve (h : Deferred q m s) {calls : List QueueCall} (hfits : ∀ c ∈ calls, c.Fits) :
    ∃ answers q' m' s', QueueCall.serve TransferQueue.call calls (q, m) = (answers, q', m') ∧
      QueueCall.serve Deferral.call calls s = (answers, s') ∧ Deferred q' m' s' := by
  -- On the calls, each of which keeps the queue and the memory beside their specification.
  induction calls generalizing q m s with
  | nil => exact ⟨[], q, m, s, rfl, rfl, h⟩
  | cons c rest ih =>
    obtain ⟨hc, hrest⟩ := List.forall_mem_cons.mp hfits
    obtain ⟨hanswer, hnext⟩ := h.call hc
    obtain ⟨answers, q', m', s', hreal, hspec, hend⟩ := ih hnext hrest
    have hdone := Deferral.call_ne_panicked s c
    refine ⟨(s.call c).1 :: answers, q', m', s', ?_, ?_, hend⟩
    · rw [QueueCall.serve_cons (hanswer ▸ hdone), hanswer]
      exact congrArg (Prod.map _ id) hreal
    · rw [QueueCall.serve_cons hdone, hspec]
      rfl

/-! ### A transfer that does not fit -/

/-- A transfer that is accepted lies between mapped ranges, or else the next flush panics. -/
theorem accepted (h : Deferred q m s) {t : Transfer} {id : Word} {q' : TransferQueue}
    (hstart : q.start m t = .ok (id, q')) :
    s.memory.Maps t.src t.len ∧ s.memory.Maps t.dst t.len ∨ (q'.flush m).1 = .panicked ∧ (q'.settle m).1 = .panicked := by
  obtain ⟨hsrc, hdst, -, rfl⟩ := TransferQueue.start_eq_ok hstart
  refine Decidable.or_iff_not_imp_left.mpr fun ht => ?_
  rw [← h.memory] at ht
  have hwaiting : ∀ t ∈ s.waiting, m.flat.Maps t.src t.len ∧ m.flat.Maps t.dst t.len := by
    rw [h.memory]
    exact h.mapped
  obtain ⟨m', hperform, -, hflat⟩ := TransferQueue.perform_of_maps h.disjoint hwaiting
  -- Those before it land, and no bank moves.
  have hmapped : m'.flat.mapped = m.flat.mapped := by rw [hflat, FlatMemory.mapped_foldl_move]
  have hpanicked : m'.copyUnchecked t.dst t.src t.len = .panicked := by
    refine Memory.copyUnchecked_eq_panicked ?_ ?_ ?_
    · rwa [Memory.contains_congr hmapped]
    · rwa [Memory.contains_congr hmapped]
    · simpa only [FlatMemory.Maps, hmapped] using ht
  have hall : TransferQueue.perform m (q.pending ++ [t]) = (.panicked, m') := by
    rw [h.pending, TransferQueue.perform_append hperform, TransferQueue.perform, hpanicked]
  constructor
  · simp only [TransferQueue.flush, hall, Outcome.map]
  · simp only [TransferQueue.settle, TransferQueue.flush, hall, Outcome.map]

end Deferred

/-- Whatever banks a memory has, and whatever is started, flushed and waited for at barriers while others read and
    write the memory, as long as all ranges end within 64 bits: all answers are those of a list of transfers beside a
    flat memory, in which a start is accepted exactly when both ranges are mapped, gets the next number and changes no
    byte, and a flush answers how many transfers waited and lands them in order. The memory has its bytes, the queue
    has what waits there and its count, and there is never a fault to take. The bound cannot be left out: a further
    transfer, however long, that is accepted although it is not mapped makes the flush panic. -/
theorem queue_defers_transfers {requests : List (String × Word × Nat)} (h : Memory.empty.addBanks requests = .ok m)
    (calls : List QueueCall) (hfits : ∀ c ∈ calls, c.Fits) :
    ∃ answers q m' s, QueueCall.serve TransferQueue.call calls (.empty, m) = (answers, q, m') ∧
      QueueCall.serve Deferral.call calls ⟨.zeros (requests.map fun r => ⟨r.2.1.toNat, r.2.2⟩), 0, []⟩ = (answers, s) ∧
      m'.flat = s.memory ∧ q.pending = s.waiting ∧ q.issued = UInt32.ofNat (s.landed + s.waiting.length) ∧
      q.takeFault.1 = none ∧
      ∀ t id q', q.start m' t = .ok (id, q') →
        s.memory.Maps t.src t.len ∧ s.memory.Maps t.dst t.len ∨
          (q'.flush m').1 = .panicked ∧ (q'.settle m').1 = .panicked := by
  obtain ⟨hspans, hd, hz⟩ := Memory.addBanks_eq_ok (m := .empty) List.Pairwise.nil (fun b hb => nomatch hb) h
  have hflat : m.flat = .zeros (requests.map fun r => ⟨r.2.1.toNat, r.2.2⟩) := by
    rw [Memory.flat_blank hz, hspans]
    rfl
  have hstart : Deferred .empty m ⟨.zeros (requests.map fun r => ⟨r.2.1.toNat, r.2.2⟩), 0, []⟩ :=
    ⟨hd, hflat, rfl, rfl, rfl, List.forall_mem_nil _⟩
  obtain ⟨answers, q, m', s, hreal, hspec, hend⟩ := hstart.serve hfits
  exact ⟨answers, q, m', s, hreal, hspec, hend.memory, hend.pending, hend.issued, hend.quiet,
    fun _ _ _ haccepted => hend.accepted haccepted⟩

/-- Two transfers of one batch, the second of which takes what the first has brought, across adjacent banks. Nothing has
    changed when the memory is read before the flush; a write before the flush still counts. -/
theorem chained_transfers_land_in_order :
    ∃ m q m', Memory.empty.addBanks [("low", 0x1000, 8), ("high", 0x1008, 8)] = .ok m ∧
      QueueCall.serve TransferQueue.call
        [.start ⟨0x1008, 0x1000, 4⟩, .start ⟨0x100C, 0x1008, 4⟩, .start ⟨0x1000, 0x1006, 4⟩, .access (.read 0x1008 2),
          .access (.write 0x1000 [7]), .flush, .access (.read 0x1008 2), .start ⟨0x1004, 0x100A, 0⟩, .barrier, .flush]
        (.empty, m) =
      ([.done (.started 0), .done (.started 1), .failed (.transferFailed (.unmapped .source 0x1006 4)),
        .done (.accessed [0, 0]), .done (.accessed []), .done (.flushed 2), .done (.accessed [7, 7]), .done (.started 2),
        .done .passed, .done (.flushed 0)], q, m') ∧ q.pending = [] ∧ q.takeFault.1 = none := by
  have hbanks : ∃ m, Memory.empty.addBanks [("low", 0x1000, 8), ("high", 0x1008, 8)] = .ok m := ⟨_, rfl⟩
  obtain ⟨m, hm⟩ := hbanks
  obtain ⟨answers, q, m', s, hreal, hspec, -, hpending, -, hquiet, -⟩ := queue_defers_transfers hm
    [.start ⟨0x1008, 0x1000, 4⟩, .start ⟨0x100C, 0x1008, 4⟩, .start ⟨0x1000, 0x1006, 4⟩, .access (.read 0x1008 2),
      .access (.write 0x1000 [7]), .flush, .access (.read 0x1008 2), .start ⟨0x1004, 0x100A, 0⟩, .barrier, .flush]
    (by decide)
  have hanswers := (congrArg Prod.fst hspec).symm
  have hwaiting := (congrArg (fun r => r.2.waiting) hspec).symm
  refine ⟨m, q, m', hm, ?_, hpending.trans (hwaiting.trans rfl), hquiet⟩
  rw [hreal]
  exact congrArg (·, q, m') (hanswers.trans rfl)

/-- A transfer as long as a size can be, from an address of the only bank to itself: its end wraps to the address before,
    so it is accepted, though eight bytes are all that is mapped, and the flush panics. -/
theorem overlong_transfer_panics :
    ∃ m, Memory.empty.addBanks [("low", 0x1000, 8)] = .ok m ∧ ¬m.flat.Maps 0x1004 Size.largest ∧
      (QueueCall.serve TransferQueue.call [.start ⟨0x1004, 0x1004, Size.largest⟩, .flush] (.empty, m)).1 =
        [.done (.started 0), .panicked] :=
  ⟨_, rfl, by decide, by decide⟩

end TileOffload
