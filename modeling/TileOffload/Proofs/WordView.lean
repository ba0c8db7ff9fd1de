import TileOffload.Command.Execute
import TileOffload.Proofs.FlatMemory

/-! # Windows as words of a file

A window reaches the whole words inside it and nothing else. What a read finds there is what was stored there last, or
else what the file had before. Main statement: this holds for every sequence of accesses to a window, at the end of
which the file differs from what it was in the stored words only; so a word that is poked is there to be peeked. -/

namespace TileOffload

namespace Bytes

variable {b c : ByteArray} {i j : Nat} {v : Word}

theorem wordAt_congr (h : ∀ j, i ≤ j → j < i + 4 → byteAt b j = byteAt c j) : wordAt b i = wordAt c i := by
  rw [wordAt, h i (Nat.le_refl i) (by omega), h (i + 1) (by omega) (by omega), h (i + 2) (by omega) (by omega),
    h (i + 3) (by omega) (by omega), wordAt]

theorem size_spliceWord (h : i + 4 ≤ b.size) : (splice b i (ofWords [v])).size = b.size :=
  size_splice h

theorem wordAt_spliceWord (h : i + 4 ≤ b.size) : wordAt (splice b i (ofWords [v])) i = v := by
  have hword : wordsAt (splice b i (ofWords [v])) i [v].length = [v] := wordsAt_of_bytes fun j hj => by
    rw [byteAt_splice h, size_ofWords, if_pos ⟨Nat.le_add_right i j, Nat.add_lt_add_left hj i⟩, Nat.add_sub_cancel_left]
  exact (List.cons.inj hword).1

theorem byteAt_spliceWord (h : i + 4 ≤ b.size) (hj : j < i ∨ i + 4 ≤ j) :
    byteAt (splice b i (ofWords [v])) j = byteAt b j := by
  rw [byteAt_splice h, size_ofWords, if_neg]
  rintro ⟨hle, hlt⟩
  exact hj.elim (Nat.not_lt.mpr hle) (Nat.not_le.mpr hlt)

theorem extract_spliceWord (h : i + 4 ≤ b.size) :
    (splice b i (ofWords [v])).extract 0 b.size = splice b i (ofWords [v]) := by
  have hsize := size_spliceWord (v := v) h
  rw [← hsize, ByteArray.extract_zero_size]

end Bytes

namespace WindowAccess

/-- The byte offset that an access names. -/
def offset : WindowAccess → Nat
  | read offset | write offset _ => offset
  | readRegister register | writeRegister register _ => register.toNat * 4

/-- The word that an access is to store, if it is a write. -/
def word? : WindowAccess → Option Word
  | write _ value | writeRegister _ value => some value
  | read _ | readRegister _ => none

/-- The access is to a whole word of a window of that size. -/
def Within (size : Nat) (a : WindowAccess) : Prop := 4 ∣ a.offset ∧ a.offset + 4 ≤ size

end WindowAccess

namespace Window

/-- Accesses and their answers, the oldest first. -/
abbrev Log := List (WindowAccess × Except Error (Option Word))

/-- The word that an access has stored at an offset, if it was a write to there and succeeded. -/
def storedBy (offset : Nat) : WindowAccess × Except Error (Option Word) → Option Word
  | (access, .ok _) => if access.offset = offset then access.word? else none
  | (_, .error _) => none

/-- The word that was stored last at an offset. -/
def lastStored (log : Log) (offset : Nat) : Option Word := log.reverse.findSome? (storedBy offset)

/-- What a window answers to one access, and the window after it. -/
inductive Serves (w : Window) (a : WindowAccess) : Except Error (Option Word) → Window → Prop
  | refused {e : Error} (hcheck : w.check a.offset = .error e) : Serves w a (.error e) w
  | read (hin : a.Within w.size) (hread : a.word? = none) :
      Serves w a (.ok (some (Bytes.wordAt w.file (w.base + a.offset)))) w
  | written {v : Word} (hin : a.Within w.size) (hwrite : a.word? = some v) :
      Serves w a (.ok none)
        { w with file := (Bytes.splice w.file (w.base + a.offset) (Bytes.ofWords [v])).extract 0 w.file.size }

/-- The window is one that was `w₀` before the accesses of a log. -/
structure After (w₀ : Window) (log : Log) (w : Window) : Prop where
  same : w = { w₀ with file := w.file }
  size_eq : w.file.size = w₀.file.size
  aligned : ∀ o v, lastStored log o = some v → 4 ∣ o
  stored : ∀ o v, lastStored log o = some v → Bytes.wordAt w.file (w₀.base + o) = v
  kept : ∀ j, (∀ o v, lastStored log o = some v → j < w₀.base + o ∨ w₀.base + o + 4 ≤ j) →
    Bytes.byteAt w.file j = Bytes.byteAt w₀.file j

variable {mapper : Mapper} {path : String} {file : ByteArray} {base size o : Nat} {w w' w₀ : Window} {v : Word} {a : WindowAccess}
  {answer : Except Error (Option Word)} {log : Log} {accesses : List WindowAccess}

/-! ### One access -/

theorem check_eq_ok_iff : w.check o = .ok () ↔ 4 ∣ o ∧ o + 4 ≤ w.size := by
  rw [check, registerBytes, Bytes.perWord]
  split
  · simp_all [Nat.dvd_iff_mod_eq_zero]
  · split <;> simp_all [Nat.dvd_iff_mod_eq_zero]

theorem read_eq (w : Window) (o : Nat) : w.read o = (w.check o).map fun _ => Bytes.wordAt w.file (w.base + o) := by
  rw [read]
  cases w.check o <;> rfl

theorem write_eq (w : Window) (o : Nat) (v : Word) : w.write o v = (w.check o).map fun _ =>
    { w with file := (Bytes.splice w.file (w.base + o) (Bytes.ofWords [v])).extract 0 w.file.size } := by
  rw [write]
  cases w.check o <;> rfl

theorem serve_of_read (h : a.word? = none) : w.serve a = ((w.read a.offset).map some, w) := by
  cases a with
  | read | readRegister => rfl
  | write | writeRegister => cases h

theorem serve_of_write (h : a.word? = some v) :
    w.serve a = ((w.write a.offset v).map fun _ => none, (w.write a.offset v).toOption.getD w) := by
  cases a with
  | read | readRegister => cases h
  | write o v' =>
    cases h
    rw [serve, WindowAccess.offset]
    cases w.write o v <;> rfl
  | writeRegister r v' =>
    cases h
    rw [serve, WindowAccess.offset]
    simp only [bus, registerBytes, Bytes.perWord]
    cases w.write (r.toNat * 4) v <;> rfl

theorem serves (w : Window) (a : WindowAccess) : w.Serves a (w.serve a).1 (w.serve a).2 := by
  cases hcheck : w.check a.offset with
  | error e =>
    cases hword : a.word? with
    | none =>
      rw [serve_of_read hword, read_eq, hcheck]
      exact .refused hcheck
    | some v =>
      rw [serve_of_write hword, write_eq, hcheck]
      exact .refused hcheck
  | ok =>
    have hin : a.Within w.size := check_eq_ok_iff.mp hcheck
    cases hword : a.word? with
    | none =>
      rw [serve_of_read hword, read_eq, hcheck]
      exact .read hin hword
    | some v =>
      rw [serve_of_write hword, write_eq, hcheck]
      exact .written hin hword

theorem Serves.answered_iff (h : w.Serves a answer w') : (∃ x, answer = .ok x) ↔ a.Within w.size := by
  cases h with
  | refused hcheck =>
    refine iff_of_false (by rintro ⟨x, ⟨⟩⟩) fun hin => ?_
    rw [check_eq_ok_iff.mpr hin] at hcheck
    cases hcheck
  | read hin | written hin => exact iff_of_true ⟨_, rfl⟩ hin

theorem Serves.refused_same {e : Error} (h : w.Serves a (.error e) w') : w' = w := by
  cases h with
  | refused => rfl

theorem read_eq_ok (haligned : 4 ∣ o) (hin : o + 4 ≤ w.size) : w.read o = .ok (Bytes.wordAt w.file (w.base + o)) := by
  rw [read_eq, check_eq_ok_iff.mpr ⟨haligned, hin⟩]
  rfl

theorem write_eq_ok_iff : w.write o v = .ok w' ↔ (4 ∣ o ∧ o + 4 ≤ w.size) ∧
    w' = { w with file := (Bytes.splice w.file (w.base + o) (Bytes.ofWords [v])).extract 0 w.file.size } := by
  rw [write_eq, ← check_eq_ok_iff]
  cases w.check o with
  | error e => simp [Except.map]
  | ok => simp [Except.map, eq_comm]

/-! ### Accesses one after another -/

theorem lastStored_snoc (log : Log) (a : WindowAccess) (answer : Except Error (Option Word)) (o : Nat) :
    lastStored (log ++ [(a, answer)]) o = (storedBy o (a, answer)).or (lastStored log o) := by
  rw [lastStored, List.reverse_concat, List.findSome?_cons, lastStored]
  cases storedBy o (a, answer) <;> rfl

namespace After

theorem nil (w : Window) : After w [] w where
  same := rfl
  size_eq := rfl
  aligned _ _ h := by cases h
  stored _ _ h := by cases h
  kept _ _ := rfl

theorem size_window (h : After w₀ log w) : w.size = w₀.size := by
  rw [h.same]

theorem base_window (h : After w₀ log w) : w.base = w₀.base := by
  rw [h.same]

/-- A word of the window is the one stored there last, or else that of the file before. -/
theorem wordAt_eq (h : After w₀ log w) (ho : 4 ∣ o) :
    Bytes.wordAt w.file (w₀.base + o) = (lastStored log o).getD (Bytes.wordAt w₀.file (w₀.base + o)) := by
  cases hlast : lastStored log o with
  | some v => exact h.stored o v hlast
  | none =>
    refine Bytes.wordAt_congr fun j hle hlt => h.kept j fun o' v hv => ?_
    have hne : o' ≠ o := by
      rintro rfl
      rw [hlast] at hv
      cases hv
    have := h.aligned o' v hv
    omega

theorem answer_read (h : After w₀ log w) {x : Option Word} (hserves : w.Serves a (.ok x) w') (hread : a.word? = none) :
    x = some ((lastStored log a.offset).getD (Bytes.wordAt w₀.file (w₀.base + a.offset))) := by
  cases hserves with
  | read hin => rw [h.base_window, h.wordAt_eq hin.1]
  | written _ hwrite =>
    rw [hread] at hwrite
    cases hwrite

theorem unstored (h : After w₀ log w) (hnone : ∀ o, storedBy o (a, answer) = none) :
    After w₀ (log ++ [(a, answer)]) w := by
  have hlog : lastStored (log ++ [(a, answer)]) = lastStored log := by
    funext o
    rw [lastStored_snoc, hnone]
    rfl
  exact ⟨h.same, h.size_eq, hlog ▸ h.aligned, hlog ▸ h.stored, hlog ▸ h.kept⟩

theorem written (h : After w₀ log w) (hin : a.Within w.size) (hword : a.word? = some v)
    (hfile : w₀.base + a.offset + 4 ≤ w₀.file.size) :
    After w₀ (log ++ [(a, .ok none)])
      { w with file := Bytes.splice w.file (w₀.base + a.offset) (Bytes.ofWords [v]) } := by
  have hroom : w₀.base + a.offset + 4 ≤ w.file.size := h.size_eq ▸ hfile
  have hlog : ∀ {o u}, lastStored (log ++ [(a, .ok none)]) o = some u ↔
      (a.offset = o ∧ v = u) ∨ (a.offset ≠ o ∧ lastStored log o = some u) := by
    intro o u
    rw [lastStored_snoc, storedBy, hword]
    by_cases ho : a.offset = o <;> simp [ho]
  constructor
  · rw [h.same]
  · exact (Bytes.size_spliceWord hroom).trans h.size_eq
  · intro o u hu
    rcases hlog.mp hu with ⟨rfl, -⟩ | ⟨-, hu⟩
    · exact hin.1
    · exact h.aligned o u hu
  · intro o u hu
    rcases hlog.mp hu with ⟨rfl, rfl⟩ | ⟨hne, hu⟩
    · exact Bytes.wordAt_spliceWord hroom
    · -- Two words at different multiples of four have no byte in common.
      have ho := h.aligned o u hu
      have ha := hin.1
      rw [← h.stored o u hu]
      exact Bytes.wordAt_congr fun j hle hlt => Bytes.byteAt_spliceWord hroom (by omega)
  · intro j hj
    have hnew := hj a.offset v (hlog.mpr (Or.inl ⟨rfl, rfl⟩))
    refine (Bytes.byteAt_spliceWord hroom hnew).trans (h.kept j fun o u hu => ?_)
    by_cases ho : a.offset = o
    · exact hj o v (hlog.mpr (Or.inl ⟨ho, rfl⟩))
    · exact hj o u (hlog.mpr (Or.inr ⟨ho, hu⟩))

theorem serves (h : After w₀ log w) (hserves : w.Serves a answer w')
    (hfile : a.Within w₀.size → w₀.base + a.offset + 4 ≤ w₀.file.size) : After w₀ (log ++ [(a, answer)]) w' := by
  cases hserves with
  | refused => exact h.unstored fun _ => rfl
  | read _ hread =>
    refine h.unstored fun o => ?_
    rw [storedBy, hread, ite_self]
  | written hin hword =>
    have hfile := hfile (h.size_window ▸ hin)
    have hwritten := h.written hin hword hfile
    rw [← h.base_window] at hwritten hfile
    rwa [Bytes.extract_spliceWord (h.size_eq ▸ hfile)]

theorem serveAll (h : After w₀ log w)
    (hfile : ∀ a ∈ accesses, a.Within w₀.size → w₀.base + a.offset + 4 ≤ w₀.file.size) :
    After w₀ (log ++ accesses.zip (w.serveAll accesses).1) (w.serveAll accesses).2 := by
  -- On the accesses, for any log of those before: each is put at the end of it.
  induction accesses generalizing log w with
  | nil =>
    rw [List.zip_nil_left, List.append_nil]
    exact h
  | cons a rest ih =>
    obtain ⟨ha, hrest⟩ := List.forall_mem_cons.mp hfile
    have hall := ih (h.serves (w.serves a) ha) hrest
    rwa [← List.append_cons] at hall

end After

theorem serveAll_take (w : Window) (accesses : List WindowAccess) (i : Nat) :
    (w.serveAll (accesses.take i)).1 = (w.serveAll accesses).1.take i := by
  induction accesses generalizing w i with
  | nil => rw [List.take_nil, serveAll, List.take_nil]
  | cons a rest ih =>
    cases i with
    | zero => rfl
    | succ i => exact congrArg ((w.serve a).1 :: ·) (ih (w.serve a).2 i)

/-- The access at a place is served by the window that is there after those before it. -/
theorem serveAll_at (w : Window) {i : Nat} (ha : accesses[i]? = some a) :
    (w.serveAll accesses).1[i]? = some ((w.serveAll (accesses.take i)).2.serve a).1 ∧
      (w.serveAll (accesses.take (i + 1))).2 = ((w.serveAll (accesses.take i)).2.serve a).2 := by
  induction accesses generalizing w i with
  | nil => cases ha
  | cons b rest ih =>
    cases i with
    | zero =>
      cases ha
      exact ⟨rfl, rfl⟩
    | succ i => exact ih (w.serve b).2 ha

/-! ### Opening -/

/-- The size of a window: the one asked for or else, for zero, up to the end of the file. -/
def reach (bytes base size : Nat) : Nat := if size = 0 then bytes - base else size

theorem open?_eq_ok_iff : open? mapper path (.ok file) base size = .ok w ↔ w = ⟨path, base, reach file.size base size, file⟩ ∧
    reach file.size base size ≠ 0 ∧ base % mapper.pageBytes = 0 ∧ mapper.refusal? base (reach file.size base size) = none := by
  have hfile : (Except.ok file : Except FileFault ByteArray).mapError Error.io = .ok file := rfl
  rw [reach]
  simp only [open?, hfile, bind, Except.bind, pure, Except.pure, throw, throwThe, MonadExceptOf.throw]
  generalize (if size = 0 then file.size - base else size) = n
  by_cases hn : n = 0
  · simp [hn]
  · by_cases hb : base % mapper.pageBytes = 0
    · cases hr : mapper.refusal? base n with
      | none => simp [hn, hb, eq_comm]
      | some fault => simp [hn, hb]
    · simp [hn, hb]

theorem open?_fields (h : open? mapper path (.ok file) base size = .ok w) :
    w.base = base ∧ w.file = file ∧ w.size = reach file.size base size := by
  obtain ⟨rfl, -⟩ := open?_eq_ok_iff.mp h
  exact ⟨rfl, rfl, rfl⟩

/-- Whether a window can be opened depends on the size of its file only. -/
theorem open?_patched {patched : ByteArray} (h : open? mapper path (.ok file) base size = .ok w)
    (hsize : patched.size = file.size) : open? mapper path (.ok patched) base size = .ok { w with file := patched } := by
  obtain ⟨rfl, hopen⟩ := open?_eq_ok_iff.mp h
  rw [open?_eq_ok_iff, hsize]
  exact ⟨rfl, hopen⟩

/-- In a window that reaches to the end of a file nothing is past that end. -/
theorem room_of_rest (h : open? mapper path (.ok file) base 0 = .ok w) (ha : a.Within w.size) :
    base + a.offset + 4 ≤ file.size := by
  obtain ⟨rfl, hsome, -⟩ := open?_eq_ok_iff.mp h
  have hle : a.offset + 4 ≤ file.size - base := ha.2
  change file.size - base ≠ 0 at hsome
  omega

end Window

namespace FileTree

variable {t : FileTree} {path : String} {bytes old : ByteArray} {p q : Place}

theorem lookup_map_replace (files : List (Place × ByteArray)) (p q : Place) (bytes : ByteArray) :
    (files.map fun f => if f.1 = p then (p, bytes) else f).lookup q =
      (files.lookup q).map fun old => if q = p then bytes else old := by
  induction files with
  | nil => rfl
  | cons f files ih =>
    obtain ⟨r, old⟩ := f
    rw [List.map_cons, List.lookup_cons]
    by_cases hr : r = p
    · subst hr
      rw [if_pos rfl, List.lookup_cons, ih]
      cases h : q == r with
      | true => rw [beq_iff_eq.mp h]; simp
      | false => rfl
    · rw [if_neg hr, List.lookup_cons, ih]
      cases h : q == r with
      | true => rw [beq_iff_eq.mp h]; simp [hr]
      | false => rfl

theorem file?_write (hp : t.locate path = .ok p) (bytes : ByteArray) (q : Place) :
    (t.write path bytes).file? q = (t.file? q).map fun old => if q = p then bytes else old := by
  rw [write, hp]
  exact lookup_map_replace t.files p q bytes

theorem step_write (hp : t.locate path = .ok p) (bytes : ByteArray) : (t.write path bytes).step = t.step := by
  have hdirectory : (t.write path bytes).hasDirectory = t.hasDirectory := by
    rw [write, hp]
    rfl
  funext q name
  simp only [step, hdirectory, file?_write hp, Option.isSome_map]

theorem locate_write (hp : t.locate path = .ok p) (bytes : ByteArray) : (t.write path bytes).locate path = .ok p := by
  have hworking : (t.write path bytes).working = t.working := by rw [write, hp]
  rw [← hp, locate, locate, step_write hp, hworking]

theorem read_eq_ok_iff : t.read path = .ok bytes ↔ ∃ p, t.locate path = .ok p ∧ t.file? p = some bytes := by
  cases hp : t.locate path with
  | error fault => simp [read, hp, bind, Except.bind]
  | ok p =>
    cases hb : t.file? p with
    | none => simp [read, hp, hb, bind, Except.bind, throw, throwThe, MonadExceptOf.throw]
    | some b => simp [read, hp, hb, bind, Except.bind, pure, Except.pure]

theorem read_write (h : t.read path = .ok old) (bytes : ByteArray) : (t.write path bytes).read path = .ok bytes := by
  obtain ⟨p, hp, hold⟩ := read_eq_ok_iff.mp h
  refine read_eq_ok_iff.mpr ⟨p, locate_write hp bytes, ?_⟩
  rw [file?_write hp, hold, Option.map_some, if_pos rfl]

end FileTree

namespace Command

open Numeral

variable {mapper : Mapper} {tree tree' : FileTree} {word : WordOptions} {value : Nat} {out : Output}

/-- There is such a word: the file can be read, a window on it opened, and the word is inside that. -/
def Reaches (mapper : Mapper) (tree : FileTree) (word : WordOptions) : Prop :=
  ∃ file w, tree.read word.resource = .ok file ∧
    Window.open? mapper word.resource (.ok file) word.base word.size = .ok w ∧ 4 ∣ word.offset ∧ word.offset + 4 ≤ w.size

/-- What comes of a poke. -/
inductive Poked (mapper : Mapper) (tree : FileTree) (word : WordOptions) (value : Nat) : Output → FileTree → Prop
  | failed (f : Failure) (hnot : ¬(value < addressLimit ∧ Reaches mapper tree word)) : Poked mapper tree word value (.failed f) tree
  | written {v : Word} {file : ByteArray} {w w' : Window} (hvalue : value = v.toNat)
      (hfile : tree.read word.resource = .ok file)
      (hopen : Window.open? mapper word.resource (.ok file) word.base word.size = .ok w)
      (hwrite : w.write word.offset v = .ok w') :
      Poked mapper tree word value ⟨[s!"{wideHex word.offset} <- {wideHex v.toNat}"], none, some w'.file⟩
        (tree.write word.resource w'.file)

theorem poked (mapper : Mapper) (tree : FileTree) (word : WordOptions) (value : Nat) :
    Poked mapper tree word value (executeOn mapper tree (.poke word value)).1 (executeOn mapper tree (.poke word value)).2 := by
  simp only [executeOn, resource?, execute, pokeWord, openWindow]
  cases hv : Word.ofSize? value with
  | none =>
    refine .failed _ fun h => ?_
    rw [Word.ofSize?, if_pos h.1] at hv
    cases hv
  | some v =>
    cases hfile : tree.read word.resource with
    | error fault =>
      refine .failed _ ?_
      rintro ⟨-, file, w, hfile', -⟩
      cases hfile.symm.trans hfile'
    | ok file =>
      cases hopen : Window.open? mapper word.resource (.ok file) word.base word.size with
      | error e =>
        refine .failed _ ?_
        rintro ⟨-, file', w, hfile', hopen', -⟩
        cases hfile.symm.trans hfile'
        cases hopen.symm.trans hopen'
      | ok w =>
        cases hwrite : w.write word.offset v with
        | error e =>
          simp only [hwrite]
          refine .failed _ ?_
          rintro ⟨-, file', w', hfile', hopen', hin⟩
          cases hfile.symm.trans hfile'
          cases hopen.symm.trans hopen'
          cases hwrite.symm.trans (Window.write_eq_ok_iff.mpr ⟨hin, rfl⟩)
        | ok w' =>
          simp only [hwrite]
          exact .written (Word.ofSize?_eq_some.mp hv) hfile hopen hwrite

theorem Poked.unchanged (h : Poked mapper tree word value out tree') (hfailure : out.failure ≠ none) : tree' = tree := by
  cases h with
  | failed => rfl
  | written => exact absurd rfl hfailure

theorem Poked.done_iff (h : Poked mapper tree word value out tree') :
    out.failure = none ↔ value < addressLimit ∧ Reaches mapper tree word := by
  cases h with
  | failed f hnot => exact iff_of_false (Option.some_ne_none f) hnot
  | written hvalue hfile hopen hwrite =>
    exact iff_of_true rfl ⟨hvalue ▸ UInt32.toNat_lt _, _, _, hfile, hopen, (Window.write_eq_ok_iff.mp hwrite).1⟩

theorem Poked.peek (h : Poked mapper tree word value out tree') (hdone : out.failure = none)
    (hroom : ∀ file, tree.read word.resource = .ok file → word.base + word.offset + 4 ≤ file.size) :
    executeOn mapper tree' (.peek word) = (.success [s!"{wideHex word.offset}: {wideHex value}"], tree') := by
  cases h with
  | failed => cases hdone
  | @written v file w w' hvalue hfile hopen hwrite =>
    have hroom := hroom file hfile
    obtain ⟨hbase, rfl, -⟩ := Window.open?_fields hopen
    obtain ⟨⟨haligned, hin⟩, rfl⟩ := Window.write_eq_ok_iff.mp hwrite
    rw [← hbase] at hroom
    rw [Bytes.extract_spliceWord hroom]
    have hreopen := Window.open?_patched hopen (Bytes.size_spliceWord (v := v) hroom)
    have hread := Window.read_eq_ok
      (w := { w with file := Bytes.splice w.file (w.base + word.offset) (Bytes.ofWords [v]) }) haligned hin
    simp only [Bytes.wordAt_spliceWord hroom] at hread
    simp only [executeOn, resource?, execute, peekWord, openWindow, FileTree.read_write hfile, hreopen, hread, hvalue]
    rfl

end Command

namespace Window

open Numeral Command

/-- A window on a file shows the words of the file from its base on, whatever the system maps. If no accepted access is past the end of the file,
    then of any accesses one after another an access succeeds exactly if it is to a whole word of the window; a read
    that succeeds answers the word stored last at that offset by then, or else the one of the file as it was; an access
    that is refused changes nothing; and in the end the stored words are in the file and every other byte is as it was.
    A poke succeeds exactly if the value is that of a word and there is such a word in a window on the file; if it
    fails, it leaves all files as they are, and after one that succeeds a peek at the same word prints the value. -/
theorem checked_words_of_file :
    (∀ {mapper : Mapper} {path : String} {file : ByteArray} {base size : Nat} {w w' : Window} {accesses : List WindowAccess}
        {answers : List (Except Error (Option Word))},
      open? mapper path (.ok file) base size = .ok w →
      (∀ a ∈ accesses, a.Within w.size → base + a.offset + 4 ≤ file.size) →
      w.serveAll accesses = (answers, w') →
      w.size = reach file.size base size ∧
      (∀ i a, accesses[i]? = some a → ∃ answer, answers[i]? = some answer ∧
        ((∃ x, answer = .ok x) ↔ 4 ∣ a.offset ∧ a.offset + 4 ≤ w.size) ∧
        (∀ x, a.word? = none → answer = .ok x → x = some
          ((lastStored ((accesses.zip answers).take i) a.offset).getD (Bytes.wordAt file (base + a.offset)))) ∧
        (∀ e, answer = .error e → (w.serveAll (accesses.take (i + 1))).2 = (w.serveAll (accesses.take i)).2)) ∧
      w'.file.size = file.size ∧
      (∀ o v, lastStored (accesses.zip answers) o = some v → Bytes.wordAt w'.file (base + o) = v) ∧
      (∀ j, (∀ o v, lastStored (accesses.zip answers) o = some v → j < base + o ∨ base + o + 4 ≤ j) →
        Bytes.byteAt w'.file j = Bytes.byteAt file j)) ∧
    (∀ {mapper : Mapper} {tree tree' : FileTree} {word : WordOptions} {value : Nat} {out : Output},
      executeOn mapper tree (.poke word value) = (out, tree') →
      (out.failure ≠ none → tree' = tree) ∧ (out.failure = none ↔ value < 0x100000000 ∧ Reaches mapper tree word) ∧
      (out.failure = none →
        (∀ file, tree.read word.resource = .ok file → word.base + word.offset + 4 ≤ file.size) →
        executeOn mapper tree' (.peek word) = (.success [s!"{wideHex word.offset}: {wideHex value}"], tree'))) := by
  constructor
  · intro mapper path file base size w w' accesses answers hopen hroom hall
    obtain ⟨rfl, rfl, hsize⟩ := open?_fields hopen
    have hanswers : answers = (w.serveAll accesses).1 := (congrArg Prod.fst hall).symm
    have hafter := (After.nil w).serveAll hroom
    rw [hall, List.nil_append] at hafter
    refine ⟨hsize, fun i a ha => ?_, hafter.size_eq, hafter.stored, hafter.kept⟩
    obtain ⟨hanswer, hnext⟩ := w.serveAll_at ha
    have hbefore := (After.nil w).serveAll fun b hb => hroom b (List.mem_of_mem_take (i := i) hb)
    have hserves := (w.serveAll (accesses.take i)).2.serves a
    have hlog : (accesses.zip answers).take i = (accesses.take i).zip (answers.take i) := List.take_zipWith
    rw [List.nil_append, serveAll_take, ← hanswers, ← hlog] at hbefore
    refine ⟨_, hanswers ▸ hanswer, ?_, ?_, ?_⟩
    · rw [hserves.answered_iff, hbefore.size_window, WindowAccess.Within]
    · intro x hread hok
      rw [hok] at hserves
      exact hbefore.answer_read hserves hread
    · intro e herror
      rw [herror] at hserves
      exact hnext.trans hserves.refused_same
  · intro mapper tree tree' word value out hpoke
    have hpoked := poked mapper tree word value
    rw [hpoke] at hpoked
    exact ⟨hpoked.unchanged, hpoked.done_iff, hpoked.peek⟩

/-- A system that maps every range. -/
def willing : Mapper := ⟨4096, fun _ _ => none⟩

/-- A tree with one file, of two words. -/
def twoRegisters : FileTree := ⟨[], [(["r"], Bytes.ofWords [1, 2])], []⟩

/-- The second word is written, by register or by offset, and read back. -/
theorem second_word_replaced :
    ∃ w w' answers, open? willing "r" (.ok (Bytes.ofWords [1, 2])) 0 0 = .ok w ∧
      w.serveAll [.writeRegister 1 7, .write 6 5, .read 4] = (answers, w') ∧ answers[2]? = some (.ok (some 7)) ∧
      Bytes.wordAt w'.file 4 = 7 ∧
      ∃ out tree', executeOn willing twoRegisters (.poke ⟨"r", 4, 0, 0⟩ 7) = (out, tree') ∧
        executeOn willing tree' (.peek ⟨"r", 4, 0, 0⟩) = (.success ["0x00000004: 0x00000007"], tree') := by
  have hopen : open? willing "r" (.ok (Bytes.ofWords [1, 2])) 0 0 = .ok ⟨"r", 0, 8, Bytes.ofWords [1, 2]⟩ :=
    open?_eq_ok_iff.mpr ⟨rfl, by decide, rfl, by decide⟩
  have hall : serveAll [.writeRegister 1 7, .write 6 5, .read 4] ⟨"r", 0, 8, Bytes.ofWords [1, 2]⟩ = _ := rfl
  have hpoke : executeOn willing twoRegisters (.poke ⟨"r", 4, 0, 0⟩ 7) = _ := rfl
  have hsplit : "r".splitOn "/" = ["r"] := by
    rw [String.splitOn, String.splitOnAux, String.splitOnAux]
    decide +kernel
  have hplace : twoRegisters.locate "r" = .ok ["r"] := by
    rw [FileTree.locate, hsplit, show twoRegisters.working = [] from rfl, ite_self]
    rfl
  have hread : twoRegisters.read "r" = .ok (Bytes.ofWords [1, 2]) :=
    FileTree.read_eq_ok_iff.mpr ⟨["r"], hplace, rfl⟩
  have hline : s!"{wideHex 4}: {wideHex 7}" = "0x00000004: 0x00000007" := by decide +kernel
  obtain ⟨hwindow, hcommand⟩ := checked_words_of_file
  obtain ⟨-, hanswers, -, hstored, -⟩ := hwindow hopen (fun _ _ => room_of_rest hopen) hall
  obtain ⟨answer, hanswer, hin, hvalue, -⟩ := hanswers 2 _ rfl
  obtain ⟨x, rfl⟩ := hin.mpr ⟨by decide, by decide⟩
  obtain rfl := hvalue x rfl rfl
  obtain ⟨-, -, hpeek⟩ := hcommand hpoke
  refine ⟨_, _, _, hopen, hall, hanswer, hstored 4 7 rfl, _, _, hpoke, ?_⟩
  rw [← hline]
  refine hpeek (by rw [hread]; rfl) fun file hfile => ?_
  obtain rfl := Except.ok.inj (hread.symm.trans hfile)
  decide

end Window

end TileOffload
