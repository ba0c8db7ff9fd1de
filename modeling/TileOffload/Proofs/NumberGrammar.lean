import Mathlib.Data.List.Forall2
import Mathlib.Data.Nat.Digits.Defs
import Mathlib.Tactic.Ring
import Mathlib.Tactic.SplitIfs
import TileOffload.Command.Number
import TileOffload.Numeral

/-! # The grammar of numbers

What the command line takes for a register offset or value, as a grammar beside the reader. Main statement: the reader
accepts exactly the texts of the grammar, each with its number, so a number below `2 ^ 64` that is written by the
library, in decimal or hexadecimal, is read back, also with letters of either case and with underscores put in. -/

namespace TileOffload.Command.Number

/-! ### The grammar -/

/-- The character is a digit of the base and stands for the number, as a lower-case or an upper-case digit. -/
def IsDigit (base : Nat) (c : Char) (d : Nat) : Prop := d < base ∧ (c = d.digitChar ∨ c = d.digitChar.toUpper)

/-- The characters are digits of the base, one or more, and stand for the number, the last one for its ones. -/
def Spells (base : Nat) (cs : List Char) (n : Nat) : Prop :=
  cs ≠ [] ∧ ∃ ds, List.Forall₂ (IsDigit base) cs ds ∧ Nat.ofDigits base ds.reverse = n

/-- The base that a text selects by its mark, or by having none, and what follows the mark. -/
inductive Marked : List Char → Nat → List Char → Prop
  | hexadecimal {x : Char} (mark : x = 'x' ∨ x = 'X') (rest : List Char) : Marked ('0' :: x :: rest) 16 rest
  | decimal {cs : List Char} (unmarked : ∀ x rest, cs = '0' :: x :: rest → ¬(x = 'x' ∨ x = 'X')) : Marked cs 10 cs

/-- A text of the grammar and its number: after the mark, and without its underscores, it is an optional plus sign and
    digits of the base that stand for a number below `2 ^ 64`. -/
def Reads (s : String) (n : Nat) : Prop :=
  ∃ base rest digits, Marked s.toList base rest ∧
    (rest.filter (· != '_') = digits ∨ rest.filter (· != '_') = '+' :: digits) ∧ Spells base digits n ∧ n < 2 ^ 64

/-- The second text is the first, some letters raised to upper case and underscores put in anywhere. -/
inductive Respelt : List Char → List Char → Prop
  | done : Respelt [] []
  | keep (c : Char) {cs ds : List Char} : Respelt cs ds → Respelt (c :: cs) (c :: ds)
  | raise (c : Char) {cs ds : List Char} : Respelt cs ds → Respelt (c :: cs) (c.toUpper :: ds)
  | underscore {cs ds : List Char} : Respelt cs ds → Respelt cs ('_' :: ds)

/-- The text writes the number, in decimal or as one of the hexadecimal forms, respelt after the mark. -/
inductive Written (n : Nat) : String → Prop
  | decimal {s : String} (h : Respelt (toString n).toList s.toList) : Written n s
  | hexadecimal {printed s : String} {digits rest : List Char} (form : printed = Numeral.hex n ∨ printed = Numeral.wideHex n)
      (split : printed.toList = '0' :: 'x' :: digits) (h : Respelt digits rest) (whole : s.toList = '0' :: 'x' :: rest) :
      Written n s

/-! ### Digits -/

variable {base bound d m n : Nat} {c : Char} {cs ds : List Char}

theorem digit?_digitChar : ∀ d < 16, digit? 16 d.digitChar = some d ∧ digit? 16 d.digitChar.toUpper = some d := by
  decide

theorem toNat_digitChar : ∀ d < 16, d.digitChar.toNat = (if d < 10 then 48 else 87) + d ∧
    d.digitChar.toUpper.toNat = (if d < 10 then 48 else 55) + d := by
  decide

/-- A digit of the base is a hexadecimal digit below it. -/
theorem digit?_eq_filter (hbase : base ≤ 16) (c : Char) : digit? base c = (digit? 16 c).filter (· < base) := by
  have hbelow : ∀ d, (decide (d < 16) && decide (d < base)) = decide (d < base) := by
    intro d
    rw [← Bool.decide_and, decide_eq_decide]
    omega
  simp only [digit?, Option.filter_filter, hbelow]

theorem isDigit_of_digit? (h : digit? 16 c = some d) : IsDigit 16 c d := by
  simp only [digit?, Option.filter_eq_some_iff, decide_eq_true_eq] at h
  obtain ⟨hvalue, hd⟩ := h
  obtain ⟨hlower, hupper⟩ := toNat_digitChar d hd
  refine ⟨hd, ?_⟩
  rw [← Char.toNat_inj, ← Char.toNat_inj, hlower, hupper]
  split_ifs at hvalue with hdecimal hlow hhigh
  · change 48 ≤ c.toNat ∧ c.toNat ≤ 57 at hdecimal
    change some (c.toNat - 48) = some d at hvalue
    grind
  · change 97 ≤ c.toNat ∧ c.toNat ≤ 102 at hlow
    change some (c.toNat - 97 + 10) = some d at hvalue
    grind
  · change 65 ≤ c.toNat ∧ c.toNat ≤ 70 at hhigh
    change some (c.toNat - 65 + 10) = some d at hvalue
    grind

theorem digit?_eq_some_iff (hbase : base ≤ 16) : digit? base c = some d ↔ IsDigit base c d := by
  rw [digit?_eq_filter hbase, Option.filter_eq_some_iff, decide_eq_true_eq]
  constructor
  · rintro ⟨h, hd⟩
    exact ⟨hd, (isDigit_of_digit? h).2⟩
  · rintro ⟨hd, rfl | rfl⟩
    · exact ⟨(digit?_digitChar d (hd.trans_le hbase)).1, hd⟩
    · exact ⟨(digit?_digitChar d (hd.trans_le hbase)).2, hd⟩

theorem IsDigit.ne (h : IsDigit base c d) (hbase : base ≤ 16) {other : Char} (hother : digit? base other = none) :
    c ≠ other := by
  rintro rfl
  rw [(digit?_eq_some_iff hbase).mpr h] at hother
  cases hother

theorem IsDigit.toUpper (h : IsDigit base c d) (hbase : base ≤ 16) : IsDigit base c.toUpper d := by
  have hsame : ∀ d < 16, d.digitChar.toUpper.toUpper = d.digitChar.toUpper := by decide
  obtain ⟨hd, rfl | rfl⟩ := h
  · exact ⟨hd, Or.inr rfl⟩
  · exact ⟨hd, Or.inr (hsame d (hd.trans_le hbase))⟩

theorem IsDigit.kept (h : IsDigit base c d) (hbase : base ≤ 16) :
    (c :: cs).filter (· != '_') = c :: cs.filter (· != '_') :=
  List.filter_cons_of_pos (by simpa using h.ne hbase rfl)

/-! ### Numbers -/

/-- Reading on from a number `m` moves it to the left of the digits that follow. -/
theorem digits?_eq_some_iff (hbase : base ≤ 16) : digits? base m cs = some n ↔
    ∃ ds, List.Forall₂ (IsDigit base) cs ds ∧ m * base ^ ds.length + Nat.ofDigits base ds.reverse = n := by
  induction cs generalizing m with
  | nil => simp [digits?, List.forall₂_nil_left_iff]
  | cons c cs ih =>
    have hvalue : ∀ d (ds : List Nat), (m * base + d) * base ^ ds.length + Nat.ofDigits base ds.reverse =
        m * base ^ (d :: ds).length + Nat.ofDigits base (d :: ds).reverse := by
      intro d ds
      rw [Nat.ofDigits_reverse_cons, List.length_cons]
      ring
    simp only [digits?, Option.bind_eq_some_iff, digit?_eq_some_iff hbase, ih, hvalue]
    constructor
    · rintro ⟨d, hd, ds, hds, hn⟩
      exact ⟨d :: ds, .cons hd hds, hn⟩
    · rintro ⟨_, hds, hn⟩
      cases hds with
      | cons hd hds => exact ⟨_, hd, _, hds, hn⟩

theorem digits?_zero_eq_some_iff (hbase : base ≤ 16) (hcs : cs ≠ []) : digits? base 0 cs = some n ↔ Spells base cs n := by
  simp only [digits?_eq_some_iff hbase, Nat.zero_mul, Nat.zero_add, Spells, ne_eq, hcs, not_false_eq_true, true_and]

theorem Spells.not_mem (h : Spells base cs n) (hbase : base ≤ 16) {other : Char} (hother : digit? base other = none) :
    other ∉ cs := by
  obtain ⟨-, ds, hds, -⟩ := h
  induction hds with
  | nil => exact List.not_mem_nil
  | cons hc _ ih =>
    rw [List.mem_cons, not_or]
    exact ⟨(hc.ne hbase hother).symm, ih⟩

theorem unsigned_cases (cs : List Char) : unsigned cs = cs ∨ cs = '+' :: unsigned cs := by
  unfold unsigned
  split
  · exact Or.inr rfl
  · exact Or.inl rfl

/-- No sign is taken off what has only digits. -/
theorem Spells.unsigned_eq (h : Spells base cs n) (hbase : base ≤ 16) : unsigned cs = cs :=
  (unsigned_cases cs).resolve_right fun hsigned => h.not_mem hbase rfl (hsigned ▸ List.mem_cons_self)

theorem ofDigits?_eq_some_iff (hbase : base ≤ 16) : ofDigits? base bound cs = some n ↔
    ∃ digits, (cs = digits ∨ cs = '+' :: digits) ∧ Spells base digits n ∧ n < bound := by
  have hread : ofDigits? base bound cs = some n ↔ Spells base (unsigned cs) n ∧ n < bound := by
    unfold ofDigits?
    split
    · rename_i hempty
      simp [hempty, Spells]
    · rename_i hsome
      rw [Option.filter_eq_some_iff, digits?_zero_eq_some_iff hbase hsome, decide_eq_true_eq]
  rw [hread]
  constructor
  · intro h
    exact ⟨unsigned cs, (unsigned_cases cs).imp_left Eq.symm, h⟩
  · rintro ⟨digits, rfl | rfl, h⟩
    · exact (h.1.unsigned_eq hbase).symm ▸ h
    · exact h

/-! ### Texts -/

variable {s : String} {rest digits : List Char}

theorem exists_marked (cs : List Char) : ∃ base rest, Marked cs base rest := by
  by_cases h : ∃ x rest, cs = '0' :: x :: rest ∧ (x = 'x' ∨ x = 'X')
  · obtain ⟨x, rest, rfl, hx⟩ := h
    exact ⟨16, rest, .hexadecimal hx rest⟩
  · exact ⟨10, cs, .decimal fun x rest hcs hx => h ⟨x, rest, hcs, hx⟩⟩

theorem Marked.base_le (h : Marked cs base rest) : base ≤ 16 := by
  cases h <;> decide

theorem Marked.flexible?_eq (h : Marked s.toList base rest) :
    flexible? s = ofDigits? base (2 ^ 64) (rest.filter (· != '_')) := by
  unfold flexible?
  generalize s.toList = cs at h
  cases h with
  | hexadecimal mark rest => rcases mark with rfl | rfl <;> rfl
  | decimal unmarked =>
    split
    · exact absurd (Or.inl rfl) (unmarked _ _ rfl)
    · exact absurd (Or.inr rfl) (unmarked _ _ rfl)
    · rfl

theorem flexible?_eq_some_iff : flexible? s = some n ↔ Reads s n := by
  constructor
  · intro h
    obtain ⟨base, rest, hmarked⟩ := exists_marked s.toList
    rw [hmarked.flexible?_eq, ofDigits?_eq_some_iff hmarked.base_le] at h
    obtain ⟨digits, hdigits, hn⟩ := h
    exact ⟨base, rest, digits, hmarked, hdigits, hn⟩
  · rintro ⟨base, rest, digits, hmarked, hdigits, hn⟩
    rw [hmarked.flexible?_eq, ofDigits?_eq_some_iff hmarked.base_le]
    exact ⟨digits, hdigits, hn⟩

/-! ### Written numbers -/

theorem Spells.snoc (h : Spells base cs n) (hd : d < base) : Spells base (cs ++ [d.digitChar]) (base * n + d) := by
  obtain ⟨-, ds, hds, rfl⟩ := h
  refine ⟨List.concat_ne_nil _ _, ds ++ [d], List.rel_append hds (.cons ⟨hd, Or.inl rfl⟩ .nil), ?_⟩
  rw [List.reverse_append, List.reverse_singleton, List.singleton_append, Nat.ofDigits_cons, Nat.add_comm]

theorem Spells.zero_cons (h : Spells base cs n) (hbase : 0 < base) : Spells base ('0' :: cs) n := by
  obtain ⟨-, ds, hds, rfl⟩ := h
  exact ⟨List.cons_ne_nil _ _, 0 :: ds, .cons ⟨hbase, Or.inl rfl⟩ hds, Nat.ofDigits_reverse_zero_cons ds⟩

theorem spells_toDigits (hbase : 1 < base) (n : Nat) : Spells base (Nat.toDigits base n) n := by
  induction n using Nat.strongRecOn with
  | ind n ih =>
    rw [Nat.toDigits_eq_if hbase]
    split
    · rename_i hn
      exact ⟨List.cons_ne_nil _ _, [n], .cons ⟨hn, Or.inl rfl⟩ .nil, Nat.ofDigits_singleton⟩
    · rename_i hn
      have hrest := (ih (n / base) (Nat.div_lt_self (by omega) hbase)).snoc (Nat.mod_lt n (by omega))
      rwa [Nat.div_add_mod] at hrest

theorem spells_padded (hbase : 1 < base) (k n : Nat) :
    Spells base (List.replicate k '0' ++ Nat.toDigits base n) n := by
  induction k with
  | zero => exact spells_toDigits hbase n
  | succ k ih => exact ih.zero_cons (by omega)

/-- The underscores are gone before digits are read, and a letter of either case is the same digit. -/
theorem Respelt.forall₂ (h : Respelt cs ds) (hbase : base ≤ 16) {values : List Nat}
    (hvalues : List.Forall₂ (IsDigit base) cs values) : List.Forall₂ (IsDigit base) (ds.filter (· != '_')) values := by
  induction h generalizing values with
  | done => exact hvalues
  | keep c _ ih =>
    cases hvalues with
    | cons hc hvalues => exact hc.kept hbase ▸ .cons hc (ih hvalues)
  | raise c _ ih =>
    cases hvalues with
    | cons hc hvalues => exact (hc.toUpper hbase).kept hbase ▸ .cons (hc.toUpper hbase) (ih hvalues)
  | underscore _ ih => exact ih hvalues

theorem Respelt.spells (h : Respelt cs ds) (hbase : base ≤ 16) (hs : Spells base cs n) :
    Spells base (ds.filter (· != '_')) n := by
  obtain ⟨hne, values, hvalues, hn⟩ := hs
  have hdigits := h.forall₂ hbase hvalues
  refine ⟨fun hempty => hne ?_, values, hdigits, hn⟩
  rw [hempty, List.forall₂_nil_left_iff] at hdigits
  rwa [hdigits, List.forall₂_nil_right_iff] at hvalues

theorem reads_hexadecimal (h : Spells 16 (rest.filter (· != '_')) n) (hs : s.toList = '0' :: 'x' :: rest)
    (hn : n < 2 ^ 64) : Reads s n :=
  ⟨16, rest, _, hs ▸ .hexadecimal (Or.inl rfl) rest, Or.inl rfl, h, hn⟩

/-- What spells a decimal number has no mark, its second character being a decimal digit. -/
theorem reads_decimal (h : Spells 10 (s.toList.filter (· != '_')) n) (hn : n < 2 ^ 64) : Reads s n := by
  refine ⟨10, s.toList, _, .decimal fun x rest hs hx => ?_, Or.inl rfl, h, hn⟩
  have hnone : digit? 10 x = none ∧ x ≠ '_' := by rcases hx with rfl | rfl <;> decide
  refine h.not_mem (by decide) hnone.1 (List.mem_filter.mpr ⟨?_, bne_iff_ne.mpr hnone.2⟩)
  rw [hs]
  exact List.mem_cons_of_mem _ List.mem_cons_self

theorem toList_hex (n : Nat) : (Numeral.hex n).toList = '0' :: 'x' :: Nat.toDigits 16 n := by
  simp [Numeral.hex]

theorem toList_wideHex (n : Nat) : (Numeral.wideHex n).toList =
    '0' :: 'x' :: (List.replicate (8 - (Nat.toDigits 16 n).length) '0' ++ Nat.toDigits 16 n) := by
  simp [Numeral.wideHex]

theorem spells_hexadecimal {printed : String} (form : printed = Numeral.hex n ∨ printed = Numeral.wideHex n)
    (split : printed.toList = '0' :: 'x' :: digits) : Spells 16 digits n := by
  rcases form with rfl | rfl
  · rw [toList_hex, List.cons.injEq, List.cons.injEq] at split
    exact split.2.2 ▸ spells_toDigits (by decide) n
  · rw [toList_wideHex, List.cons.injEq, List.cons.injEq] at split
    exact split.2.2 ▸ spells_padded (by decide) _ n

theorem Written.reads (h : Written n s) (hn : n < 2 ^ 64) : Reads s n := by
  cases h with
  | decimal h =>
    rw [Nat.toString_eq_repr, Nat.toList_repr] at h
    exact reads_decimal (h.spells (by decide) (spells_toDigits (by decide) n)) hn
  | hexadecimal form split h whole =>
    exact reads_hexadecimal (h.spells (by decide) (spells_hexadecimal form split)) whole hn

/-- A text is read as a number exactly when the grammar gives it that number; what is written for a number below
    `2 ^ 64` is read back as that number. -/
theorem reads_exactly_grammar (s : String) (n : Nat) :
    (flexible? s = some n ↔ Reads s n) ∧ (n < 2 ^ 64 → Written n s → flexible? s = some n) :=
  ⟨flexible?_eq_some_iff, fun hn h => flexible?_eq_some_iff.mpr (h.reads hn)⟩

example : flexible? "0_x10" = none ∧ flexible? "0x_" = none ∧ flexible? "+1844674407370955161_6" = none := by
  decide +kernel

theorem respelt_address_read_back :
    0xbeef < 2 ^ 64 ∧ Written 0xbeef "0x0000_bE_ef" ∧ flexible? "0x0000_bE_ef" = some 0xbeef := by
  have hprinted : (Numeral.wideHex 0xbeef).toList = ['0', 'x', '0', '0', '0', '0', 'b', 'e', 'e', 'f'] := by
    decide +kernel
  have hwritten : Written 0xbeef "0x0000_bE_ef" :=
    .hexadecimal (Or.inr rfl) hprinted (.keep '0' (.keep '0' (.keep '0' (.keep '0' (.underscore (.keep 'b' (.raise 'e'
      (.underscore (.keep 'e' (.keep 'f' .done)))))))))) (by decide +kernel)
  exact ⟨by decide, hwritten, (reads_exactly_grammar _ _).2 (by decide) hwritten⟩

end TileOffload.Command.Number
