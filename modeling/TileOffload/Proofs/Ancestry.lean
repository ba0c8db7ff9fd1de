import TileOffload.Proofs.Sessions

/-! # Tokens and those above them

How the tokens of a forest were made tells which of them share a state, and which state is above which. Main statement:
after any calls a token is cancelled exactly if a token was raised that shares its state or one above it, so raising a
token is felt below it and nowhere else. -/

namespace TileOffload

namespace TokenCall

/-- Whether a call makes a token. -/
def makes : TokenCall → Bool
  | raise _ => false
  | _ => true

/-- The token that a call names. -/
def operand? : TokenCall → Option Nat
  | create => none
  | child token | copy token | raise token => some token

/-- The calls that have made the tokens, in the order of the tokens. -/
def births (calls : List TokenCall) : List TokenCall := calls.filter makes

section
variable (births : List TokenCall)

/-- Token `i` has the state that token `s` was made with. -/
inductive HasState : Nat → Nat → Prop
  | created {i : Nat} (born : births[i]? = some .create) : HasState i i
  | child {i p : Nat} (born : births[i]? = some (.child p)) : HasState i i
  | copied {i o s : Nat} (born : births[i]? = some (.copy o)) (original : HasState o s) : HasState i s

/-- The two tokens share their state. -/
def Shares (i j : Nat) : Prop := ∃ s, HasState births i s ∧ HasState births j s

/-- The state of token `i` was made below that of token `p`. -/
def HasParent (i p : Nat) : Prop := ∃ s, HasState births i s ∧ births[s]? = some (.child p)

/-- The state of token `i` is above that of token `j`. -/
inductive Above (i : Nat) : Nat → Prop
  | parent {j p : Nat} (hparent : HasParent births j p) (hshares : Shares births i p) : Above i j
  | beyond {j p : Nat} (hparent : HasParent births j p) (habove : Above i p) : Above i j

/-- The state of token `i` is that of token `j` or above it. -/
def Governs (i j : Nat) : Prop := Shares births i j ∨ Above births i j

/-- The two tokens have states of their own, both made below the same state. -/
def Siblings (i j : Nat) : Prop :=
  ¬Shares births i j ∧ ∃ p q, HasParent births i p ∧ HasParent births j q ∧ Shares births p q

/-- There is a state that both tokens have or are below. -/
def SameTree (i j : Nat) : Prop := ∃ root, Governs births root i ∧ Governs births root j

end

variable {births : List TokenCall} {i j s : Nat}

theorem HasState.lt (h : HasState births i s) : i < births.length := by
  cases h with
  | created born | child born | copied born => exact (List.getElem?_eq_some_iff.mp born).1

theorem HasState.maker (h : HasState births i s) :
    births[s]? = some .create ∨ ∃ p, births[s]? = some (.child p) := by
  induction h with
  | created born => exact Or.inl born
  | child born => exact Or.inr ⟨_, born⟩
  | copied _ _ ih => exact ih

theorem Shares.symm (h : Shares births i j) : Shares births j i := by
  obtain ⟨s, hi, hj⟩ := h
  exact ⟨s, hj, hi⟩

theorem Governs.lt (h : Governs births i j) : i < births.length ∧ j < births.length := by
  rcases h with ⟨s, hi, hj⟩ | h
  · exact ⟨hi.lt, hj.lt⟩
  · induction h with
    | parent hparent hshares =>
      obtain ⟨s, hj, -⟩ := hparent
      obtain ⟨s', hi, -⟩ := hshares
      exact ⟨hi.lt, hj.lt⟩
    | beyond hparent _ ih =>
      obtain ⟨s, hj, -⟩ := hparent
      exact ⟨ih.1, hj.lt⟩

end TokenCall

namespace CancelFlags

variable {f : CancelFlags} {t u : CancelToken}

theorem isCancelled_raise_of_not_mem (h : u.own ∉ t.own :: t.above) : (f.raise u).isCancelled t = f.isCancelled t := by
  rw [Bool.eq_iff_iff]
  refine ⟨fun hraised => ?_, isCancelled_mono⟩
  obtain ⟨flag, hflag, hraised⟩ := isCancelled_iff.mp hraised
  rcases isRaised_of_raise hraised with hraised | rfl
  · exact isCancelled_iff.mpr ⟨flag, hflag, hraised⟩
  · exact absurd hflag h

end CancelFlags

namespace CancelForest

open TokenCall

variable {f f' : CancelForest} {calls : List TokenCall} {tokens more : List CancelToken} {t u : CancelToken}
  {c : TokenCall} {i j s : Nat}

/-- The token at place `j` is what a call has made of the tokens before it: a token with a flag that is newer than
    theirs, below nothing or below one of them, or else one of them. -/
inductive Planted (tokens : List CancelToken) (j : Nat) (t : CancelToken) : TokenCall → Prop
  | created (hnone : t.above = []) (hnew : ∀ i u, i < j → tokens[i]? = some u → u.own < t.own) :
      Planted tokens j t .create
  | child {p : Nat} {u : CancelToken} (hlt : p < j) (hparent : tokens[p]? = some u) (habove : t.above = u.own :: u.above)
      (hnew : ∀ i u, i < j → tokens[i]? = some u → u.own < t.own) : Planted tokens j t (.child p)
  | copied {o : Nat} (hlt : o < j) (horiginal : tokens[o]? = some t) : Planted tokens j t (.copy o)

/-- What calls have made of a forest that was empty. -/
structure Grown (calls : List TokenCall) (f : CancelForest) : Prop where
  length_eq : f.tokens.length = (births calls).length
  planted : ∀ j c, (births calls)[j]? = some c → ∃ t, f.tokens[j]? = some t ∧ Planted f.tokens j t c
  known : ∀ t ∈ f.tokens, t.own < f.flags.raised.size
  raises : ∀ j, .raise j ∈ calls → j < f.tokens.length
  raised_iff : ∀ flag, f.flags.isRaised flag = true ↔ ∃ j t, .raise j ∈ calls ∧ f.tokens[j]? = some t ∧ t.own = flag

/-! ### One call -/

theorem reports_eq_true_iff : f.reports[i]? = some true ↔ ∃ t, f.tokens[i]? = some t ∧ f.flags.isCancelled t = true := by
  rw [reports, List.getElem?_map, Option.map_eq_some_iff]

theorem Planted.append (h : Planted tokens j t c) (hj : j ≤ tokens.length) : Planted (tokens ++ more) j t c := by
  have hsame : ∀ i, i < j → (tokens ++ more)[i]? = tokens[i]? := fun i hi =>
    List.getElem?_append_left (Nat.lt_of_lt_of_le hi hj)
  cases h with
  | created hnone hnew => exact .created hnone fun i u hi hu => hnew i u hi (hsame i hi ▸ hu)
  | child hlt hparent habove hnew =>
    exact .child hlt ((hsame _ hlt).trans hparent) habove fun i u hi hu => hnew i u hi (hsame i hi ▸ hu)
  | copied hlt horiginal => exact .copied hlt ((hsame _ hlt).trans horiginal)

namespace Grown

theorem empty : Grown [] .empty where
  length_eq := rfl
  planted j c h := by cases h
  known := List.forall_mem_nil _
  raises j h := by cases h
  raised_iff flag := by
    refine iff_of_false (by simp [CancelForest.empty, CancelFlags.empty, CancelFlags.isRaised]) ?_
    rintro ⟨j, t, h, -⟩
    cases h

theorem plant (h : Grown calls f) (hmakes : c.makes = true) {flags : CancelFlags}
    (hplanted : Planted f.tokens f.tokens.length t c) (hsize : f.flags.raised.size ≤ flags.raised.size)
    (hknown : t.own < flags.raised.size) (hflags : ∀ flag, flags.isRaised flag = f.flags.isRaised flag) :
    Grown (calls ++ [c]) (f.plant (t, flags)) := by
  have hbirths : births (calls ++ [c]) = births calls ++ [c] := by
    rw [births, List.filter_append, List.filter_cons_of_pos hmakes]
    rfl
  have hcall : ∀ {j}, .raise j ∈ calls ++ [c] ↔ .raise j ∈ calls := by
    intro j
    rw [List.mem_append, List.mem_singleton, or_iff_left]
    rintro rfl
    cases hmakes
  have hlength : (f.plant (t, flags)).tokens.length = f.tokens.length + 1 := List.length_append
  constructor
  · rw [hlength, hbirths, List.length_append, h.length_eq]
    rfl
  · intro j c' hc'
    rw [hbirths] at hc'
    rcases Nat.lt_or_ge j (births calls).length with hj | hj
    · rw [List.getElem?_append_left hj] at hc'
      obtain ⟨u, hu, hplant⟩ := h.planted j c' hc'
      rw [← h.length_eq] at hj
      exact ⟨u, (List.getElem?_append_left hj).trans hu, hplant.append (Nat.le_of_lt hj)⟩
    · -- The last place is that of the new token.
      obtain rfl : j = (births calls).length := by
        have := (List.getElem?_eq_some_iff.mp hc').1
        rw [List.length_append, List.length_singleton] at this
        omega
      rw [List.getElem?_concat_length, Option.some.injEq] at hc'
      subst hc'
      rw [← h.length_eq]
      exact ⟨t, List.getElem?_concat_length, hplanted.append (Nat.le_refl _)⟩
  · intro u hu
    rcases List.mem_append.mp hu with hu | hu
    · exact Nat.lt_of_lt_of_le (h.known u hu) hsize
    · rw [List.mem_singleton.mp hu]
      exact hknown
  · intro j hj
    rw [hlength]
    exact Nat.lt_succ_of_lt (h.raises j (hcall.mp hj))
  · intro flag
    refine (iff_of_eq (congrArg (· = true) (hflags flag))).trans ((h.raised_iff flag).trans ?_)
    refine exists_congr fun j => exists_congr fun u => ?_
    rw [hcall]
    refine and_congr_right fun hj => ?_
    rw [← List.getElem?_append_left (h.raises j hj)]
    rfl

theorem raise (h : Grown calls f) (ht : f.tokens[j]? = some t) :
    Grown (calls ++ [.raise j]) { f with flags := f.flags.raise t } := by
  have hbirths : births (calls ++ [.raise j]) = births calls := by
    rw [births, List.filter_append, List.filter_cons_of_neg Bool.false_ne_true]
    exact List.append_nil _
  have hmem := List.mem_of_getElem? ht
  constructor
  · rw [hbirths]
    exact h.length_eq
  · rw [hbirths]
    exact h.planted
  · intro u hu
    rw [CancelFlags.size_raise]
    exact h.known u hu
  · intro i hi
    rcases List.mem_append.mp hi with hi | hi
    · exact h.raises i hi
    · cases List.mem_singleton.mp hi
      exact (List.getElem?_eq_some_iff.mp ht).1
  · intro flag
    constructor
    · intro hraised
      rcases CancelFlags.isRaised_of_raise hraised with hraised | rfl
      · obtain ⟨i, u, hi, hu⟩ := (h.raised_iff flag).mp hraised
        exact ⟨i, u, List.mem_append_left _ hi, hu⟩
      · exact ⟨j, t, List.mem_append_right _ List.mem_cons_self, ht, rfl⟩
    · rintro ⟨i, u, hi, hu, rfl⟩
      rcases List.mem_append.mp hi with hi | hi
      · exact CancelFlags.isRaised_raise ((h.raised_iff u.own).mpr ⟨i, u, hi, hu, rfl⟩)
      · cases List.mem_singleton.mp hi
        obtain rfl := Option.some.inj (ht.symm.trans hu)
        exact CancelFlags.isRaised_raise_own (h.known t hmem)

theorem call (h : Grown calls f) (hcall : f.call? c = some f') : Grown (calls ++ [c]) f' := by
  have hnew : ∀ i u, i < f.tokens.length → f.tokens[i]? = some u → u.own < f.flags.raised.size :=
    fun i u _ hu => h.known u (List.mem_of_getElem? hu)
  have hpush : f.flags.raised.size < (f.flags.raised.push false).size := by
    rw [Array.size_push]
    exact Nat.lt_succ_self _
  cases c with
  | create =>
    cases hcall
    exact h.plant rfl (.created rfl hnew) hpush.le hpush (CancelFlags.isRaised_push f.flags)
  | child p =>
    obtain ⟨t, ht, rfl⟩ := Option.map_eq_some_iff.mp hcall
    exact h.plant rfl (.child (List.getElem?_eq_some_iff.mp ht).1 ht rfl hnew) hpush.le hpush
      (CancelFlags.isRaised_push f.flags)
  | copy o =>
    obtain ⟨t, ht, rfl⟩ := Option.map_eq_some_iff.mp hcall
    exact h.plant rfl (.copied (List.getElem?_eq_some_iff.mp ht).1 ht) (Nat.le_refl _)
      (h.known t (List.mem_of_getElem? ht)) fun _ => rfl
  | raise j =>
    obtain ⟨t, ht, rfl⟩ := Option.map_eq_some_iff.mp hcall
    exact h.raise ht

theorem callAll {past : List TokenCall} (h : Grown past f) (hcalls : f.callAll? calls = some f') :
    Grown (past ++ calls) f' := by
  induction calls generalizing past f with
  | nil =>
    cases hcalls
    rwa [List.append_nil]
  | cons c calls ih =>
    obtain ⟨f₁, hc, hrest⟩ := Option.bind_eq_some_iff.mp hcalls
    rw [List.append_cons]
    exact ih (h.call hc) hrest

/-! ### States and flags -/

theorem exists_token (h : Grown calls f) (hi : i < (births calls).length) : ∃ t, f.tokens[i]? = some t :=
  ⟨_, List.getElem?_eq_getElem (h.length_eq ▸ hi)⟩

theorem planted_at (h : Grown calls f) (ht : f.tokens[i]? = some t) (hc : (births calls)[i]? = some c) :
    Planted f.tokens i t c := by
  obtain ⟨u, hu, hplanted⟩ := h.planted i c hc
  obtain rfl := Option.some.inj (ht.symm.trans hu)
  exact hplanted

theorem exists_birth (h : Grown calls f) (ht : f.tokens[i]? = some t) : ∃ c, (births calls)[i]? = some c :=
  ⟨_, List.getElem?_eq_getElem (h.length_eq ▸ (List.getElem?_eq_some_iff.mp ht).1)⟩

theorem exists_state (h : Grown calls f) (ht : f.tokens[i]? = some t) : ∃ s, HasState (births calls) i s := by
  induction i using Nat.strongRecOn generalizing t with
  | _ i ih =>
    obtain ⟨c, hc⟩ := h.exists_birth ht
    cases h.planted_at ht hc with
    | created => exact ⟨i, .created hc⟩
    | child => exact ⟨i, .child hc⟩
    | copied hlt horiginal =>
      obtain ⟨s, hs⟩ := ih _ hlt horiginal
      exact ⟨s, .copied hc hs⟩

/-- A token is the same as the one that its state was made with. -/
theorem token_of_state (h : Grown calls f) (hs : HasState (births calls) i s) (ht : f.tokens[i]? = some t) :
    f.tokens[s]? = some t ∧ s ≤ i := by
  induction hs with
  | created | child => exact ⟨ht, Nat.le_refl _⟩
  | copied born _ ih =>
    cases h.planted_at ht born with
    | copied hlt horiginal =>
      obtain ⟨hsame, hle⟩ := ih horiginal
      exact ⟨hsame, Nat.le_trans hle (Nat.le_of_lt hlt)⟩

/-- The flag of a state is newer than those of all tokens made before. -/
theorem lt_own (h : Grown calls f) (hs : HasState (births calls) i s) (ht : f.tokens[s]? = some t) (hj : j < s)
    (hu : f.tokens[j]? = some u) : u.own < t.own := by
  rcases hs.maker with born | ⟨p, born⟩
  · cases h.planted_at ht born with
    | created _ hnew => exact hnew j u hj hu
  · cases h.planted_at ht born with
    | child _ _ _ hnew => exact hnew j u hj hu

theorem shares_iff (h : Grown calls f) (ht : f.tokens[i]? = some t) (hu : f.tokens[j]? = some u) :
    Shares (births calls) i j ↔ t.own = u.own := by
  constructor
  · rintro ⟨s, hi, hj⟩
    have hsame := (h.token_of_state hi ht).1.symm.trans (h.token_of_state hj hu).1
    rw [Option.some.inj hsame]
  · intro hown
    obtain ⟨s, hi⟩ := h.exists_state ht
    obtain ⟨s', hj⟩ := h.exists_state hu
    have hts := (h.token_of_state hi ht).1
    have hus := (h.token_of_state hj hu).1
    rcases Nat.lt_trichotomy s s' with hlt | rfl | hlt
    · exact absurd hown (Nat.ne_of_lt (h.lt_own hj hus hlt hts))
    · exact ⟨s, hi, hj⟩
    · exact absurd hown.symm (Nat.ne_of_lt (h.lt_own hi hts hlt hus))

/-- The flags above a token begin with the one of its parent. -/
theorem above_of_parent (h : Grown calls f) {p : Nat} (hp : HasParent (births calls) i p) (ht : f.tokens[i]? = some t) :
    ∃ u, f.tokens[p]? = some u ∧ t.above = u.own :: u.above ∧ u.own < t.own ∧ p < i := by
  obtain ⟨s, hs, born⟩ := hp
  obtain ⟨hts, hle⟩ := h.token_of_state hs ht
  cases h.planted_at hts born with
  | child hlt hparent habove hnew =>
    exact ⟨_, hparent, habove, hnew _ _ hlt hparent, Nat.lt_of_lt_of_le hlt hle⟩

theorem parent_of_above (h : Grown calls f) (ht : f.tokens[i]? = some t) (hsome : t.above ≠ []) :
    ∃ p, HasParent (births calls) i p := by
  obtain ⟨s, hs⟩ := h.exists_state ht
  rcases hs.maker with born | ⟨p, born⟩
  · cases h.planted_at (h.token_of_state hs ht).1 born with
    | created hnone => exact absurd hnone hsome
  · exact ⟨p, s, hs, born⟩

theorem above_iff (h : Grown calls f) (ht : f.tokens[i]? = some t) (hu : f.tokens[j]? = some u) :
    Above (births calls) i j ↔ t.own ∈ u.above := by
  constructor
  · intro habove
    induction habove generalizing u with
    | parent hparent hshares =>
      obtain ⟨v, hv, heq, -⟩ := h.above_of_parent hparent hu
      rw [heq, (h.shares_iff ht hv).mp hshares]
      exact List.mem_cons_self
    | beyond hparent _ ih =>
      obtain ⟨v, hv, heq, -⟩ := h.above_of_parent hparent hu
      rw [heq]
      exact List.mem_cons_of_mem _ (ih hv)
  · -- On the place of the lower token: its parent was made before it.
    intro hmem
    induction j using Nat.strongRecOn generalizing u with
    | _ j ih =>
      obtain ⟨p, hparent⟩ := h.parent_of_above hu (List.ne_nil_of_mem hmem)
      obtain ⟨v, hv, heq, -, hlt⟩ := h.above_of_parent hparent hu
      rw [heq] at hmem
      rcases List.mem_cons.mp hmem with hown | hmem
      · exact .parent hparent ((h.shares_iff ht hv).mpr hown)
      · exact .beyond hparent (ih p hlt hv hmem)

theorem governs_iff (h : Grown calls f) (ht : f.tokens[i]? = some t) (hu : f.tokens[j]? = some u) :
    Governs (births calls) i j ↔ t.own ∈ u.own :: u.above := by
  rw [Governs, h.shares_iff ht hu, h.above_iff ht hu, List.mem_cons]

theorem lt_of_mem_above (h : Grown calls f) (ht : f.tokens[i]? = some t) {flag : Nat} (hflag : flag ∈ t.above) :
    flag < t.own := by
  induction i using Nat.strongRecOn generalizing t with
  | _ i ih =>
    obtain ⟨p, hparent⟩ := h.parent_of_above ht (List.ne_nil_of_mem hflag)
    obtain ⟨u, hu, heq, hlt, hp⟩ := h.above_of_parent hparent ht
    rw [heq] at hflag
    rcases List.mem_cons.mp hflag with rfl | hflag
    · exact hlt
    · exact Nat.lt_trans (ih p hp hu hflag) hlt

/-! ### Who feels a token being raised -/

theorem not_governs_of_above (h : Grown calls f) (habove : Above (births calls) i j) :
    ¬Governs (births calls) j i := by
  intro hgoverns
  obtain ⟨t, ht⟩ := h.exists_token hgoverns.lt.2
  obtain ⟨u, hu⟩ := h.exists_token hgoverns.lt.1
  have hlt := h.lt_of_mem_above hu ((h.above_iff ht hu).mp habove)
  rcases List.mem_cons.mp ((h.governs_iff hu ht).mp hgoverns) with hown | hmem
  · exact absurd hown (Nat.ne_of_gt hlt)
  · exact absurd (h.lt_of_mem_above ht hmem) (Nat.lt_asymm hlt)

theorem not_governs_of_siblings (h : Grown calls f) (hsiblings : Siblings (births calls) i j) :
    ¬Governs (births calls) j i := by
  obtain ⟨hapart, p, q, hi, hj, hshares⟩ := hsiblings
  rintro (hsame | habove)
  · exact hapart hsame.symm
  · obtain ⟨s, hi', -⟩ := id hi
    obtain ⟨s', hj', -⟩ := id hj
    obtain ⟨t, ht⟩ := h.exists_token hi'.lt
    obtain ⟨u, hu⟩ := h.exists_token hj'.lt
    obtain ⟨v, hv, htop, -⟩ := h.above_of_parent hi ht
    obtain ⟨w, hw, hutop, -⟩ := h.above_of_parent hj hu
    -- Parents that share a state are one token, so what is above one sibling is above the other.
    obtain ⟨r, hp, hq⟩ := hshares
    obtain rfl := Option.some.inj ((h.token_of_state hp hv).1.symm.trans (h.token_of_state hq hw).1)
    have hmem := (h.above_iff hu ht).mp habove
    rw [htop, ← hutop] at hmem
    exact Nat.lt_irrefl _ (h.lt_of_mem_above hu hmem)

theorem governs_self (h : Grown calls f) (ht : f.tokens[i]? = some t) : Governs (births calls) i i :=
  Or.inl ((h.shares_iff ht ht).mpr rfl)

theorem not_governs_of_apart (h : Grown calls f) (ht : f.tokens[j]? = some t)
    (hapart : ¬SameTree (births calls) i j) : ¬Governs (births calls) j i :=
  fun hgoverns => hapart ⟨j, hgoverns, h.governs_self ht⟩

theorem reports_iff (h : Grown calls f) (i : Nat) :
    f.reports[i]? = some true ↔ ∃ j, .raise j ∈ calls ∧ Governs (births calls) j i := by
  rw [reports_eq_true_iff]
  constructor
  · rintro ⟨t, ht, hcancelled⟩
    obtain ⟨flag, hflag, hraised⟩ := CancelFlags.isCancelled_iff.mp hcancelled
    obtain ⟨j, u, hj, hu, rfl⟩ := (h.raised_iff flag).mp hraised
    exact ⟨j, hj, (h.governs_iff hu ht).mpr hflag⟩
  · rintro ⟨j, hj, hgoverns⟩
    obtain ⟨t, ht⟩ := h.exists_token hgoverns.lt.2
    obtain ⟨u, hu⟩ := h.exists_token hgoverns.lt.1
    refine ⟨t, ht, CancelFlags.isCancelled_iff.mpr ⟨u.own, (h.governs_iff hu ht).mp hgoverns, ?_⟩⟩
    exact (h.raised_iff u.own).mpr ⟨j, u, hj, hu, rfl⟩

theorem reports_raise (h : Grown calls f) (hcall : f.call? (.raise j) = some f')
    (hfree : ¬Governs (births calls) j i) : f'.reports[i]? = f.reports[i]? := by
  obtain ⟨u, hu, rfl⟩ := Option.map_eq_some_iff.mp hcall
  rw [reports, reports, List.getElem?_map, List.getElem?_map]
  cases ht : f.tokens[i]? with
  | none => rfl
  | some t =>
    have hapart := mt (h.governs_iff hu ht).mpr hfree
    exact congrArg some (CancelFlags.isCancelled_raise_of_not_mem hapart)

end Grown

theorem exists_call (hc : ∀ i ∈ c.operand?, i < f.tokens.length) : ∃ f', f.call? c = some f' := by
  cases c with
  | create => exact ⟨_, rfl⟩
  | child i | copy i | raise i =>
    have ht := List.getElem?_eq_getElem (hc i rfl)
    exact ⟨_, Option.map_eq_some_iff.mpr ⟨_, ht, rfl⟩⟩

theorem reports_plant {flags : CancelFlags} (hflags : ∀ flag, flags.isRaised flag = f.flags.isRaised flag)
    (hi : f.reports[i]? = some true) : (f.plant (u, flags)).reports[i]? = some true := by
  obtain ⟨t, ht, hcancelled⟩ := reports_eq_true_iff.mp hi
  obtain ⟨flag, hflag, hraised⟩ := CancelFlags.isCancelled_iff.mp hcancelled
  refine reports_eq_true_iff.mpr ⟨t, ?_, CancelFlags.isCancelled_iff.mpr ⟨flag, hflag, (hflags flag).trans hraised⟩⟩
  exact (List.getElem?_append_left (List.getElem?_eq_some_iff.mp ht).1).trans ht

theorem reports_mono (hcall : f.call? c = some f') (hi : f.reports[i]? = some true) : f'.reports[i]? = some true := by
  cases c with
  | create =>
    cases hcall
    exact reports_plant (CancelFlags.isRaised_push f.flags) hi
  | child p =>
    obtain ⟨t, -, rfl⟩ := Option.map_eq_some_iff.mp hcall
    exact reports_plant (CancelFlags.isRaised_push f.flags) hi
  | copy o =>
    obtain ⟨t, -, rfl⟩ := Option.map_eq_some_iff.mp hcall
    exact reports_plant (fun _ => rfl) hi
  | raise j =>
    obtain ⟨u, -, rfl⟩ := Option.map_eq_some_iff.mp hcall
    obtain ⟨t, ht, hcancelled⟩ := reports_eq_true_iff.mp hi
    exact reports_eq_true_iff.mpr ⟨t, ht, CancelFlags.isCancelled_mono hcancelled⟩

theorem reports_child {p : Nat} (hcall : f.call? (.child p) = some f') (hp : f.reports[p]? = some true) :
    f'.reports[f.reports.length]? = some true := by
  obtain ⟨t, ht, hcancelled⟩ := reports_eq_true_iff.mp hp
  obtain ⟨u, hu, rfl⟩ := Option.map_eq_some_iff.mp hcall
  obtain rfl := Option.some.inj (ht.symm.trans hu)
  have hlength : f.reports.length = f.tokens.length := List.length_map _
  rw [hlength]
  exact reports_eq_true_iff.mpr ⟨_, List.getElem?_concat_length, CancelFlags.isCancelled_child.trans hcancelled⟩

/-- After any calls that name only tokens there are, every token reports, and it says that it is cancelled exactly if a
    token has been raised that shares its state or one above it. The next call, too, is served if it names a token there
    is. After it no token has gone back to not being cancelled; raising a token has changed nothing for the tokens above
    it, for its siblings, and for those in other trees; and a token made below one that is cancelled is cancelled. -/
theorem cancelled_from_above {calls : List TokenCall} {f : CancelForest} (h : empty.callAll? calls = some f) :
    f.reports.length = (births calls).length ∧
    (∀ i : Nat, f.reports[i]? = some true ↔ ∃ j, .raise j ∈ calls ∧ Governs (births calls) j i) ∧
    ∀ c, (∀ i ∈ c.operand?, i < f.reports.length) → ∃ f', f.call? c = some f' ∧
      (∀ i : Nat, f.reports[i]? = some true → f'.reports[i]? = some true) ∧
      (∀ j, c = .raise j → ∀ i : Nat, Above (births calls) i j ∨ Siblings (births calls) i j ∨ ¬SameTree (births calls) i j →
        f'.reports[i]? = f.reports[i]?) ∧
      (∀ p : Nat, c = .child p → f.reports[p]? = some true → f'.reports[f.reports.length]? = some true) := by
  have hgrown : Grown calls f := Grown.empty.callAll h
  have hlength : f.reports.length = f.tokens.length := List.length_map _
  refine ⟨hlength.trans hgrown.length_eq, hgrown.reports_iff, fun c hc => ?_⟩
  rw [hlength] at hc
  obtain ⟨f', hcall⟩ := exists_call hc
  refine ⟨f', hcall, fun i => reports_mono hcall, ?_, ?_⟩
  · rintro j rfl i hfree
    refine hgrown.reports_raise hcall ?_
    rcases hfree with habove | hsiblings | hapart
    · exact hgrown.not_governs_of_above habove
    · exact hgrown.not_governs_of_siblings hsiblings
    · exact hgrown.not_governs_of_apart (List.getElem?_eq_getElem (hc j rfl)) hapart
  · rintro p rfl
    exact reports_child hcall

/-- The calls that make two tokens below one, a copy of the first of them, and a token below the copy. -/
def twoBranches : List TokenCall := [.create, .child 0, .child 0, .copy 1, .child 3]

/-- Raising the first of two branches is felt by its copy and below that, but not above and not on the other branch. -/
theorem copy_and_child_feel_raise :
    ∃ f f', empty.callAll? twoBranches = some f ∧ f.call? (.raise 1) = some f' ∧
      f'.reports[0]? = f.reports[0]? ∧ f'.reports[2]? = f.reports[2]? ∧
      f'.reports = [false, true, false, true, true] := by
  have hrun : empty.callAll? twoBranches = some _ := rfl
  obtain ⟨-, -, hnext⟩ := cancelled_from_above hrun
  obtain ⟨f', hcall, -, hfree, -⟩ := hnext (.raise 1) (by decide)
  have hroot : Shares (births twoBranches) 0 0 := ⟨0, .created rfl, .created rfl⟩
  have hfirst : HasParent (births twoBranches) 1 0 := ⟨1, .child rfl, rfl⟩
  have hsecond : HasParent (births twoBranches) 2 0 := ⟨2, .child rfl, rfl⟩
  have hapart : ¬Shares (births twoBranches) 2 1 := by
    rintro ⟨s, h₂, h₁⟩
    cases h₂ with
    | created born | copied born => cases born
    | child =>
      cases h₁ with
      | copied born => cases born
  refine ⟨_, f', hrun, hcall, hfree 1 rfl 0 (Or.inl (.parent hfirst hroot)), ?_, ?_⟩
  · exact hfree 1 rfl 2 (Or.inr (Or.inl ⟨hapart, 0, 0, hsecond, hfirst, hroot⟩))
  · cases hcall
    rfl

end CancelForest

end TileOffload
