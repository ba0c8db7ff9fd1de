import Mathlib.Algebra.Ring.Nat
import Mathlib.Data.Nat.Find
import TileOffload.Proofs.Traffic
import TileOffload.Script

/-! # Waiting for completion

A wait reads the status again and again until a read decides it or the policy gives up. Which read that is depends on
the statuses and on the limit alone, so the statuses that a device will answer with are looked at first, and the wait is
told from them. Main statement: the reads, the acknowledgement and the answer of a wait over any statuses, and that
waits that time out read on where the last one stopped. -/

namespace TileOffload

variable {σ : Type}

/-- What is behind the bus after so many reads of a register. -/
def Bus.afterReads (bus : Bus σ) (r : Word) : Nat → σ → σ
  | 0, s => s
  | n + 1, s => (bus.read r (bus.afterReads r n s)).2

theorem Bus.afterReads_add (bus : Bus σ) (r : Word) (m n : Nat) (s : σ) :
    bus.afterReads r (m + n) s = bus.afterReads r n (bus.afterReads r m s) := by
  induction n with
  | zero => rfl
  | succ n ih => exact congrArg (fun t => (bus.read r t).2) ih

/-- The poll at which a wait gives up on a device that stays busy: the last that the policy allows, and the first at
    least; or the one at which the deadline is seen to have expired before that. -/
inductive WaitPolicy.Limits (policy : WaitPolicy) (clock : Stopwatch) : Option Nat → Prop
  | polls (hunexpired : ∀ deadline ∈ policy.deadline, ∀ n, 0 < n → (∀ m ∈ policy.maxPolls, n < m) →
      clock n < deadline) :
    Limits policy clock (policy.maxPolls.map (max · 1))
  | expired {deadline m : Nat} (hdeadline : policy.deadline = some deadline) (hpos : 0 < m)
      (hbefore : ∀ n, 0 < n → n < m → clock n < deadline) (hexpired : deadline ≤ clock m)
      (hpolls : ∀ l ∈ policy.maxPolls, m ≤ max l 1) :
    Limits policy clock (some m)

namespace WaitPolicy

variable {policy : WaitPolicy} {clock : Stopwatch} {limit : Option Nat} {m n : Nat}

theorem givesUp_eq_true_iff : policy.givesUp m n = true ↔
    (∃ l ∈ policy.maxPolls, l ≤ m) ∨ ∃ deadline ∈ policy.deadline, deadline ≤ n := by
  simp [givesUp, Option.any_eq_true]

theorem Limits.atOnce (h : policy.deadline = some 0) : policy.Limits clock (some 1) :=
  .expired h Nat.zero_lt_one (fun _ hpos hlt => absurd hpos (Nat.not_lt.mpr (Nat.le_of_lt_succ hlt))) (Nat.zero_le _)
    fun l _ => Nat.le_max_right l 1

theorem exists_limits (policy : WaitPolicy) (clock : Stopwatch) : ∃ limit, policy.Limits clock limit := by
  cases hdeadline : policy.deadline with
  | none =>
    refine ⟨_, .polls fun deadline hd => ?_⟩
    rw [hdeadline] at hd
    cases hd
  | some deadline =>
    by_cases hexpires : ∃ n, 0 < n ∧ deadline ≤ clock n ∧ ∀ l ∈ policy.maxPolls, n ≤ max l 1
    · -- The first poll at which the deadline is seen to have expired comes before the bound on the polls.
      classical
      obtain ⟨hpos, hexpired, hpolls⟩ := Nat.find_spec hexpires
      refine ⟨_, .expired hdeadline hpos (fun n hn hlt => Nat.lt_of_not_le fun hle => ?_) hexpired hpolls⟩
      exact Nat.find_min hexpires hlt ⟨hn, hle, fun l hl => Nat.le_trans (Nat.le_of_lt hlt) (hpolls l hl)⟩
    · refine ⟨_, .polls fun deadline' hd n hn hlt => Nat.lt_of_not_le fun hle => hexpires ?_⟩
      obtain rfl : deadline = deadline' := Option.some.inj (hdeadline.symm.trans hd)
      exact ⟨n, hn, hle, fun l hl => Nat.le_trans (Nat.le_of_lt (hlt l hl)) (Nat.le_max_left l 1)⟩

theorem Limits.pos (h : policy.Limits clock (some m)) : 0 < m := by
  generalize hlimit : some m = limit at h
  cases h with
  | polls hunexpired =>
    obtain ⟨n, -, rfl⟩ := Option.map_eq_some_iff.mp hlimit.symm
    exact Nat.lt_of_lt_of_le Nat.zero_lt_one (Nat.le_max_right n 1)
  | expired hdeadline hpos => exact Option.some.inj hlimit ▸ hpos

theorem Limits.goesOn (h : policy.Limits clock limit) (hn : 0 < n) (hwithin : ∀ m ∈ limit, n < m) :
    policy.givesUp n (clock n) = false := by
  refine Bool.eq_false_iff.mpr fun hgives => ?_
  cases h with
  | polls hunexpired =>
    have hallowed : ∀ m ∈ policy.maxPolls, n < m := fun m hm => by
      have := hwithin (max m 1) (Option.mem_map_of_mem _ hm)
      omega
    rcases givesUp_eq_true_iff.mp hgives with ⟨l, hl, hle⟩ | ⟨deadline, hd, hle⟩
    · exact Nat.not_le_of_lt (hallowed l hl) hle
    · exact Nat.not_le_of_lt (hunexpired deadline hd n hn hallowed) hle
  | @expired deadline m hdeadline hpos hbefore hexpired hpolls =>
    have hlt := hwithin m rfl
    rcases givesUp_eq_true_iff.mp hgives with ⟨l, hl, hle⟩ | ⟨deadline', hd, hle⟩
    · have := hpolls l hl
      omega
    · obtain rfl : deadline = deadline' := Option.some.inj (hdeadline.symm.trans hd)
      exact Nat.not_le_of_lt (hbefore n hn hlt) hle

theorem Limits.givesUp (h : policy.Limits clock (some m)) : policy.givesUp m (clock m) = true := by
  rw [givesUp_eq_true_iff]
  generalize hlimit : some m = limit at h
  cases h with
  | polls hunexpired =>
    obtain ⟨l, hl, rfl⟩ := Option.map_eq_some_iff.mp hlimit.symm
    exact Or.inl ⟨l, hl, Nat.le_max_left l 1⟩
  | expired hdeadline hpos hbefore hexpired =>
    cases hlimit
    exact Or.inr ⟨_, hdeadline, hexpired⟩

end WaitPolicy

namespace RegisterMap

/-- The status has no error bit, and some busy bit. -/
def SaysBusy (map : RegisterMap) (status : Word) : Prop :=
  status &&& map.errorMask = 0 ∧ status &&& map.busyMask ≠ 0

/-- The status has neither an error bit nor a busy bit. -/
def SaysDone (map : RegisterMap) (status : Word) : Prop :=
  status &&& map.errorMask = 0 ∧ status &&& map.busyMask = 0

variable {map : RegisterMap} {status : Word}

instance : Decidable (map.SaysBusy status) := inferInstanceAs (Decidable (_ ∧ _))

instance : Decidable (map.SaysDone status) := inferInstanceAs (Decidable (_ ∧ _))

theorem SaysBusy.verdict (h : map.SaysBusy status) : map.verdict status = .ok .busy := by
  rw [RegisterMap.verdict, if_neg (fun hne => hne h.1), if_pos h.2]

theorem SaysDone.verdict (h : map.SaysDone status) : map.verdict status = .ok .done := by
  rw [RegisterMap.verdict, if_neg (fun hne => hne h.1), if_neg (fun hne => hne h.2)]

theorem verdict_of_error (h : status &&& map.errorMask ≠ 0) :
    map.verdict status = .error (.deviceFault (.errorStatus map.name status)) :=
  if_pos h

theorem error_or_busy_or_done (map : RegisterMap) (status : Word) :
    status &&& map.errorMask ≠ 0 ∨ map.SaysBusy status ∨ map.SaysDone status := by
  unfold SaysBusy SaysDone
  rcases eq_or_ne (status &&& map.errorMask) 0 with herror | herror
  · rcases eq_or_ne (status &&& map.busyMask) 0 with hbusy | hbusy
    · exact Or.inr (Or.inr ⟨herror, hbusy⟩)
    · exact Or.inr (Or.inl ⟨herror, hbusy⟩)
  · exact Or.inl herror

end RegisterMap

namespace Device

/-- The device after so many reads of its status. -/
def afterReads (bus : Bus σ) (d : Device σ) (n : Nat) : Device σ :=
  { d with target := bus.afterReads d.map.status n d.target }

/-- The answer to the read of the status with this number, the first having number zero. -/
def statusRead (bus : Bus σ) (d : Device σ) (i : Nat) : Except Error Word :=
  (bus.read d.map.status (d.afterReads bus i).target).1

/-- The first reads of the status, as the bus sees them. -/
def statusReads (bus : Bus σ) (d : Device σ) (n : Nat) : List Access :=
  (List.range n).map fun i => .read d.map.status (d.statusRead bus i)

/-- The read of the status with this number says that the device is busy. -/
def BusyAt (bus : Bus σ) (d : Device σ) (i : Nat) : Prop :=
  ∃ status, d.statusRead bus i = .ok status ∧ d.map.SaysBusy status

/-- The first reads of the status all say that the device is busy. -/
def BusyFor (bus : Bus σ) (d : Device σ) (k : Nat) : Prop := ∀ i < k, d.BusyAt bus i

/-- The read with this number is the first that does not say that the device is busy, and the limit lets it be made. -/
structure Decides (bus : Bus σ) (d : Device σ) (limit : Option Nat) (k : Nat) : Prop where
  busy : d.BusyFor bus k
  within : ∀ m ∈ limit, k < m

/-- How the wait of a running device ends: the number of reads, the acknowledgement, the answer, and the device then. -/
inductive Awaited (bus : Bus σ) (d : Device σ) (clock : Stopwatch) (limit : Option Nat) :
    Nat → List Access → Except Error Nat → Device σ → Prop
  | timedOut {m : Nat} (hlimit : limit = some m) (hbusy : d.BusyFor bus m) :
      Awaited bus d clock limit m [] (.error (.timeout m (clock m))) (d.afterReads bus m)
  | refused {k : Nat} {e : Error} (h : d.Decides bus limit k) (hread : d.statusRead bus k = .error e) :
      Awaited bus d clock limit (k + 1) [] (.error e) (d.afterReads bus (k + 1))
  | faulty {k : Nat} {status : Word} (h : d.Decides bus limit k) (hread : d.statusRead bus k = .ok status)
      (herror : status &&& d.map.errorMask ≠ 0) :
      Awaited bus d clock limit (k + 1) [] (.error (.deviceFault (.errorStatus d.map.name status)))
        (d.afterReads bus (k + 1))
  | released {k : Nat} {status : Word} (h : d.Decides bus limit k) (hread : d.statusRead bus k = .ok status)
      (hdone : d.map.SaysDone status) (hclear : d.map.clear = none) :
      Awaited bus d clock limit (k + 1) [] (.ok (k + 1))
        { d.afterReads bus (k + 1) with state := .idle, launches := d.launches + 1 }
  | cleared {k : Nat} {status r : Word} {s : σ} (h : d.Decides bus limit k) (hread : d.statusRead bus k = .ok status)
      (hdone : d.map.SaysDone status) (hclear : d.map.clear = some r)
      (hwrite : bus.write r 0 (d.afterReads bus (k + 1)).target = (.ok (), s)) :
      Awaited bus d clock limit (k + 1) [.write r 0 (.ok ())] (.ok (k + 1))
        { d with target := s, state := .idle, launches := d.launches + 1 }
  | uncleared {k : Nat} {status r : Word} {e : Error} {s : σ} (h : d.Decides bus limit k)
      (hread : d.statusRead bus k = .ok status) (hdone : d.map.SaysDone status) (hclear : d.map.clear = some r)
      (hwrite : bus.write r 0 (d.afterReads bus (k + 1)).target = (.error e, s)) :
      Awaited bus d clock limit (k + 1) [.write r 0 (.error e)] (.error e)
        { d with target := s, state := .done, launches := d.launches + 1 }

/-- The device after so many reads of its status, with these reads noted. -/
def watched (bus : Bus σ) (d : Device σ) (n : Nat) (log : List Access) : Device (σ × List Access) :=
  (d.afterReads bus n).noted ((d.statusReads bus n).reverse ++ log)

variable {bus : Bus σ} {d d' : Device σ} {policy : WaitPolicy} {clock : Stopwatch} {limit : Option Nat} {k m n : Nat}
  {ack log : List Access} {answer : Except Error Nat}

/-! ### Reads -/

theorem statusReads_succ (bus : Bus σ) (d : Device σ) (n : Nat) :
    d.statusReads bus (n + 1) = d.statusReads bus n ++ [.read d.map.status (d.statusRead bus n)] := by
  rw [statusReads, List.range_succ, List.map_append]
  rfl

theorem afterReads_add (bus : Bus σ) (d : Device σ) (m n : Nat) :
    d.afterReads bus (m + n) = (d.afterReads bus m).afterReads bus n := by
  simp only [afterReads, Bus.afterReads_add]

theorem statusRead_add (bus : Bus σ) (d : Device σ) (m i : Nat) :
    d.statusRead bus (m + i) = (d.afterReads bus m).statusRead bus i := by
  rw [statusRead, statusRead, afterReads_add]
  rfl

theorem statusReads_add (bus : Bus σ) (d : Device σ) (m n : Nat) :
    d.statusReads bus (m + n) = d.statusReads bus m ++ (d.afterReads bus m).statusReads bus n := by
  induction n with
  | zero => exact (List.append_nil _).symm
  | succ n ih =>
    rw [← Nat.add_assoc, statusReads_succ, ih, statusRead_add, List.append_assoc, statusReads_succ]
    rfl

theorem busyFor_add : d.BusyFor bus (m + n) ↔ d.BusyFor bus m ∧ (d.afterReads bus m).BusyFor bus n := by
  have hshift : ∀ i, d.BusyAt bus (m + i) ↔ (d.afterReads bus m).BusyAt bus i := fun i => by
    rw [BusyAt, statusRead_add]
    rfl
  constructor
  · exact fun h => ⟨fun i hi => h i (by omega), fun i hi => (hshift i).mp (h (m + i) (by omega))⟩
  · rintro ⟨hfirst, hlast⟩ i hi
    rcases Nat.lt_or_ge i m with him | him
    · exact hfirst i him
    · obtain ⟨j, rfl⟩ := Nat.exists_eq_add_of_le him
      exact (hshift j).mpr (hlast j (by omega))

theorem watched_add (bus : Bus σ) (d : Device σ) (m n : Nat) (log : List Access) :
    d.watched bus (m + n) log =
      (d.afterReads bus m).watched bus n ((d.statusReads bus m).reverse ++ log) := by
  rw [watched, afterReads_add, statusReads_add, List.reverse_append, List.append_assoc]
  rfl

/-! ### Polls -/

theorem poll_watched (hrunning : d.state = .running) (k : Nat) (log : List Access) :
    (d.watched bus k log).poll bus.noting =
      match d.statusRead bus k with
      | .error e => (.error e, d.watched bus (k + 1) log)
      | .ok status => (d.watched bus (k + 1) log).observe status := by
  have hpoll : (d.watched bus k log).checkPoll = .ok .busy := by
    simp only [checkPoll, watched, noted, afterReads, hrunning]
  have hlog : (d.statusReads bus (k + 1)).reverse ++ log =
      .read d.map.status (d.statusRead bus k) :: ((d.statusReads bus k).reverse ++ log) := by
    rw [statusReads_succ, List.reverse_append]
    rfl
  simp only [poll, hpoll]
  simp only [watched, hlog]
  simp only [noted, statusRead, afterReads, Bus.noting_read, Bus.afterReads]
  rcases bus.read d.map.status (bus.afterReads d.map.status k d.target) with ⟨⟨e⟩ | ⟨status⟩, s⟩ <;> rfl

theorem poll_watched_busy (hrunning : d.state = .running) (hbusy : d.BusyAt bus k) (log : List Access) :
    (d.watched bus k log).poll bus.noting = (.ok .busy, d.watched bus (k + 1) log) := by
  obtain ⟨status, hread, hsays⟩ := hbusy
  have hverdict : (d.watched bus (k + 1) log).map.verdict status = .ok .busy := hsays.verdict
  rw [poll_watched hrunning, hread]
  simp only [observe, hverdict]

theorem pollUntil_busy (hlimit : policy.Limits clock limit) (hrunning : d.state = .running) (hbusy : d.BusyFor bus k)
    (hwithin : ∀ m ∈ limit, k < m) (patience : Nat) (log : List Access) :
    (d.noted log).pollUntil bus.noting policy clock (k + patience) 0 =
      (d.watched bus k log).pollUntil bus.noting policy clock patience k := by
  -- On the polls that say busy: each comes before the limit, so the wait goes on with the next one.
  induction k generalizing patience with
  | zero =>
    rw [Nat.zero_add]
    rfl
  | succ k ih =>
    have hgoes : policy.givesUp (k + 1) (clock (k + 1)) = false := hlimit.goesOn (Nat.succ_pos k) hwithin
    rw [Nat.add_right_comm, Nat.add_assoc,
      ih (fun i hi => hbusy i (by omega)) (fun m hm => Nat.lt_of_succ_lt (hwithin m hm)), pollUntil,
      poll_watched_busy hrunning (hbusy k (Nat.lt_succ_self k))]
    simp only [hgoes]
    rfl

/-! ### Waits -/

theorem Decides.pollUntil (h : d.Decides bus limit k) (hlimit : policy.Limits clock limit)
    (hrunning : d.state = .running) {patience : Nat} (hpatience : k < patience) (log : List Access) :
    ∃ rest, (d.noted log).pollUntil bus.noting policy clock patience 0 =
      (d.watched bus k log).pollUntil bus.noting policy clock (rest + 1) k := by
  obtain ⟨rest, rfl⟩ := Nat.exists_eq_add_of_lt hpatience
  exact ⟨rest, pollUntil_busy hlimit hrunning h.busy h.within (rest + 1) log⟩

theorem Decides.wait_failed (h : d.Decides bus limit k) (hlimit : policy.Limits clock limit)
    (hrunning : d.state = .running) {patience : Nat} (hpatience : k < patience) {e : Error}
    (hpoll : (d.watched bus k log).poll bus.noting = (.error e, d.watched bus (k + 1) log)) :
    (d.noted log).wait bus.noting policy clock patience = some (.error e, d.watched bus (k + 1) log) := by
  obtain ⟨rest, hpolls⟩ := h.pollUntil hlimit hrunning hpatience log
  rw [Device.pollUntil, hpoll] at hpolls
  simp only [wait, hpolls]

/-- The device when its launch was seen complete by the last of so many reads. -/
def completed (bus : Bus σ) (d : Device σ) (n : Nat) : Device σ :=
  { d.afterReads bus n with state := .done, launches := d.launches + 1 }

theorem Decides.wait_done (h : d.Decides bus limit k) (hlimit : policy.Limits clock limit)
    (hrunning : d.state = .running) {patience : Nat} (hpatience : k < patience) {status : Word}
    (hread : d.statusRead bus k = .ok status) (hdone : d.map.SaysDone status) {log : List Access}
    {answer : Except Error Unit} {d' : Device (σ × List Access)}
    (hclear : ((d.completed bus (k + 1)).noted ((d.statusReads bus (k + 1)).reverse ++ log)).clear bus.noting =
      (answer, d')) :
    (d.noted log).wait bus.noting policy clock patience = some (answer.map fun _ => k + 1, d') := by
  have hobserve : (d.watched bus (k + 1) log).observe status =
      (.ok .done, (d.completed bus (k + 1)).noted ((d.statusReads bus (k + 1)).reverse ++ log)) := by
    have hverdict : (d.watched bus (k + 1) log).map.verdict status = .ok .done := hdone.verdict
    simp only [observe, hverdict]
    rfl
  obtain ⟨rest, hpolls⟩ := h.pollUntil hlimit hrunning hpatience log
  rw [Device.pollUntil, poll_watched hrunning, hread] at hpolls
  simp only [hobserve] at hpolls
  simp only [wait, hpolls, hclear]
  cases answer <;> rfl

theorem clear_unacknowledged (bus : Bus σ) (hdone : d.state = .done) (hclear : d.map.clear = none) :
    d.clear bus = (.ok (), { d with state := .idle }) := by
  simp only [clear, expect, hdone, hclear, if_true]

theorem clear_acknowledged (hdone : d.state = .done) {r : Word} (hclear : d.map.clear = some r) {s : σ}
    {answer : Except Error Unit} (hwrite : bus.write r 0 d.target = (answer, s)) (log : List Access) :
    (d.noted log).clear bus.noting = (answer,
      { d with target := s, state := answer.casesOn (fun _ => .done) fun _ => .idle }.noted
        (.write r 0 answer :: log)) := by
  simp only [clear, expect, noted, hdone, hclear, if_true, Bus.noting_write, hwrite]
  cases answer <;> rfl

theorem Awaited.wait (h : d.Awaited bus clock limit n ack answer d') (hlimit : policy.Limits clock limit)
    (hrunning : d.state = .running) {patience : Nat} (hpatience : n ≤ patience) (log : List Access) :
    (d.noted log).wait bus.noting policy clock patience =
      some (answer, d'.noted ((d.statusReads bus n ++ ack).reverse ++ log)) := by
  cases h with
  | timedOut hm hbusy =>
    -- The wait goes on after all polls but the last, which is the one at the limit.
    subst hm
    obtain ⟨k, rfl⟩ : ∃ k, n = k + 1 := Nat.exists_eq_succ_of_ne_zero (Nat.ne_of_gt hlimit.pos)
    obtain ⟨rest, rfl⟩ := Nat.exists_eq_add_of_le hpatience
    have hgives : policy.givesUp (k + 1) (clock (k + 1)) = true := hlimit.givesUp
    have hpolls := pollUntil_busy hlimit hrunning (fun i hi => hbusy i (Nat.lt_succ_of_lt hi))
      (fun m hm => Option.some.inj hm ▸ Nat.lt_succ_self k) (rest + 1) log
    rw [pollUntil, poll_watched_busy hrunning (hbusy k (Nat.lt_succ_self k))] at hpolls
    simp only [hgives] at hpolls
    rw [List.append_nil, Device.wait, Nat.add_assoc, Nat.add_comm 1 rest, hpolls]
    rfl
  | refused hdecides hread =>
    rw [hdecides.wait_failed hlimit hrunning hpatience (by rw [poll_watched hrunning, hread]), List.append_nil]
    rfl
  | @faulty k status hdecides hread herror =>
    have hverdict : (d.watched bus (k + 1) log).map.verdict status = _ := RegisterMap.verdict_of_error herror
    rw [hdecides.wait_failed hlimit hrunning hpatience
      (by rw [poll_watched hrunning, hread]; simp only [observe, hverdict]; rfl), List.append_nil]
    rfl
  | @released k status hdecides hread hdone hclear =>
    rw [hdecides.wait_done hlimit hrunning hpatience hread hdone (clear_unacknowledged bus.noting rfl hclear),
      List.append_nil]
    rfl
  | @cleared k status r s hdecides hread hdone hclear hwrite
  | @uncleared k status r e s hdecides hread hdone hclear hwrite =>
    rw [hdecides.wait_done hlimit hrunning hpatience hread hdone
      (clear_acknowledged (d := d.completed bus (k + 1)) rfl hclear hwrite _), List.reverse_append, List.append_assoc]
    rfl

theorem Decides.exists_awaited (h : d.Decides bus limit k) (hidle : ¬d.BusyAt bus k) (clock : Stopwatch) :
    ∃ n ack answer d', d.Awaited bus clock limit n ack answer d' := by
  cases hread : d.statusRead bus k with
  | error e => exact ⟨_, _, _, _, .refused h hread⟩
  | ok status =>
    rcases d.map.error_or_busy_or_done status with herror | hbusy | hdone
    · exact ⟨_, _, _, _, .faulty h hread herror⟩
    · exact absurd ⟨status, hread, hbusy⟩ hidle
    · cases hclear : d.map.clear with
      | none => exact ⟨_, _, _, _, .released h hread hdone hclear⟩
      | some r =>
        rcases hwrite : bus.write r 0 (d.afterReads bus (k + 1)).target with ⟨e | ⟨⟩, s⟩
        · exact ⟨_, _, _, _, .uncleared h hread hdone hclear hwrite⟩
        · exact ⟨_, _, _, _, .cleared h hread hdone hclear hwrite⟩

/-- A wait ends, unless it has no limit and the device stays busy. -/
theorem exists_awaited (bus : Bus σ) (d : Device σ) (clock : Stopwatch) (limit : Option Nat) :
    (∃ n ack answer d', d.Awaited bus clock limit n ack answer d') ∨ limit = none ∧ ∀ k, d.BusyFor bus k := by
  by_cases hbusy : ∀ i, d.BusyAt bus i
  · cases limit with
    | none => exact Or.inr ⟨rfl, fun k i _ => hbusy i⟩
    | some m => exact Or.inl ⟨_, _, _, _, .timedOut rfl fun i _ => hbusy i⟩
  · have hidle : ∃ i, ¬d.BusyAt bus i := Classical.not_forall.mp hbusy
    classical
    -- The first read that does not say busy decides the wait, unless the limit comes first.
    have hbefore : d.BusyFor bus (Nat.find hidle) := fun i hi => Classical.not_not.mp (Nat.find_min hidle hi)
    by_cases hwithin : ∀ m ∈ limit, Nat.find hidle < m
    · exact Or.inl (Decides.exists_awaited ⟨hbefore, hwithin⟩ (Nat.find_spec hidle) clock)
    · obtain ⟨m, hm, hreached⟩ : ∃ m, m ∈ limit ∧ m ≤ Nat.find hidle := by
        simpa only [Classical.not_forall, Nat.not_lt, exists_prop] using hwithin
      exact Or.inl ⟨_, _, _, _, .timedOut hm fun i hi => hbefore i (Nat.lt_of_lt_of_le hi hreached)⟩

theorem wait_endless (hlimit : policy.Limits clock none) (hrunning : d.state = .running)
    (hbusy : ∀ k, d.BusyFor bus k) (patience : Nat) (log : List Access) :
    (d.noted log).wait bus.noting policy clock patience = none := by
  have hpolls := pollUntil_busy hlimit hrunning (hbusy patience) nofun 0 log
  rw [Nat.add_zero, pollUntil] at hpolls
  rw [wait, hpolls]

/-! ### Waits one after another -/

/-- A wait that is made with a limit. -/
structure Attempt where
  policy : WaitPolicy
  clock : Stopwatch
  limit : Nat
  patience : Nat

/-- The limit is the policy's, and the wait is seen to its end. -/
structure Attempt.Fair (a : Attempt) : Prop where
  limits : a.policy.Limits a.clock (some a.limit)
  patient : a.limit ≤ a.patience

/-- Waits again and again. -/
def waitAll (bus : Bus σ) : List Attempt → Device σ → Option (List (Except Error Nat) × Device σ)
  | [], d => some ([], d)
  | a :: rest, d => (d.wait bus a.policy a.clock a.patience).bind fun r =>
      (waitAll bus rest r.2).map fun s => (r.1 :: s.1, s.2)

/-- The reads of waits that all come to their limit. -/
def reads (attempts : List Attempt) : Nat := (attempts.map (·.limit)).sum

/-- On a device that stays busy one wait after another times out, and each reads on where the last one stopped. -/
theorem waitAll_busy {attempts : List Attempt} (hfair : ∀ a ∈ attempts, a.Fair) (hrunning : d.state = .running)
    (hbusy : d.BusyFor bus (reads attempts)) (log : List Access) :
    waitAll bus.noting attempts (d.noted log) =
      some (attempts.map fun a => .error (.timeout a.limit (a.clock a.limit)), d.watched bus (reads attempts) log) := by
  -- On the waits, each of which begins at the read where the last one stopped.
  induction attempts generalizing d log with
  | nil => rfl
  | cons a rest ih =>
    obtain ⟨hlimits, hpatient⟩ := hfair a List.mem_cons_self
    have hreads : reads (a :: rest) = a.limit + reads rest := List.sum_cons
    rw [hreads] at hbusy ⊢
    obtain ⟨hfirst, hrest⟩ := busyFor_add.mp hbusy
    have hwait := (Awaited.timedOut rfl hfirst).wait hlimits hrunning hpatient log
    have hwaits := ih (fun b hb => hfair b (List.mem_cons_of_mem _ hb)) (d := d.afterReads bus a.limit) hrunning hrest
      ((d.statusReads bus a.limit ++ []).reverse ++ log)
    rw [waitAll, hwait, Option.bind_some, hwaits, watched_add, List.append_nil]
    rfl

theorem Decides.earlier (hbusy : d.BusyFor bus m) (h : (d.afterReads bus m).Decides bus limit k) :
    d.Decides bus (limit.map (m + ·)) (m + k) where
  busy := busyFor_add.mpr ⟨hbusy, h.busy⟩
  within := by
    intro l hl
    obtain ⟨l', hl', rfl⟩ := Option.map_eq_some_iff.mp hl
    exact Nat.add_lt_add_left (h.within l' hl') m

/-- One wait's answer is that of another that came so many reads later. -/
def Delayed (m : Nat) (late early : Except Error Nat) : Prop :=
  early = late.map (m + ·) ∨ ∃ n t t', late = .error (.timeout n t) ∧ early = .error (.timeout (m + n) t')

/-- A wait that begins while the device stays busy ends as one that begins later, with so many reads more. -/
theorem Awaited.earlier (hbusy : d.BusyFor bus m) (h : (d.afterReads bus m).Awaited bus clock limit n ack answer d')
    (clock' : Stopwatch) :
    ∃ answer', Delayed m answer answer' ∧ d.Awaited bus clock' (limit.map (m + ·)) (m + n) ack answer' d' := by
  have hafter : ∀ n, (d.afterReads bus m).afterReads bus n = d.afterReads bus (m + n) := fun n =>
    (afterReads_add bus d m n).symm
  cases h with
  | timedOut hlimit hlater =>
    refine ⟨_, Or.inr ⟨n, _, clock' (m + n), rfl, rfl⟩, ?_⟩
    rw [hafter]
    exact .timedOut (by rw [hlimit]; rfl) (busyFor_add.mpr ⟨hbusy, hlater⟩)
  | refused hdecides hread =>
    refine ⟨_, Or.inl rfl, ?_⟩
    rw [hafter]
    exact .refused (hdecides.earlier hbusy) (statusRead_add bus d m _ ▸ hread)
  | faulty hdecides hread herror =>
    refine ⟨_, Or.inl rfl, ?_⟩
    rw [hafter]
    exact .faulty (hdecides.earlier hbusy) (statusRead_add bus d m _ ▸ hread) herror
  | released hdecides hread hdone hclear =>
    refine ⟨_, Or.inl rfl, ?_⟩
    rw [hafter]
    exact .released (hdecides.earlier hbusy) (statusRead_add bus d m _ ▸ hread) hdone hclear
  | cleared hdecides hread hdone hclear hwrite =>
    rw [hafter] at hwrite
    exact ⟨_, Or.inl rfl, .cleared (hdecides.earlier hbusy) (statusRead_add bus d m _ ▸ hread) hdone hclear hwrite⟩
  | uncleared hdecides hread hdone hclear hwrite =>
    rw [hafter] at hwrite
    exact ⟨_, Or.inl rfl, .uncleared (hdecides.earlier hbusy) (statusRead_add bus d m _ ▸ hread) hdone hclear hwrite⟩

/-- What a wait of a running device does is told by the statuses that the bus will answer with, for any policy and any
    stopwatch. It reads until a read does not say busy, which decides it, or it comes to its limit, and without a limit it
    goes on as long as the device is busy. Waits that time out read on one after another, and a last wait then ends as one
    long wait would have, with the same reads in all. -/
theorem wait_reads_until_decided (bus : Bus σ) (hrunning : d.state = .running) (policy : WaitPolicy) (clock : Stopwatch) :
    (∃ limit, policy.Limits clock limit) ∧ ∀ limit, policy.Limits clock limit →
      (∀ n ack answer d', d.Awaited bus clock limit n ack answer d' → ∀ patience log, n ≤ patience →
        (d.noted log).wait bus.noting policy clock patience =
          some (answer, d'.noted ((d.statusReads bus n ++ ack).reverse ++ log))) ∧
      ((∃ n ack answer d', d.Awaited bus clock limit n ack answer d') ∨
        limit = none ∧ (∀ k, d.BusyFor bus k) ∧
          ∀ patience log, (d.noted log).wait bus.noting policy clock patience = none) ∧
      ∀ attempts : List Attempt, (∀ a ∈ attempts, a.Fair) → d.BusyFor bus (reads attempts) → ∀ log,
        waitAll bus.noting attempts (d.noted log) =
          some (attempts.map fun a => .error (.timeout a.limit (a.clock a.limit)),
            d.watched bus (reads attempts) log) ∧
        ∀ n ack answer d', (d.afterReads bus (reads attempts)).Awaited bus clock limit n ack answer d' →
          ∀ whole clock', whole.Limits clock' (limit.map (reads attempts + ·)) → ∀ patience, n ≤ patience →
          ∃ answer' last, Delayed (reads attempts) answer answer' ∧
            (d.watched bus (reads attempts) log).wait bus.noting policy clock patience = some (answer, last) ∧
            (d.noted log).wait bus.noting whole clock' (reads attempts + patience) = some (answer', last) ∧
            last = d'.noted ((d.statusReads bus (reads attempts + n) ++ ack).reverse ++ log) := by
  refine ⟨policy.exists_limits clock, fun limit hlimit =>
    ⟨fun n ack answer d' h patience log hpatience => h.wait hlimit hrunning hpatience log, ?_, ?_⟩⟩
  · rcases exists_awaited bus d clock limit with hends | ⟨rfl, hbusy⟩
    · exact Or.inl hends
    · exact Or.inr ⟨rfl, hbusy, fun patience log => wait_endless hlimit hrunning hbusy patience log⟩
  · intro attempts hfair hbusy log
    refine ⟨waitAll_busy hfair hrunning hbusy log, fun n ack answer d' h whole clock' hwhole patience hpatience => ?_⟩
    obtain ⟨answer', hdelayed, hearlier⟩ := h.earlier hbusy clock'
    refine ⟨answer', _, hdelayed, ?_, hearlier.wait hwhole hrunning (Nat.add_le_add_left hpatience _) log, rfl⟩
    rw [watched, h.wait hlimit hrunning hpatience, statusReads_add]
    simp only [List.reverse_append, List.append_assoc]

/-- A launch that is busy for three reads. A wait of two polls times out, one with a deadline at once reads on and times
    out, the next finds it complete, and one wait of five polls comes to the same. -/
theorem third_wait_reads_on :
    ∃ (d : Device Script.BusScript) (d₁ d₂ : Device (Script.BusScript × List Access)),
      d = ⟨.mac, .running, 0, ⟨[some 1, some 3, some 1], 0, []⟩⟩ ∧
      waitAll Script.bus.noting [⟨.polls 2, .still, 2, 9⟩, ⟨⟨none, some 0, 0⟩, fun n => 7 * n, 1, 9⟩] (d.noted []) =
        some ([.error (.timeout 2 0), .error (.timeout 1 7)], d₁) ∧
      d₁.wait Script.bus.noting (.polls 2) .still 9 = some (.ok 1, d₂) ∧
      (d.noted []).wait Script.bus.noting (.polls 5) .still 12 = some (.ok 4, d₂) ∧
      d₂.state = .idle ∧ d₂.launches = 1 ∧
      d₂.target.2 = [.write Chip.Mac.clear 0 (.ok ()), .read Chip.Mac.busy (.ok 0), .read Chip.Mac.busy (.ok 1),
        .read Chip.Mac.busy (.ok 3), .read Chip.Mac.busy (.ok 1)] := by
  let d : Device Script.BusScript := ⟨.mac, .running, 0, ⟨[some 1, some 3, some 1], 0, []⟩⟩
  have hlimits : ∀ m, 0 < m → (WaitPolicy.polls m).Limits .still (some m) := fun m hm => by
    have h : (WaitPolicy.polls m).Limits .still (some (max m 1)) := .polls fun deadline hd => by cases hd
    rwa [Nat.max_eq_left hm] at h
  have hbusy : d.BusyFor Script.bus 3 := fun i hi => by
    match i, hi with
    | 0, _ => exact ⟨1, rfl, by decide⟩
    | 1, _ => exact ⟨3, rfl, by decide⟩
    | 2, _ => exact ⟨1, rfl, by decide⟩
  have hdecides : (d.afterReads Script.bus 3).Decides Script.bus (some 2) 0 :=
    ⟨fun i hi => absurd hi (Nat.not_lt_zero i), fun m hm => Option.some.inj hm ▸ Nat.two_pos⟩
  obtain ⟨-, hwaits⟩ := wait_reads_until_decided (d := d) Script.bus rfl (.polls 2) .still
  obtain ⟨-, -, hchain⟩ := hwaits _ (hlimits 2 Nat.two_pos)
  obtain ⟨hwaits, hlast⟩ := hchain [⟨.polls 2, .still, 2, 9⟩, ⟨⟨none, some 0, 0⟩, fun n => 7 * n, 1, 9⟩]
    (List.forall_mem_cons.mpr ⟨⟨hlimits 2 Nat.two_pos, by decide⟩,
      List.forall_mem_singleton.mpr ⟨WaitPolicy.Limits.atOnce rfl, by decide⟩⟩) hbusy []
  have hdone : RegisterMap.mac.SaysDone 0 := by decide
  obtain ⟨answer', last, hdelayed, hthird, hwhole, rfl⟩ := hlast _ _ _ _
    (.cleared hdecides rfl hdone rfl rfl) (.polls 5) .still (hlimits 5 (by decide)) 9 (by decide)
  rcases hdelayed with rfl | ⟨n, t, t', hnot, -⟩
  · exact ⟨d, _, _, rfl, hwaits, hthird, hwhole, rfl, rfl, rfl⟩
  · cases hnot

end Device

end TileOffload
