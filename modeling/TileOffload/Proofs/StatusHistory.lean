import TileOffload.Proofs.StartEffect
import TileOffload.Proofs.Traffic

/-! # Status and restart

After a start an accelerator counts its busy polls down, and it takes no other start before it has been cleared or has
said that it is idle, whichever its kind asks for. Main statement: over any accesses, what a status read answers and
whether a start is taken follows from the accepted starts, the clears and the status reads alone, and of these from what
came after the last accepted start. -/

namespace TileOffload

/-- An access that is asked for. -/
inductive BusRequest
  | read (register : Word)
  | write (register value : Word)
deriving DecidableEq, Repr

namespace Bus

variable {σ : Type}

/-- Makes the access, whatever it answers. -/
def serve (bus : Bus σ) (s : σ) : BusRequest → σ
  | .read r => (bus.read r s).2
  | .write r value => (bus.write r value s).2

/-- Makes accesses one after another. -/
def serveAll (bus : Bus σ) (requests : List BusRequest) (s : σ) : σ := requests.foldl bus.serve s

end Bus

/-- What an access means for the starts of a device. -/
inductive Mark
  | started
  | cleared
  | looked (status : Word)
deriving DecidableEq, Repr

/-- The mark that an access leaves: a start that was accepted, a completion that was acknowledged, the status that was
    read. A refused access leaves none, and neither does an access to another register. -/
def Access.mark? (map : RegisterMap) : Access → Option Mark
  | .read r (.ok status) => if r = map.status then some (.looked status) else none
  | .read _ (.error _) => none
  | .write r _ (.ok _) => if r = map.start then some .started else if map.clear = some r then some .cleared else none
  | .write _ _ (.error _) => none

namespace Mark

/-- The marks that accesses leave, in the same order. -/
def history (map : RegisterMap) (log : List Access) : List Mark := log.filterMap (·.mark? map)

/-- Of a history with the latest first, what came after the last accepted start. -/
def since (marks : List Mark) : List Mark := marks.takeWhile (· != started)

/-- The mark is of a status read. -/
def isLook : Mark → Bool
  | looked _ => true
  | _ => false

/-- The status reads after the last accepted start. -/
def looks (marks : List Mark) : Nat := (since marks).countP isLook

/-- What lets an accelerator take a start after the last one: a clear, or that it has been seen idle. -/
def Released (p : Personality) (marks : List Mark) : Prop :=
  match p with
  | .mac => cleared ∈ since marks
  | .alu => looked 0 ∈ since marks

/-- The status that is due: busy for as many reads as the accelerator's latency after an accepted start, or forever if
    it is stuck, unless a clear has ended that. -/
def due (p : Personality) (latency : Nat) (stuck : Bool) (marks : List Mark) : Word :=
  if started ∉ marks ∨ (p = .mac ∧ cleared ∈ since marks) then 0
  else if stuck = true ∨ looks marks < latency then p.map.busyMask
  else 0

instance (p : Personality) (marks : List Mark) : Decidable (Released p marks) :=
  match p with
  | .mac => inferInstanceAs (Decidable (cleared ∈ since marks))
  | .alu => inferInstanceAs (Decidable (looked 0 ∈ since marks))

variable {marks : List Mark} {status : Word}

theorem history_cons (map : RegisterMap) (x : Access) (log : List Access) :
    history map (x :: log) = (x.mark? map).toList ++ history map log := by
  unfold history
  cases hx : x.mark? map <;> simp [hx]

@[simp] theorem since_started : since (started :: marks) = [] := rfl

@[simp] theorem since_cleared : since (cleared :: marks) = cleared :: since marks := rfl

@[simp] theorem since_looked : since (looked status :: marks) = looked status :: since marks := rfl

@[simp] theorem looks_looked : looks (looked status :: marks) = looks marks + 1 := by
  rw [looks, since_looked, List.countP_cons_of_pos rfl]
  rfl

end Mark

namespace Accelerator

open Mark

variable {a a' : Accelerator} {m : Memory} {p : Personality} {latency : Nat} {stuck : Bool} {marks : List Mark}

/-- What an access with or without a mark can do to an accelerator. -/
inductive Stepped (a : Accelerator) : Option Mark → Accelerator → Prop
  | started (hidle : a.running = false) (len : Nat) : Stepped a (some .started) (a.started len)
  | cleared (hmac : a.personality = .mac) : Stepped a (some .cleared) { a with running := false }
  | looked : Stepped a (some (.looked a.status.1)) a.status.2
  | unmarked (registers : RegisterFile) : Stepped a none { a with registers }

/-- What is known of an accelerator from its history. The busy polls that are left are known only while it runs: a clear
    leaves them where they are, and the next start counts from the latency again. -/
structure Tracks (p : Personality) (latency : Nat) (stuck : Bool) (marks : List Mark) (a : Accelerator) : Prop where
  personality_eq : a.personality = p
  latency_eq : a.latency = latency
  stuck_eq : a.stuck = stuck
  running_iff : a.running = true ↔ .started ∈ marks ∧ ¬Released p marks
  busyLeft_eq : a.running = true → stuck = false → a.busyLeft = latency - looks marks
  finished : p = .alu → .started ∈ marks → .looked 0 ∈ since marks → stuck = false ∧ latency ≤ looks marks

/-! ### One access -/

theorem status_of_idle (h : a.running = false) : a.status = (0, a) := by simp [status, h]

theorem status_of_stuck (h : a.running = true) (hs : a.stuck = true) : a.status = (a.map.busyMask, a) := by
  simp [status, h, hs]

theorem busyMask_ne_zero (a : Accelerator) : a.map.busyMask ≠ 0 := by
  unfold map
  cases a.personality <;> decide

theorem serve_read (a : Accelerator) (m : Memory) (log : List Access) (r : Word) :
    ∃ a' x, bus.noting.serve ((a, m), log) (.read r) = ((a', m), x :: log) ∧ Stepped a (x.mark? a.map) a' := by
  by_cases hr : r = a.map.status
  · refine ⟨a.status.2, .read r (.ok a.status.1), ?_, ?_⟩
    · simp only [Bus.serve, Bus.noting_read, bus, read, if_pos hr]
    · simp only [Access.mark?, if_pos hr]
      exact .looked
  · obtain ⟨value, hread⟩ : ∃ value, a.read r = (value, a) := by
      unfold read
      rw [if_neg hr]
      split <;> exact ⟨_, rfl⟩
    refine ⟨a, .read r (.ok value), ?_, ?_⟩
    · simp only [Bus.serve, Bus.noting_read, bus, hread]
    · simp only [Access.mark?, if_neg hr]
      exact .unmarked a.registers

theorem mac_of_clear {r : Word} (h : a.map.clear = some r) : a.personality = .mac := by
  unfold map at h
  cases hp : a.personality with
  | mac => rfl
  | alu => rw [hp] at h; cases h

/-- A write that is accepted. -/
theorem stepped_write (hd : m.Disjoint) {r value : Word} {s : Accelerator × Memory} (h : a.write m r value = .ok s) :
    Stepped a ((Access.write r value (.ok ())).mark? a.map) s.1 ∧ s.2.spans = m.spans := by
  unfold write at h
  rw [Access.mark?]
  split at h
  · rename_i hstart
    obtain ⟨q, -, hidle, -, -, hstarted, hdone⟩ := start_carries_out hd h
    rw [if_pos hstart, hstarted]
    exact ⟨.started hidle q.len, hdone.spans⟩
  · rename_i hstart
    rw [if_neg hstart]
    unfold configure at h
    split at h
    · rename_i hclear
      cases h
      rw [if_pos hclear]
      exact ⟨.cleared (mac_of_clear hclear), rfl⟩
    · rename_i hclear
      rw [if_neg hclear]
      split at h
      · cases h
      · cases h
        exact ⟨.unmarked _, rfl⟩

theorem serve_write (hd : m.Disjoint) (a : Accelerator) (log : List Access) (r value : Word) :
    ∃ a' m' x, bus.noting.serve ((a, m), log) (.write r value) = ((a', m'), x :: log) ∧
      Stepped a (x.mark? a.map) a' ∧ m'.spans = m.spans := by
  simp only [Bus.serve, Bus.noting_write]
  cases h : a.write m r value with
  | error e =>
    simp only [bus, h]
    exact ⟨a, m, _, rfl, .unmarked a.registers, rfl⟩
  | ok s =>
    simp only [bus, h]
    obtain ⟨hstep, hspans⟩ := stepped_write hd h
    exact ⟨s.1, s.2, _, rfl, hstep, hspans⟩

theorem stepped_serve (hd : m.Disjoint) (a : Accelerator) (log : List Access) (q : BusRequest) :
    ∃ a' m' x, bus.noting.serve ((a, m), log) q = ((a', m'), x :: log) ∧ Stepped a (x.mark? a.map) a' ∧
      m'.spans = m.spans := by
  cases q with
  | read r =>
    obtain ⟨a', x, hserve, hstep⟩ := serve_read a m log r
    exact ⟨a', m, x, hserve, hstep, rfl⟩
  | write r value => exact serve_write hd a log r value

/-! ### The history -/

namespace Tracks

theorem fresh (p : Personality) (latency : Nat) (stuck : Bool) :
    Tracks p latency stuck [] (fresh p latency stuck) where
  personality_eq := rfl
  latency_eq := rfl
  stuck_eq := rfl
  running_iff := by simp [Accelerator.fresh]
  busyLeft_eq h := by cases h
  finished _ h := by cases h

theorem started (h : Tracks p latency stuck marks a) (len : Nat) :
    Tracks p latency stuck (.started :: marks) (a.started len) where
  personality_eq := h.personality_eq
  latency_eq := h.latency_eq
  stuck_eq := h.stuck_eq
  running_iff := by cases p <;> simp [Accelerator.started, Released]
  busyLeft_eq _ _ := h.latency_eq
  finished _ _ hlook := by cases hlook

theorem cleared (h : Tracks .mac latency stuck marks a) :
    Tracks .mac latency stuck (.cleared :: marks) { a with running := false } where
  personality_eq := h.personality_eq
  latency_eq := h.latency_eq
  stuck_eq := h.stuck_eq
  running_iff := by simp [Released]
  busyLeft_eq hrun := by cases hrun
  finished hp := by cases hp

theorem idle_iff (h : Tracks p latency stuck marks a) :
    a.running = false ↔ (.started ∈ marks → Released p marks) := by
  rw [← Bool.not_eq_true, h.running_iff, not_and, Decidable.not_not]

/-- A status read of an accelerator that does not run says so and changes nothing. -/
theorem looked_idle (h : Tracks p latency stuck marks a) (hidle : a.running = false) :
    Tracks p latency stuck (.looked 0 :: marks) a where
  personality_eq := h.personality_eq
  latency_eq := h.latency_eq
  stuck_eq := h.stuck_eq
  running_iff := by
    have hiff := h.running_iff
    cases p <;> simp_all [Released]
  busyLeft_eq hrun := by rw [hidle] at hrun; cases hrun
  finished hp hstarted _ := by
    have hstarted : .started ∈ marks := by simpa using hstarted
    have hreleased := h.idle_iff.mp hidle hstarted
    subst hp
    obtain ⟨hs, hle⟩ := h.finished rfl hstarted hreleased
    exact ⟨hs, by rw [looks_looked]; omega⟩

/-- A status read of a running accelerator that says busy may count down, and says nothing else. -/
theorem looked_busy (h : Tracks p latency stuck marks a) (hrun : a.running = true) {left : Nat}
    (hleft : stuck = false → left = latency - (looks marks + 1)) :
    Tracks p latency stuck (.looked a.map.busyMask :: marks) { a with busyLeft := left } where
  personality_eq := h.personality_eq
  latency_eq := h.latency_eq
  stuck_eq := h.stuck_eq
  running_iff := by
    have hiff := h.running_iff
    have hmask := busyMask_ne_zero a
    cases p <;> simp_all [Released, hmask.symm]
  busyLeft_eq _ hs := by rw [hleft hs, looks_looked]
  finished hp hstarted hlook := by
    have hmask := busyMask_ne_zero a
    have hlook : .looked 0 ∈ since marks := by simpa [hmask.symm] using hlook
    subst hp
    exact absurd hlook (h.running_iff.mp hrun).2

/-- After the busy polls only a clear frees the multiply-accumulate unit, and the first read the arithmetic unit. -/
theorem looked_done (h : Tracks p latency stuck marks a) (hrun : a.running = true) (hs : stuck = false)
    (hdone : a.busyLeft = 0) :
    Tracks p latency stuck (.looked 0 :: marks) { a with running := a.map.clear.isSome } where
  personality_eq := h.personality_eq
  latency_eq := h.latency_eq
  stuck_eq := h.stuck_eq
  running_iff := by
    obtain ⟨hstarted, hnot⟩ := h.running_iff.mp hrun
    have hp := h.personality_eq
    cases p with
    | mac =>
      have hclear : a.map.clear.isSome = true := by rw [map, hp]; rfl
      simp_all [Released]
    | alu =>
      have hclear : a.map.clear.isSome = false := by rw [map, hp]; rfl
      simp_all [Released]
  busyLeft_eq _ _ := by
    have hleft := h.busyLeft_eq hrun hs
    rw [looks_looked]
    exact hdone.trans (by omega)
  finished _ _ _ := by
    have hleft := h.busyLeft_eq hrun hs
    rw [looks_looked]
    exact ⟨hs, by omega⟩

theorem looked (h : Tracks p latency stuck marks a) :
    Tracks p latency stuck (.looked a.status.1 :: marks) a.status.2 := by
  cases hrun : a.running with
  | false =>
    rw [status_of_idle hrun]
    exact h.looked_idle hrun
  | true =>
    cases hs : a.stuck with
    | true =>
      rw [status_of_stuck hrun hs]
      exact h.looked_busy hrun fun hfree => by rw [← h.stuck_eq, hs] at hfree; cases hfree
    | false =>
      have hfree : stuck = false := h.stuck_eq ▸ hs
      rcases Nat.eq_zero_or_pos a.busyLeft with hb | hb
      · rw [status_started hrun hs, if_neg (Nat.not_lt.mpr (Nat.le_of_eq hb))]
        exact h.looked_done hrun hfree hb
      · rw [status_started hrun hs, if_pos hb]
        have hleft := h.busyLeft_eq hrun hfree
        exact h.looked_busy hrun fun _ => by omega

theorem unmarked (h : Tracks p latency stuck marks a) (registers : RegisterFile) :
    Tracks p latency stuck marks { a with registers } :=
  ⟨h.personality_eq, h.latency_eq, h.stuck_eq, h.running_iff, h.busyLeft_eq, h.finished⟩

theorem step (h : Tracks p latency stuck marks a) {x : Option Mark} (hx : Stepped a x a') :
    Tracks p latency stuck (x.toList ++ marks) a' := by
  cases hx with
  | started hidle len => exact h.started len
  | cleared hmac =>
    obtain rfl : Personality.mac = p := hmac.symm.trans h.personality_eq
    exact h.cleared
  | looked => exact h.looked
  | unmarked registers => exact h.unmarked registers

theorem map_eq (h : Tracks p latency stuck marks a) : a.map = p.map := congrArg Personality.map h.personality_eq

theorem serveAll (hd : m.Disjoint) (requests : List BusRequest) {log : List Access}
    (h : Tracks p latency stuck (history p.map log) a) :
    ∃ a' m' log', bus.noting.serveAll requests ((a, m), log) = ((a', m'), log') ∧
      Tracks p latency stuck (history p.map log') a' ∧ m'.spans = m.spans := by
  induction requests generalizing a m log with
  | nil => exact ⟨a, m, log, rfl, h, rfl⟩
  | cons q requests ih =>
    obtain ⟨a₁, m₁, x, hserve, hstep, hspans⟩ := stepped_serve hd a log q
    have htracks : Tracks p latency stuck (history p.map (x :: log)) a₁ := by
      rw [history_cons, ← h.map_eq]
      rw [← h.map_eq] at h
      exact h.step hstep
    obtain ⟨a', m', log', hall, htracks', hspans'⟩ := ih (hd.congr hspans) htracks
    exact ⟨a', m', log', by rw [Bus.serveAll, List.foldl_cons, hserve]; exact hall, htracks', hspans'.trans hspans⟩

theorem status_eq_due (h : Tracks p latency stuck marks a) : a.status.1 = due p latency stuck marks := by
  cases hrun : a.running with
  | false =>
    rw [status_of_idle hrun, due]
    by_cases hstarted : .started ∈ marks
    · have hreleased := h.idle_iff.mp hrun hstarted
      cases p with
      | mac => rw [if_pos (Or.inr ⟨rfl, hreleased⟩)]
      | alu =>
        obtain ⟨hfree, hle⟩ := h.finished rfl hstarted hreleased
        rw [if_neg (by simp [hstarted]), if_neg (by simp [hfree, hle])]
    · rw [if_pos (Or.inl hstarted)]
  | true =>
    obtain ⟨hstarted, hnot⟩ := h.running_iff.mp hrun
    have huncleared : ¬(.started ∉ marks ∨ (p = .mac ∧ .cleared ∈ since marks)) := by
      rintro (hnever | ⟨rfl, hcleared⟩)
      · exact hnever hstarted
      · exact hnot hcleared
    rw [due, if_neg huncleared]
    cases hs : stuck with
    | true => rw [status_of_stuck hrun (h.stuck_eq.trans hs), if_pos (Or.inl rfl), h.map_eq]
    | false =>
      have hleft := h.busyLeft_eq hrun hs
      have hfree := h.stuck_eq.trans hs
      rw [status_started hrun hfree]
      by_cases hb : 0 < a.busyLeft
      · rw [if_pos hb, if_pos (Or.inr (by omega)), h.map_eq]
      · rw [if_neg hb, if_neg (by simp; omega)]

end Tracks

/-- An accelerator that has never been started, over any memory whose banks share no byte, and any accesses to it. The
    status that is read next is the one that the history of the starts, the clears and the status reads makes due. A
    write to the start register is accepted next when the last accepted start, if there was one, has been released, and
    the registers describe a pass over words in the TCDM that are mapped. -/
theorem status_and_restart_follow_history (hd : m.Disjoint) (p : Personality) (latency : Nat) (stuck : Bool)
    (requests : List BusRequest) {m' : Memory} {log : List Access}
    (h : bus.noting.serveAll requests ((fresh p latency stuck, m), []) = ((a, m'), log)) :
    (bus.read p.map.status (a, m')).1 = .ok (due p latency stuck (history p.map log)) ∧
      ∀ value, (bus.write p.map.start value (a, m')).1 = .ok () ↔
        (.started ∈ history p.map log → Released p (history p.map log)) ∧
          ∃ q, a.Configured q ∧ q.InTcdm ∧ q.Mapped m := by
  have hfresh : Tracks p latency stuck (history p.map []) (fresh p latency stuck) := Tracks.fresh p latency stuck
  obtain ⟨a₁, m₁, log₁, hall, htracks, hspans⟩ := hfresh.serveAll hd requests
  rw [h] at hall
  cases hall
  constructor
  · have hread : a.read p.map.status = a.status := if_pos (congrArg RegisterMap.status htracks.map_eq.symm)
    simp only [bus, hread, htracks.status_eq_due]
  · intro value
    have hstart := bus_start_eq_ok_iff (hd.congr hspans) a value
    rw [htracks.map_eq, htracks.idle_iff] at hstart
    simp only [hstart, Pass.mapped_congr hspans]

/-- One element is squared and the status is looked at twice; a start that comes too early and a write to the status
    are refused in between. Then come other accesses. -/
def squaring (more : List BusRequest) : (Accelerator × Memory) × List Access :=
  bus.noting.serveAll ([.write Chip.Mac.pointerA Chip.tcdmBase, .write Chip.Mac.pointerB Chip.tcdmBase,
      .write Chip.Mac.pointerO Chip.tcdmBase, .write Chip.Mac.iterations 1, .write Chip.Mac.vectorLength 1,
      .write Chip.Mac.mode Chip.Mac.simpleMultiply, .write Chip.Mac.start 0, .read Chip.Mac.busy,
      .write Chip.Mac.start 0, .write Chip.Mac.busy 3, .read Chip.Mac.busy] ++ more)
    ((fresh .mac 1 false, ⟨[⟨"tcdm", Chip.tcdmBase, Bytes.zeros 16⟩]⟩), [])

/-- The unit says busy once, as its latency is, and idle from then on. It takes the next start only after a clear. -/
theorem squaring_takes_next_start_after_clear :
    (history .mac (squaring []).2 = [.looked 0, .looked Chip.Mac.busyMask, .started] ∧
      (bus.read Chip.Mac.busy (squaring []).1).1 = .ok 0 ∧ (bus.write Chip.Mac.start 0 (squaring []).1).1 ≠ .ok ()) ∧
    (bus.write Chip.Mac.start 0 (squaring [.write Chip.Mac.clear 0]).1).1 = .ok () := by
  have hd : Memory.Disjoint ⟨[⟨"tcdm", Chip.tcdmBase, Bytes.zeros 16⟩]⟩ := List.pairwise_singleton _ _
  constructor
  · have hhistory : history .mac (squaring []).2 = [.looked 0, .looked Chip.Mac.busyMask, .started] := by
      decide +kernel
    rcases h : squaring [] with ⟨⟨a, m⟩, log⟩
    rw [h] at hhistory
    obtain ⟨hstatus, hstart⟩ := status_and_restart_follow_history hd .mac 1 false _ h
    change _ = Except.ok (due .mac 1 false (history .mac log)) at hstatus
    have hheld : ¬(.started ∈ history .mac log → Released .mac (history .mac log)) := by
      rw [hhistory]
      decide
    refine ⟨hhistory, hstatus.trans ?_, fun hok => hheld ((hstart 0).mp hok).1⟩
    rw [hhistory]
    rfl
  · have hhistory : history .mac (squaring [.write Chip.Mac.clear 0]).2 =
        [.cleared, .looked 0, .looked Chip.Mac.busyMask, .started] := by decide +kernel
    have hunit : (squaring [.write Chip.Mac.clear 0]).1.1.personality = .mac ∧
        [Chip.Mac.pointerA, Chip.Mac.pointerB, Chip.Mac.pointerO, Chip.Mac.iterations, Chip.Mac.vectorLength,
          Chip.Mac.mode].map (squaring [.write Chip.Mac.clear 0]).1.1.register =
            [Chip.tcdmBase, Chip.tcdmBase, Chip.tcdmBase, 1, 1, Chip.Mac.simpleMultiply] := by decide +kernel
    rcases h : squaring [.write Chip.Mac.clear 0] with ⟨⟨a, m⟩, log⟩
    rw [h] at hhistory hunit
    simp only [List.map, List.cons.injEq] at hunit
    obtain ⟨hmac, ha, hb, ho, honce, hlen, hmode, -⟩ := hunit
    obtain ⟨-, hstart⟩ := status_and_restart_follow_history hd .mac 1 false _ h
    have hreleased : Released .mac (history .mac log) := by
      rw [hhistory]
      decide
    refine (hstart 0).mpr ⟨fun _ => hreleased, _, .mac hmac hmode honce, ?_, ?_⟩
    · have hin : 4 ∣ Chip.tcdmBase.toNat ∧ Chip.inTcdm Chip.tcdmBase (UInt32.toNat 1 * Chip.elementBytes) = true :=
        ⟨by decide, by decide⟩
      simp only [Pass.InTcdm, List.forall_mem_cons, ha, hb, ho, hlen]
      exact ⟨hin, hin, hin, List.forall_mem_nil _⟩
    · have hmapped : Memory.maps ⟨[⟨"tcdm", Chip.tcdmBase, Bytes.zeros 16⟩]⟩ Chip.tcdmBase
          (UInt32.toNat 1 * Bytes.perWord) = true := by decide +kernel
      simp only [Pass.Mapped, List.forall_mem_cons, ha, hb, ho, hlen]
      exact ⟨hmapped, hmapped, hmapped, List.forall_mem_nil _⟩

end Accelerator

end TileOffload
