import TileOffload.Size

/-! # Wait policies

How long to wait for a device: a bound on the polls, a deadline, both or none. A wait always makes one
poll before it gives up. Time is read from a stopwatch that tells, for each poll of a wait, the
milliseconds that have passed. -/

namespace TileOffload

/-- The milliseconds that have passed at each poll of a wait. -/
abbrev Stopwatch := Nat → Nat

/-- The stopwatch of a device that answers at once. -/
def Stopwatch.still : Stopwatch := fun _ => 0

/-- When to stop waiting; a deadline is in milliseconds. -/
structure WaitPolicy where
  maxPolls : Option Nat
  deadline : Option Nat
  /-- Polls between two chances for other threads to run; it decides no result. -/
  yieldInterval : Word
deriving DecidableEq, Repr

namespace WaitPolicy

def defaultMaxPolls : Nat := 10000000
def defaultDeadline : Nat := 5000
def defaultYieldInterval : Word := 1024

/-- Wait without limit. -/
def unbounded : WaitPolicy := ⟨none, none, defaultYieldInterval⟩

/-- Wait for a number of polls, however long they take. -/
def polls (n : Nat) : WaitPolicy := ⟨some n, none, defaultYieldInterval⟩

/-- A bound on polls and a deadline, both far beyond a healthy device. -/
def standard : WaitPolicy := ⟨some defaultMaxPolls, some defaultDeadline, defaultYieldInterval⟩

/-- Whether nothing ever ends the wait but the device. -/
def isUnbounded (p : WaitPolicy) : Bool := p.maxPolls.isNone && p.deadline.isNone

/-- Whether to give up after so many polls and milliseconds. -/
def givesUp (p : WaitPolicy) (polls elapsed : Nat) : Bool :=
  p.maxPolls.any (· ≤ polls) || p.deadline.any (· ≤ elapsed)

end WaitPolicy

end TileOffload
