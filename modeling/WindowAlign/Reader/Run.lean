import WindowAlign.Reader.Basic

/-!
# Running

A run repeats cycles at the pace of the sampling interval until it is told to
stop or has run as many cycles as it may. What remains of the interval after a
cycle is slept away in short slices, so that the run stops soon after it is told
to; a cycle that takes longer than the interval is followed by the next at once.
-/

namespace WindowAlign

/-- What a run needs of the world: the time, a way to wait, and whether it may go
on. -/
structure Clock (m : Type → Type) where
  now : m Int
  sleep : Int → m Unit
  running : m Bool

structure RunSummary where
  cycles : Nat
  failures : Nat
  deriving DecidableEq, Repr

namespace RunSummary

def zero : RunSummary :=
  ⟨0, 0⟩

def add (s : RunSummary) (failed : Bool) : RunSummary :=
  ⟨s.cycles + 1, s.failures + if failed then 1 else 0⟩

end RunSummary

namespace Run

variable {m : Type → Type} [Monad m]

/-- The longest time that is slept at once. -/
def slice : Int := 100

/-- Sleep for a span in slices, while the run may go on. -/
def sleepSliced (clock : Clock m) (left : Int) : m Unit :=
  if _h : 0 < left then do
    if ← clock.running then
      clock.sleep (min left slice)
      sleepSliced clock (left - min left slice)
  else pure ()
termination_by left.toNat
decreasing_by
  have : slice = 100 := rfl
  rw [Int.min_def]
  split <;> omega

/-- Whether a run has had as many cycles as it may. -/
def isDone (limit : Option Nat) (cycles : Nat) : Bool :=
  limit.any (· ≤ cycles)

/-- Repeat a cycle until the run is told to stop or has had as many as it may. The
first argument bounds the number of cycles; the cycle answers whether it failed. -/
def loop (clock : Clock m) (cadence : Int) (limit : Option Nat) (cycle : Int → m Bool) :
    Nat → RunSummary → m RunSummary
  | 0, summary => pure summary
  | n + 1, summary => do
    if ← clock.running then
      let started ← clock.now
      let failed ← cycle started
      let summary := summary.add failed
      if isDone limit summary.cycles then return summary
      let now ← clock.now
      sleepSliced clock (cadence - (now - started))
      loop clock cadence limit cycle n summary
    else return summary

end Run

/-- A clock that is moved by hand: every look at it advances it by a tick, and
sleeping advances it by the time that is slept. -/
structure ManualClock where
  time : Int
  tick : Int
  running : Bool
  /-- After this many sleeps the run is told to stop. -/
  stopAfter : Option Nat
  sleeps : Nat
  lastSleep : Option Int
  deriving DecidableEq, Repr

namespace ManualClock

def start (time tick : Int) (running : Bool) (stopAfter : Option Nat) : ManualClock :=
  ⟨time, tick, running, stopAfter, 0, none⟩

def afterLook (c : ManualClock) : ManualClock :=
  { c with time := c.time + c.tick }

def afterSleep (c : ManualClock) (span : Int) : ManualClock :=
  let sleeps := c.sleeps + 1
  { c with
    time := c.time + span
    sleeps
    lastSleep := some span
    running := c.running && !c.stopAfter.any (· ≤ sleeps) }

variable {ρ : Type}

def clock : Clock (StateM (ManualClock × ρ)) where
  now := modifyGet fun (c, s) => (c.time, (c.afterLook, s))
  sleep span := modify fun (c, s) => (c.afterSleep span, s)
  running := return (← get).1.running

end ManualClock

namespace Session

variable {σ : Type}

/-- A step of a session in the state of a run; whether it failed. -/
def stepFailed (port : SinkPort σ) (source : Source) (now : Int) :
    StateM (ManualClock × Session σ) Bool :=
  modifyGet fun (c, s) =>
    let (report, s) := s.step port source now
    (report.isNone, (c, s))

def runManually (port : SinkPort σ) (source : Source) (limit : Option Nat) (fuel : Nat)
    (c : ManualClock) (s : Session σ) : RunSummary × ManualClock × Session σ :=
  Run.loop ManualClock.clock s.reader.settings.interval limit (stepFailed port source) fuel .zero
    (c, s)

end Session

end WindowAlign
