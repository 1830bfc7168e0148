import WindowAlign.Proofs.Reader.Loop

/-!
# What a run does, call by call

A run asks whether it may go on, looks at the clock, has a cycle, or sleeps. `Run.trace` lists these
calls in their order, each with the state in which it began: it is the same loop under a clock, and
with cycles, that keep the list, and leaving the list out gives the run back (`loop_eq_traced`).
`Turns` says what such a list can look like, turn by turn, with what is slept between two turns as
`Naps`; what is true of every run is read off from it by induction (`turns_trace`).
-/

namespace WindowAlign

namespace Run

inductive Call where
  /-- Whether the run may go on, and the answer. -/
  | asked (goes : Bool)
  | looked (shown : Int)
  | worked (started : Int)
  | slept (span : Int)
  deriving DecidableEq, Repr

namespace Call

def isCycle : Call → Bool
  | worked _ => true
  | _ => false

/-- Whether the call takes time by design: a cycle or a sleep. -/
def takesTime : Call → Bool
  | worked _ | slept _ => true
  | _ => false

def shown? : Call → Option Int
  | looked t => some t
  | _ => none

/-- The time for which the call asks to sleep. -/
def span : Call → Int
  | slept t => t
  | _ => 0

/-- The time for which calls ask to sleep, together. -/
def slumber : List Call → Int
  | [] => 0
  | c :: cs => c.span + slumber cs

theorem slumber_append (cs ds : List Call) : slumber (cs ++ ds) = slumber cs + slumber ds := by
  induction cs with
  | nil => simp [slumber]
  | cons c cs ih =>
    rw [List.cons_append, slumber, slumber, ih]
    omega

end Call

/-- A call of a run with the state in which it began. -/
structure Moment (ρ : Type) where
  state : ρ
  call : Call

variable {ρ : Type}

def calls (ms : List (Moment ρ)) : List Call :=
  ms.map (·.call)

theorem calls_append (ms ns : List (Moment ρ)) : calls (ms ++ ns) = calls ms ++ calls ns :=
  List.map_append

/-- A clock that keeps the calls which are made to it. -/
def tracedClock (clock : Clock (StateM ρ)) : Clock (StateM (ρ × List (Moment ρ))) where
  now x := ((clock.now x.1).1, ((clock.now x.1).2, x.2 ++ [⟨x.1, .looked (clock.now x.1).1⟩]))
  sleep span x := ((), ((clock.sleep span x.1).2, x.2 ++ [⟨x.1, .slept span⟩]))
  running x :=
    ((clock.running x.1).1, ((clock.running x.1).2, x.2 ++ [⟨x.1, .asked (clock.running x.1).1⟩]))

def tracedCycle (cycle : Int → StateM ρ Bool) (now : Int) :
    StateM (ρ × List (Moment ρ)) Bool := fun x =>
  ((cycle now x.1).1, ((cycle now x.1).2, x.2 ++ [⟨x.1, .worked now⟩]))

section Trace

variable (clock : Clock (StateM ρ)) (cadence : Int) (cycle : Int → StateM ρ Bool)

def tracedLoop (limit : Option Nat) (n : Nat) (summary : RunSummary) (r : ρ) :
    RunSummary × ρ × List (Moment ρ) :=
  loop (tracedClock clock) cadence limit (tracedCycle cycle) n summary (r, [])

/-- The calls of a run, in order. -/
def trace (limit : Option Nat) (n : Nat) (summary : RunSummary) (r : ρ) : List (Moment ρ) :=
  (tracedLoop clock cadence cycle limit n summary r).2.2

end Trace

/-! ## Turns -/

section Turns

variable (clock : Clock (StateM ρ)) (cadence : Int) (cycle : Int → StateM ρ Bool)

/-- The state in which a turn looks at the clock. -/
def asked (r : ρ) : ρ :=
  (clock.running r).2

def started (r : ρ) : Int :=
  (clock.now (asked clock r)).1

def begun (r : ρ) : ρ :=
  (clock.now (asked clock r)).2

def done (r : ρ) : ρ :=
  (cycle (started clock r) (begun clock r)).2

/-- What the clock shows after the cycle. -/
def ended (r : ρ) : Int :=
  (clock.now (done clock cycle r)).1

def paused (r : ρ) : ρ :=
  (clock.now (done clock cycle r)).2

/-- What is left of the cadence after a cycle. -/
def left (r : ρ) : Int :=
  cadence - (ended clock cycle r - started clock r)

/-- The calls of a turn up to its cycle. -/
def turn (r : ρ) : List (Moment ρ) :=
  [⟨r, .asked true⟩, ⟨asked clock r, .looked (started clock r)⟩,
    ⟨begun clock r, .worked (started clock r)⟩]

/-- The calls by which a run sleeps for a span, from one state to another. -/
inductive Naps : Int → ρ → List (Moment ρ) → ρ → Prop where
  /-- Nothing is left to sleep. -/
  | rested {span : Int} {r : ρ} (h : ¬ 0 < span) : Naps span r [] r
  /-- The run is told to stop. -/
  | told {span : Int} {r : ρ} (h : 0 < span) (hstop : (clock.running r).1 = false) :
      Naps span r [⟨r, .asked false⟩] (asked clock r)
  | slice {span : Int} {r r' : ρ} {ms : List (Moment ρ)} (h : 0 < span)
      (hgoes : (clock.running r).1 = true)
      (rest : Naps (span - min span slice) (clock.sleep (min span slice) (asked clock r)).2 ms r') :
      Naps span r (⟨r, .asked true⟩ :: ⟨asked clock r, .slept (min span slice)⟩ :: ms) r'

/-- The calls of a run, from one state to another. -/
inductive Turns : ρ → List (Moment ρ) → ρ → Prop where
  /-- The run is not followed any further. -/
  | cut {r : ρ} : Turns r [] r
  /-- The run is told to stop. -/
  | told {r : ρ} (hstop : (clock.running r).1 = false) : Turns r [⟨r, .asked false⟩] (asked clock r)
  /-- The cycle is the last that the run may have. -/
  | last {r : ρ} (hgoes : (clock.running r).1 = true) : Turns r (turn clock r) (done clock cycle r)
  | more {r r' r'' : ρ} {naps ms : List (Moment ρ)} (hgoes : (clock.running r).1 = true)
      (pause : Naps clock (left clock cadence cycle r) (paused clock cycle r) naps r')
      (rest : Turns r' ms r'') :
      Turns r (turn clock r ++ ⟨done clock cycle r, .looked (ended clock cycle r)⟩ :: (naps ++ ms)) r''

end Turns

end Run

end WindowAlign
