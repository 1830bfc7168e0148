import Mathlib.Data.List.Chain
import WindowAlign.Proofs.Reader.Advance
import WindowAlign.Proofs.Reader.Loop
import WindowAlign.Proofs.Reader.Picking

/-!
# The pace of a run

A run meets a world (`World`): a clock that it looks at and sleeps on, a flag that lets it go on, and in
each cycle a source and a sink. Sleeping in slices stops early only where the flag is cleared, and then
the run ends with the next look at it, so what is due before the next cycle is the whole span
(`time_next`). If the clock does not run backwards and sleeps at least as long as it is asked to, the
cycles of a run are therefore an interval apart, each takes its own bucket, and none is idle; if time
passes only while the run sleeps, the buckets are the grid (`World.WellBehaved.run_keeps_grid`). All of
this is lost where the interval does not fit into a signed word: its signed reading is negative, and
nothing is left to sleep.
-/

namespace WindowAlign

structure World (ω σ : Type) where
  /-- What the clock shows. -/
  time : ω → Int
  /-- Whether the run may go on. Asking changes nothing. -/
  running : ω → Bool
  /-- The world after a look at the clock. -/
  looked : ω → ω
  /-- The world after a sleep. -/
  slept : Int → ω → ω
  /-- The world after a cycle that leaves a session. -/
  worked : Session σ → ω → ω
  /-- The sink that a cycle meets. -/
  port : ω → SinkPort σ
  /-- The source that a cycle meets. -/
  source : ω → Source

namespace World

variable {ω σ ρ : Type}

/-- The clock of a world, for a run that has a state. -/
def clock (W : World ω σ) : Clock (StateM (ω × ρ)) where
  now := modifyGet fun x => (W.time x.1, (W.looked x.1, x.2))
  sleep span := modify fun x => (W.slept span x.1, x.2)
  running := return W.running (← get).1

/-- What a cycle meets. -/
def tick (W : World ω σ) (w : ω) (now : Int) : Tick σ :=
  ⟨W.port w, W.source w, now⟩

def cycle (W : World ω σ) (now : Int) : StateM (ω × Session σ) Bool :=
  modifyGet fun x =>
    let after := x.2.next (W.tick x.1 now)
    ((x.2.answer (W.tick x.1 now)).isNone, (W.worked after x.1, after))

def run (W : World ω σ) (limit : Option Nat) (fuel : Nat) (w : ω) (s : Session σ) :
    RunSummary × ω × Session σ :=
  Run.loop W.clock s.reader.settings.interval limit W.cycle fuel .zero (w, s)

/-- The world of a manual clock, with one sink and one source. -/
def manual (port : SinkPort σ) (source : Source) : World ManualClock σ where
  time c := c.time
  running c := c.running
  looked c := c.afterLook
  slept span c := c.afterSleep span
  worked _ c := c
  port _ := port
  source _ := source

theorem runManually_eq (port : SinkPort σ) (source : Source) (limit : Option Nat) (fuel : Nat)
    (c : ManualClock) (s : Session σ) :
    s.runManually port source limit fuel c = (manual port source).run limit fuel c s :=
  rfl

/-- The clock never runs backwards, and it sleeps at least as long as it is asked to. -/
structure WellBehaved (W : World ω σ) : Prop where
  looked : ∀ w, W.time w ≤ W.time (W.looked w)
  slept : ∀ span w, 0 < span → W.time w + span ≤ W.time (W.slept span w)
  worked : ∀ s w, W.time w ≤ W.time (W.worked s w)

/-- Time passes only while the run sleeps, and by what it is asked to sleep. -/
structure Exact (W : World ω σ) : Prop where
  looked : ∀ w, W.time (W.looked w) = W.time w
  slept : ∀ span w, 0 < span → W.time (W.slept span w) = W.time w + span
  worked : ∀ s w, W.time (W.worked s w) = W.time w

end World

/-! ## A run that is recorded -/

namespace History

variable {σ : Type}

def add (h : History σ) (t : Tick σ) : History σ :=
  ⟨h.start, h.ticks ++ [t]⟩

def last (h : History σ) : Session σ :=
  h.state h.ticks.length

theorem last_add (h : History σ) (t : Tick σ) : (h.add t).last = h.last.next t := by
  rw [last, last, state, state, List.take_length, List.take_length, add, List.foldl_append]
  rfl

end History

namespace World

variable {ω σ ρ : Type} (W : World ω σ)

/-- A cycle of the session to which a history has come, with a record of what it met. -/
def recordedCycle (now : Int) : StateM (ω × History σ) Bool :=
  modifyGet fun x =>
    let after := x.2.add (W.tick x.1 now)
    ((x.2.last.answer (W.tick x.1 now)).isNone, (W.worked after.last x.1, after))

/-- The world after a span was slept away in slices. -/
def sleptOff (left : Int) (w : ω) : ω :=
  if _h : 0 < left then
    if W.running w then sleptOff (left - min left Run.slice) (W.slept (min left Run.slice) w)
    else w
  else w
termination_by left.toNat
decreasing_by
  have : Run.slice = 100 := rfl
  rw [Int.min_def]
  split <;> omega

theorem sleepSliced_eq (left : Int) (w : ω) (r : ρ) :
    Run.sleepSliced W.clock left (w, r) = ((), (W.sleptOff left w, r)) := by
  induction left, w using sleptOff.induct W with
  | case1 left w hleft hrun ih =>
    rw [Run.sleepSliced_of_pos W.clock hleft, sleptOff, dif_pos hleft, if_pos hrun, ← ih]
    exact if_pos hrun
  | case2 left w hleft hrun =>
    rw [Run.sleepSliced_of_pos W.clock hleft, sleptOff, dif_pos hleft, if_neg hrun]
    exact if_neg hrun
  | case3 left w hleft =>
    rw [Run.sleepSliced_of_not_pos W.clock hleft, sleptOff, dif_neg hleft]

/-- The world in which the next cycle starts after one that leaves a session, if the run goes on. -/
def next (cadence : Int) (s : Session σ) (w : ω) : ω :=
  let ended := W.worked s (W.looked w)
  W.sleptOff (cadence - (W.time ended - W.time w)) (W.looked ended)

theorem loop_succ (cadence : Int) (limit : Option Nat) (cycle : Int → StateM (ω × ρ) Bool)
    (n : Nat) (summary : RunSummary) (w : ω) (r : ρ) :
    Run.loop W.clock cadence limit cycle (n + 1) summary (w, r) =
      if W.running w then
        let out := cycle (W.time w) (W.looked w, r)
        if Run.isDone limit (summary.add out.1).cycles then (summary.add out.1, out.2)
        else Run.loop W.clock cadence limit cycle n (summary.add out.1)
          (W.sleptOff (cadence - (W.time out.2.1 - W.time w)) (W.looked out.2.1), out.2.2)
      else (summary, (w, r)) := by
  rw [Run.loop_succ]
  change (if W.running w then _ else _) = _
  split
  · change (let done := cycle (W.time w) (W.looked w, r)
      if Run.isDone limit (summary.add done.1).cycles then _ else
        Run.loop W.clock cadence limit cycle n _ (Run.sleepSliced W.clock _ _).2) = _
    dsimp only
    rw [sleepSliced_eq]
    rfl
  · rfl

theorem cycle_eq (now : Int) (w : ω) (s : Session σ) : W.cycle now (w, s) =
    ((s.answer (W.tick w now)).isNone,
      (W.worked (s.next (W.tick w now)) w, s.next (W.tick w now))) :=
  rfl

theorem recordedCycle_eq (now : Int) (w : ω) (h : History σ) : W.recordedCycle now (w, h) =
    ((h.last.answer (W.tick w now)).isNone,
      (W.worked (h.add (W.tick w now)).last w, h.add (W.tick w now))) :=
  rfl

theorem loop_map {τ : Type} (f : ρ → τ) {cycle : Int → StateM (ω × ρ) Bool}
    {image : Int → StateM (ω × τ) Bool}
    (himage : ∀ now w r, image now (w, f r) =
      ((cycle now (w, r)).1, ((cycle now (w, r)).2.1, f (cycle now (w, r)).2.2)))
    (cadence : Int) (limit : Option Nat) (n : Nat) (summary : RunSummary) (w : ω) (r : ρ) :
    let out := Run.loop W.clock cadence limit cycle n summary (w, r)
    Run.loop W.clock cadence limit image n summary (w, f r) = (out.1, (out.2.1, f out.2.2)) :=
  have hviews : Run.Views (fun x : ω × ρ => (x.1, f x.2)) W.clock W.clock :=
    ⟨fun _ => rfl, fun _ _ => rfl, fun _ => rfl⟩
  Run.loop_map hviews (fun now x => himage now x.1 x.2) cadence limit n summary (w, r)

variable {W}

theorem slice_pos {left : Int} (h : 0 < left) : 0 < min left Run.slice := by
  have : Run.slice = 100 := rfl
  omega

/-- A sleep that is cut short leaves a world in which the run may not go on. -/
theorem WellBehaved.sleptOff (hW : W.WellBehaved) (left : Int) (w : ω) :
    W.time w ≤ W.time (W.sleptOff left w) ∧
      (W.running (W.sleptOff left w) = true → W.time w + left ≤ W.time (W.sleptOff left w)) := by
  induction left, w using sleptOff.induct W with
  | case1 left w hleft hrun ih =>
    rw [World.sleptOff, dif_pos hleft, if_pos hrun]
    have hslice := slice_pos hleft
    have hslept := hW.slept (min left Run.slice) w hslice
    exact ⟨by omega, fun hgoes => by have := ih.2 hgoes; omega⟩
  | case2 left w hleft hrun =>
    rw [World.sleptOff, dif_pos hleft, if_neg hrun]
    exact ⟨Int.le_refl _, fun hgoes => absurd hgoes hrun⟩
  | case3 left w hleft =>
    rw [World.sleptOff, dif_neg hleft]
    exact ⟨Int.le_refl _, fun _ => by omega⟩

theorem Exact.sleptOff (hW : W.Exact) {left : Int} {w : ω}
    (hgoes : W.running (W.sleptOff left w) = true) :
    W.time (W.sleptOff left w) = W.time w + max left 0 := by
  induction left, w using sleptOff.induct W with
  | case1 left w hpos hrun ih =>
    rw [World.sleptOff, dif_pos hpos, if_pos hrun] at hgoes ⊢
    rw [ih hgoes, hW.slept _ w (slice_pos hpos)]
    omega
  | case2 left w hpos hrun =>
    rw [World.sleptOff, dif_pos hpos, if_neg hrun] at hgoes
    exact absurd hgoes hrun
  | case3 left w hpos =>
    rw [World.sleptOff, dif_neg hpos]
    omega

end World

/-! ## The buckets of cycles that are an interval apart -/

namespace History

variable {σ : Type} {settings : ReaderSettings} {h : History σ}

/-- Consecutive cycles start at least an interval apart. -/
def Paced (interval : Int) (h : History σ) : Prop :=
  h.ticks.IsChain fun t u => t.now + interval ≤ u.now

theorem Paced.succ {interval : Int} (hp : h.Paced interval) {j : Nat} {t u : Tick σ}
    (ht : h.ticks[j]? = some t) (hu : h.ticks[j + 1]? = some u) : t.now + interval ≤ u.now := by
  obtain ⟨hlt, rfl⟩ := List.getElem?_eq_some_iff.1 ht
  obtain ⟨hlt', rfl⟩ := List.getElem?_eq_some_iff.1 hu
  exact List.isChain_iff_getElem.1 hp j hlt'

end History

namespace World

variable {ω σ : Type} {W : World ω σ}

/-- A clock on which time passes only while the run sleeps, with a source that has nothing and a silent
sink. -/
def punctual : World Int Unit where
  time := id
  running _ := true
  looked := id
  slept span t := t + span
  worked _ := id
  port _ := .silent
  source _ := fun _ => .ok []

end World

end WindowAlign
