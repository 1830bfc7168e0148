import WindowAlign.Proofs.Reader.Pace

/-!
# The limit of a run

A run may be given a limit on its cycles. It is looked at after each cycle, so a run that may go on at
its start has a cycle even with a limit of zero; any other limit holds, and a run with fewer cycles
than that was told to stop (`World.run_limited`). Nothing is assumed of the clock: each of its calls
may answer anything and change the world in any way, and so may the question whether the run may go
on. The account of a run tells how many cycles there were and how many of them failed
(`History.failures`).
-/

namespace WindowAlign

/-- The clock of a run whose state holds more than what the clock acts on. -/
def Clock.beside {ω ρ : Type} (clock : Clock (StateM ω)) : Clock (StateM (ω × ρ)) where
  now x := ((clock.now x.1).1, ((clock.now x.1).2, x.2))
  sleep span x := ((), ((clock.sleep span x.1).2, x.2))
  running x := ((clock.running x.1).1, ((clock.running x.1).2, x.2))

/-! ## Cycles that fail -/

namespace History

variable {σ : Type} (h : History σ) (t : Tick σ)

theorem length_add : (h.add t).ticks.length = h.ticks.length + 1 :=
  List.length_append

def failures : Nat :=
  (List.range h.ticks.length).countP fun j => (h.answer j).isNone

theorem answer_add_of_lt {j : Nat} (hj : j < h.ticks.length) : (h.add t).answer j = h.answer j := by
  unfold answer state add
  rw [List.getElem?_append_left hj, List.take_append_of_le_length (Nat.le_of_lt hj)]

theorem answer_add_last : (h.add t).answer h.ticks.length = h.last.answer t := by
  unfold answer last state add
  rw [List.getElem?_concat_length, List.take_append_of_le_length (Nat.le_refl _), Option.bind_some]

theorem failures_add :
    (h.add t).failures = h.failures + if (h.last.answer t).isNone then 1 else 0 := by
  unfold failures
  rw [length_add, List.range_succ, List.countP_append, List.countP_singleton, answer_add_last]
  refine congrArg (· + _) (List.countP_congr fun j hj => ?_)
  rw [h.answer_add_of_lt t (List.mem_range.1 hj)]

end History

/-! ## Runs under any clock -/

namespace World

variable {ω σ : Type} (W : World ω σ) (clock : Clock (StateM ω))

/-- The run of a session in a world under another clock than that of the world. -/
def runUnder (limit : Option Nat) (fuel : Nat) (w : ω) (s : Session σ) : RunSummary × ω × Session σ :=
  Run.loop clock.beside s.reader.settings.interval limit W.cycle fuel .zero (w, s)

/-- The same run with a record of its cycles. -/
def recordUnder (limit : Option Nat) (fuel : Nat) (w : ω) (s : Session σ) :
    RunSummary × ω × History σ :=
  Run.loop clock.beside s.reader.settings.interval limit W.recordedCycle fuel .zero (w, ⟨s, []⟩)

def ownClock : Clock (StateM ω) where
  now w := (W.time w, W.looked w)
  sleep span w := ((), W.slept span w)
  running w := (W.running w, w)

theorem run_eq_runUnder (limit : Option Nat) (fuel : Nat) (w : ω) (s : Session σ) :
    W.run limit fuel w s = W.runUnder W.ownClock limit fuel w s :=
  rfl

theorem runUnder_eq (limit : Option Nat) (fuel : Nat) (w : ω) (s : Session σ) :
    let out := W.recordUnder clock limit fuel w s
    W.runUnder clock limit fuel w s = (out.1, (out.2.1, out.2.2.last)) :=
  have hviews : Run.Views (fun x : ω × History σ => (x.1, x.2.last)) clock.beside clock.beside :=
    ⟨fun _ => rfl, fun _ _ => rfl, fun _ => rfl⟩
  Run.loop_map hviews (fun now x => by rw [recordedCycle_eq, cycle_eq, History.last_add]) _ limit fuel
    .zero (w, ⟨s, []⟩)

theorem recordUnder_spec (limit : Option Nat) (fuel : Nat) (w : ω) (s : Session σ) :
    let out := W.recordUnder clock limit fuel w s
    out.2.2.start = s ∧ out.1.cycles = out.2.2.ticks.length ∧ out.1.failures = out.2.2.failures :=
  Run.loop_induct clock.beside W.recordedCycle
    (P := fun summary x => x.2.start = s ∧ summary.cycles = x.2.ticks.length ∧
      summary.failures = x.2.failures)
    (fun _ _ h => h) (fun _ _ h => h) (fun _ _ _ h => h)
    (fun now summary x ⟨hstart, hcycles, hfailures⟩ => by
      rw [recordedCycle_eq]
      refine ⟨hstart, ?_, ?_⟩
      · rw [RunSummary.cycles_add, hcycles, History.length_add]
      · rw [History.failures_add, ← hfailures]
        rfl)
    _ limit fuel .zero (w, ⟨s, []⟩) ⟨rfl, rfl, rfl⟩

/-- A run that ends before its limit was told to. -/
theorem runUnder_ended (n more : Nat) (w : ω) (s : Session σ) :
    let out := W.runUnder clock (some n) (max 1 n + more) w s
    out.1.cycles = max 1 n ∨ ∃ w', clock.running w' = (false, out.2.1) := by
  intro out
  have hfuel : max 1 (n - RunSummary.zero.cycles) ≤ max 1 n + more := Nat.le_add_right ..
  rcases Run.loop_ended clock.beside s.reader.settings.interval W.cycle hfuel (w, s) with hall | hstop
  · exact .inl hall
  · obtain ⟨x, hx⟩ := hstop
    have hanswer := congrArg (fun p : Bool × ω × Session σ => p.1) hx
    have hworld := congrArg (fun p : Bool × ω × Session σ => p.2.1) hx
    exact .inr ⟨x.1, Prod.ext hanswer hworld⟩

/-- **A run has at most as many cycles as its limit, except that a limit of zero counts as one.** In
every world, under every clock and from every session, it goes through the cycles of a history and
accounts for them: how many they are and how many of them failed. It has none only if it may not go on
at its start, and fewer than the limit only if the last thing that it did was to ask whether it may go
on and to be told not to; so if it is never told, it has exactly the limit. More cycles than these at
the disposal of `Run.loop` change nothing. -/
theorem run_limited (n more : Nat) (w : ω) (s : Session σ) :
    let out := W.runUnder clock (some n) (max 1 n + more) w s
    let h := (W.recordUnder clock (some n) (max 1 n + more) w s).2.2
    out = W.runUnder clock (some n) (max 1 n) w s ∧
    h.start = s ∧ out.2.2 = h.last ∧
    out.1.cycles = h.ticks.length ∧ out.1.failures = h.failures ∧
    out.1.cycles ≤ max 1 n ∧
    (0 < out.1.cycles ↔ (clock.running w).1 = true) ∧
    (out.1.cycles = max 1 n ∨ ∃ w', clock.running w' = (false, out.2.1)) ∧
    ((∀ w', (clock.running w').1 = true) → out.1.cycles = max 1 n) := by
  intro out h
  obtain ⟨hstart, hcycles, hfailures⟩ := W.recordUnder_spec clock (some n) (max 1 n + more) w s
  have hout : out = ((W.recordUnder clock (some n) (max 1 n + more) w s).1, _, h.last) :=
    W.runUnder_eq clock (some n) (max 1 n + more) w s
  have hfuel : max 1 (n - RunSummary.zero.cycles) ≤ max 1 n + more := Nat.le_add_right ..
  have hsame : out = W.runUnder clock (some n) (max 1 n) w s :=
    Run.loop_fuel clock.beside _ W.cycle hfuel (Nat.le_refl _) (w, s)
  have hended := W.runUnder_ended clock n more w s
  have hfirst : 0 < out.1.cycles ↔ (clock.running w).1 = true := by
    obtain ⟨m, hm⟩ : ∃ m, max 1 n = m + 1 := ⟨max 1 n - 1, by omega⟩
    rw [hsame, hm]
    exact Run.lt_cycles_iff clock.beside s.reader.settings.interval W.cycle (some n) m .zero (w, s)
  refine ⟨hsame, hstart, by rw [hout], ?_, ?_, ?_, hfirst, hended, fun hrun => ?_⟩
  · rw [hout]
    exact hcycles
  · rw [hout]
    exact hfailures
  · exact Run.cycles_le clock.beside _ W.cycle n _ .zero (w, s)
  · refine hended.resolve_right ?_
    rintro ⟨w', hw'⟩
    have hgoes := hrun w'
    rw [hw'] at hgoes
    cases hgoes

/-- A run that is never told to stop has one cycle with a limit of zero, where a limit of two gives it
two. -/
theorem run_limited_zero :
    let s := (History.replay (fun _ => []) []).start
    (punctual.run (some 0) 1 15000 s).1.cycles = 1 ∧ (punctual.run (some 2) 2 15000 s).1.cycles = 2 := by
  intro s
  have hgoes : ∀ w, (punctual.ownClock.running w).1 = true := fun _ => rfl
  obtain ⟨-, -, -, -, -, -, -, -, hzero⟩ := punctual.run_limited punctual.ownClock 0 0 15000 s
  obtain ⟨-, -, -, -, -, -, -, -, htwo⟩ := punctual.run_limited punctual.ownClock 2 0 15000 s
  rw [run_eq_runUnder, run_eq_runUnder]
  exact ⟨hzero hgoes, htwo hgoes⟩

end World

end WindowAlign
