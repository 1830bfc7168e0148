import WindowAlign.Proofs.Ingest.Pass
import WindowAlign.Proofs.Store.Calls

/-!
# Batches

The batch size bounds what is buffered and shows nowhere else. What a pass leaves and counts does not
mention it (`Passed`, `Stats.ofPass`), so passes with different batch sizes end alike. And whatever
the calls of the intake, the stores that they are given and the faults of these stores, no processor
is left with a full batch (`Command.roomy_run`): a full one is written, or dropped where the store
refuses it, before the call ends.
-/

namespace WindowAlign

/-- A processor has room in its buffer, and has buffered nothing before it is bound. -/
structure Processor.Roomy (batch : Nat) (p : Processor) : Prop where
  room : p.pending.length < batch
  unbound : p.window = none → p.pending = []

namespace Processor

variable {batch : Nat} {p : Processor}

/-- A commit empties the buffer of a bound processor, whatever the store says. -/
theorem commit_window (p : Processor) (s : Store) :
    (p.commit s).2.1.window = p.window ∧
      (p.window ≠ none → (p.commit s).2.1.pending = []) ∧
      (p.window = none → (p.commit s).2.1 = p) := by
  unfold commit
  cases hw : p.window with
  | none => exact ⟨hw, fun h => absurd rfl h, fun _ => rfl⟩
  | some w => exact ⟨rfl, fun _ => rfl, fun h => by cases h⟩

theorem Roomy.commit (h : p.Roomy batch) (s : Store) : (p.commit s).2.1.Roomy batch := by
  obtain ⟨hwindow, hbound, hunbound⟩ := p.commit_window s
  cases hw : p.window with
  | none => rw [hunbound hw]; exact h
  | some w =>
    have hempty := hbound (by rw [hw]; exact Option.some_ne_none w)
    refine ⟨?_, fun _ => hempty⟩
    rw [hempty]
    exact Nat.lt_of_le_of_lt (Nat.zero_le _) h.room

theorem process_window (p : Processor) (t : Topology) (e : Event) :
    (p.process t e).2.1.window = p.window ∧
      (p.window = none → (p.process t e).2.1 = p) := by
  have hstale : p.window = none → ∀ time, p.accepts time = false := fun h time => by
    rw [accepts, h]; rfl
  unfold process
  split
  · exact ⟨rfl, fun _ => rfl⟩
  split
  · exact ⟨rfl, fun _ => rfl⟩
  rename_i block _
  split
  · rename_i haccept
    have hbound : p.window ≠ none := fun h => by rw [hstale h] at haccept; cases haccept
    split
    · exact ⟨rfl, fun _ => rfl⟩
    · exact ⟨rfl, fun h => absurd h hbound⟩
  · exact ⟨rfl, fun _ => rfl⟩

end Processor

namespace Intake

/-! ## Room in the buffers -/

/-- Every processor has room for a row, and batches hold one at least. -/
structure Roomy (i : Intake) : Prop where
  batch : 0 < i.batch
  processors : ∀ p ∈ i.processors, p.Roomy i.batch

theorem flush_roomy {batch : Nat} (hb : 0 < batch) {p : Processor}
    (h : p.window = none → p.pending = []) (s : Store) (stats : Stats) :
    (flush batch p s stats).2.1.Roomy batch := by
  unfold flush
  by_cases hfull : batch ≤ p.pending.length
  · have hbound : p.window ≠ none := fun hw => by
      rw [h hw, List.length_nil] at hfull
      omega
    obtain ⟨hwindow, hempty, -⟩ := p.commit_window s
    have hroomy : (p.commit s).2.1.Roomy batch :=
      ⟨by rw [hempty hbound]; exact hb, fun _ => hempty hbound⟩
    rw [if_pos hfull]
    split
    · rename_i hc; rw [hc] at hroomy; exact hroomy
    · rename_i hc; rw [hc] at hroomy; exact hroomy
  · rw [if_neg hfull]
    exact ⟨Nat.lt_of_not_le hfull, h⟩

theorem commitEach_roomy {batch : Nat} {ps : List Processor} (h : ∀ p ∈ ps, p.Roomy batch)
    (s : Store) (stats : Stats) : ∀ p ∈ (commitEach ps s stats).2.1, p.Roomy batch := by
  induction ps generalizing s stats with
  | nil => exact fun p hp => by cases hp
  | cons q ps ih =>
    have hq := (h q List.mem_cons_self).commit s
    have htail := fun p hp => h p (List.mem_cons_of_mem _ hp)
    intro p hp
    unfold commitEach at hp
    split at hp
    · rename_i hc
      rw [hc] at hq
      rcases List.mem_cons.1 hp with rfl | hp
      · exact hq
      · exact htail p hp
    · rename_i hc
      rw [hc] at hq
      rcases List.mem_cons.1 hp with rfl | hp
      · exact hq
      · exact ih htail _ _ p hp

/-- A call of the intake, with the store that it is given. -/
inductive Command where
  | bind (s : Store) (w : Window)
  | dispatch (s : Store) (e : Event)
  | finish (s : Store)

/-- The intake after a call, also where the store refused rows. -/
def Command.run (i : Intake) : Command → Intake
  | bind s w => ({ i with store := s }).bindAll w
  | dispatch s e => ((Intake.dispatch e).outcome { i with store := s }).2
  | finish s => (Intake.finish.outcome { i with store := s }).2

theorem Roomy.dispatch {i : Intake} (h : i.Roomy) (e : Event) :
    ((Intake.dispatch e).outcome i).2.Roomy ∧
      ((Intake.dispatch e).outcome i).2.batch = i.batch := by
  unfold Action.outcome Intake.dispatch
  cases hcl : claimant? e i.processors with
  | none => exact ⟨⟨h.batch, h.processors⟩, rfl⟩
  | some found =>
    obtain ⟨before, p, after⟩ := found
    obtain ⟨hps, -, -⟩ := claimant?_eq_some hcl
    have hp : p.Roomy i.batch := h.processors p (by rw [hps]; simp)
    obtain ⟨hwindow, hsame⟩ := p.process_window i.topology e
    simp only
    generalize p.process i.topology e = out at hwindow hsame ⊢
    obtain ⟨verdict, q, topology⟩ := out
    have hunbound : q.window = none → q.pending = [] := fun hq => by
      have hpw : p.window = none := hwindow.symm.trans hq
      rw [show q = p from hsame hpw]
      exact hp.unbound hpw
    have hflush := flush_roomy h.batch hunbound i.store (i.stats.addVerdict verdict)
    simp only
    generalize flush i.batch q i.store (i.stats.addVerdict verdict) = result at hflush ⊢
    obtain ⟨answer, q', store, stats⟩ := result
    cases answer <;> exact ⟨⟨h.batch, forall_mem_replaced (hps ▸ h.processors) hflush⟩, rfl⟩

theorem Roomy.finish {i : Intake} (h : i.Roomy) :
    (Intake.finish.outcome i).2.Roomy ∧ (Intake.finish.outcome i).2.batch = i.batch := by
  have hcommit := commitEach_roomy h.processors i.store i.stats
  unfold Action.outcome Intake.finish
  generalize commitEach i.processors i.store i.stats = result at hcommit ⊢
  obtain ⟨answer, processors, store, stats⟩ := result
  cases answer <;> exact ⟨⟨h.batch, hcommit⟩, rfl⟩

theorem bindEach_empty (w : Window) (ps : List Processor) (s : Store) :
    ∀ p ∈ (bindEach w ps s).1, p.pending = [] := by
  induction ps generalizing s with
  | nil => exact fun p hp => by cases hp
  | cons q ps ih =>
    intro p hp
    rcases List.mem_cons.1 hp with rfl | hp
    · rfl
    · exact ih _ p hp

/-- **Every call leaves room in the buffers.** -/
theorem Command.roomy_run {i : Intake} (h : i.Roomy) (command : Command) :
    (command.run i).Roomy ∧ (command.run i).batch = i.batch := by
  cases command with
  | bind s w =>
    refine ⟨⟨h.batch, fun p hp => ?_⟩, rfl⟩
    have hempty := bindEach_empty w i.processors s p hp
    exact ⟨by rw [hempty]; exact h.batch, fun _ => hempty⟩
  | dispatch s e => exact Roomy.dispatch (i := { i with store := s }) ⟨h.batch, h.processors⟩ e
  | finish s => exact Roomy.finish (i := { i with store := s }) ⟨h.batch, h.processors⟩

theorem roomy_runs {i : Intake} (h : i.Roomy) (commands : List Command) :
    (commands.foldl Command.run i).Roomy ∧ (commands.foldl Command.run i).batch = i.batch := by
  induction commands generalizing i with
  | nil => exact ⟨h, rfl⟩
  | cons command commands ih =>
    obtain ⟨hnext, hbatch⟩ := command.roomy_run h
    obtain ⟨hrun, hsame⟩ := ih hnext
    exact ⟨hrun, hsame.trans hbatch⟩

/-! ## Passes -/

/-- **The batch size does not show, and bounds the buffers.** Passes over the same events that differ in
the batch size count the same and leave the same store and the same published list, for any processors
and any store that calls have made. And after any calls of an intake, whatever stores they are given,
every processor has fewer rows buffered than a batch holds. -/
theorem batch_unobservable (i : Intake) (interval : Int) (calls : List Store.Call) (w : Window)
    (es : List Event) (m n : Nat) :
    (∃ stats a b,
      Intake.run (fun _ => .ok es) w { i with store := .after interval calls, batch := m } =
        .ok stats a ∧
      Intake.run (fun _ => .ok es) w { i with store := .after interval calls, batch := n } =
        .ok stats b ∧
      a.store = b.store ∧ a.topology = b.topology) ∧
    ∀ (roster : List (Category × Int)) (commands : List Command), ∀ p ∈
      (commands.foldl Command.run
        (fresh (roster.map fun x => Processor.fresh x.1 x.2) m interval)).processors,
      p.pending.length < max 1 m := by
  have hkeyed := Store.keyed_after interval calls
  refine ⟨?_, fun roster commands p hp => ?_⟩
  · obtain ⟨a, ha, hpassed⟩ :=
      run_events w (i := { i with store := .after interval calls, batch := m }) hkeyed es
    obtain ⟨b, hb, hpassed'⟩ :=
      run_events w (i := { i with store := .after interval calls, batch := n }) hkeyed es
    refine ⟨_, a, b, ha, hb, Store.ext_snapshots (hpassed.interval.trans hpassed'.interval.symm)
      fun c => (hpassed.snapshots c).trans (hpassed'.snapshots c).symm,
      hpassed.topology.trans hpassed'.topology.symm⟩
  · generalize hstart : fresh (roster.map fun x => Processor.fresh x.1 x.2) m interval = start at hp
    have hbatch : start.batch = max 1 m := by rw [← hstart]; rfl
    have hroomy : start.Roomy := by
      refine ⟨by omega, fun q hq => ?_⟩
      rw [← hstart] at hq
      obtain ⟨x, -, rfl⟩ := List.mem_map.1 hq
      exact ⟨by rw [hbatch]; exact Nat.lt_of_lt_of_le Nat.zero_lt_one (Nat.le_max_left ..),
        fun _ => rfl⟩
    obtain ⟨hruns, hsame⟩ := roomy_runs hroomy commands
    have hroom := (hruns.processors p hp).room
    rwa [hsame, hbatch] at hroom

end Intake

end WindowAlign
