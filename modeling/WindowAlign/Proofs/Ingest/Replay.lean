import WindowAlign.Proofs.Ingest.Pass
import WindowAlign.Proofs.Store.Merging
import WindowAlign.Proofs.Topology.Published

/-!
# Passes that are repeated

A pass may stop half way, and its bucket is then read again from the start. What was written and
published of the first events is written and published once more, before the rest is: the window is
open already, rows that are in the series change nothing, and neither do lists of members that were
offered. So the second pass ends where one pass over all events would have ended
(`Passed.again`).
-/

namespace WindowAlign

theorem stored_of_mem_rows {c : Category} {w : Window} {es : List Event} {row : Row}
    (h : row ∈ es.flatMap (·.rowsFor c w)) : c.schema.Stored (c.schema.keep row.cells) := by
  obtain ⟨e, -, hrow⟩ := List.mem_flatMap.1 h
  exact (fits_of_mem_rowsFor hrow).1.stored

/-- **A series that took the first events takes all of them as if it had taken none.** -/
theorem Series.passed_again {c : Category} {w : Window} {l : List Snapshot} (h : Keyed c l)
    (maxAge? : Option Int) (es rest : List Event) :
    passed c maxAge? w (es ++ rest) (passed c maxAge? w es l) = passed c maxAge? w (es ++ rest) l := by
  cases maxAge? with
  | none => rfl
  | some maxAge =>
    unfold passed
    simp only
    have hpresent : ∃ n ∈ load c w.start (es.flatMap (·.rowsFor c w)) (opened c maxAge w.start l),
        n.windowStart = w.start := by
      obtain ⟨n, hn, hw⟩ := exists_mem_opened c maxAge w.start l
      exact ⟨_, mem_load.2 (.inr ⟨n, hn, hw, rfl⟩), hw⟩
    rw [opened_of_present hpresent, List.flatMap_append, load_append, load_append,
      load_again (fun row hrow => stored_of_mem_rows hrow) h.opened]

namespace Intake

theorem offered_dated {i : Intake} {w : Window} {es : List Event} :
    ∀ t ∈ i.offered w es, t.Dated := by
  intro t ht
  unfold offered at ht
  split at ht
  · obtain ⟨e, -, he⟩ := List.mem_filterMap.1 ht
    obtain ⟨time, htime, -⟩ := Event.membersFor_observed he
    exact ⟨time, htime⟩
  · cases ht

theorem Passed.keyed {w : Window} {es : List Event} {i j : Intake} (h : Passed w es i j)
    (hs : i.store.Keyed) : j.store.Keyed := by
  intro c
  rw [h.snapshots c]
  cases maxAgeOf? c i.processors with
  | none => exact hs c
  | some maxAge => exact (hs c).opened.load fun row hrow => stored_of_mem_rows hrow

/-- **A pass over all events after one over the first of them** leaves what one pass leaves. -/
theorem Passed.again {w : Window} {es rest : List Event} {i j k : Intake} (hs : i.store.Keyed)
    (h : Passed w es i j) (h' : Passed w (es ++ rest) j k) : Passed w (es ++ rest) i k := by
  refine ⟨?_, h'.batch.trans h.batch, h'.stats, h'.interval.trans h.interval, fun c => ?_, ?_⟩
  · rw [h'.processors, h.processors, List.map_map]
    rfl
  · rw [h'.snapshots, h.snapshots, maxAgeOf?_congr h.roster, Series.passed_again (hs c)]
  · rw [h'.topology, h.topology, offered_congr h.roster, offered_append, List.foldl_append,
      Topology.publishAll_again offered_dated, ← List.foldl_append]

/-- **Dispatching a bucket again is idempotent, also after a part of it.** Whatever the calls that made
the store, and whatever processors, counters, batch size and published list there are: a pass over the
first events and then a pass over all of them end in the very state in which one pass over all of them
ends, and the counters of the second pass are those of the one. -/
theorem run_replayed (i : Intake) (interval : Int) (calls : List Store.Call) (w : Window)
    (es rest : List Event) :
    ∃ stats between total after,
      Intake.run (fun _ => .ok es) w { i with store := .after interval calls } =
        .ok stats between ∧
      Intake.run (fun _ => .ok (es ++ rest)) w between = .ok total after ∧
      Intake.run (fun _ => .ok (es ++ rest)) w { i with store := .after interval calls } =
        .ok total after := by
  generalize hi : ({ i with store := .after interval calls } : Intake) = start
  have hkeyed : start.store.Keyed := hi ▸ Store.keyed_after interval calls
  obtain ⟨between, hrun, hpassed⟩ := run_events w hkeyed es
  obtain ⟨after, hrun', hpassed'⟩ := run_events w (hpassed.keyed hkeyed) (es ++ rest)
  obtain ⟨once, honce, hpassed''⟩ := run_events w hkeyed (es ++ rest)
  have hcats := categories_eq hpassed.roster
  refine ⟨_, between, _, after, hrun, hcats ▸ hrun', ?_⟩
  rw [honce, (hpassed.again hkeyed hpassed').unique hpassed'']

end Intake

end WindowAlign
