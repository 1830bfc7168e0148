import WindowAlign.Proofs.Ingest.Batches
import WindowAlign.Proofs.Reader.Placement

/-!
# Windows of a grid

The intake may be bound to the windows of a grid in any order and to one of them more than once, events
may be handed over at any time, buffers written and series trimmed in between. The bucket of a snapshot
then still tells when its rows were seen: what a processor has buffered was seen in the window that it
is bound to (`Processor.OnGrid`), a change of the window drops it, and a batch is written into the
snapshot of that window, which is created anew if it was trimmed away. So the ends of the snapshots
ascend with their windows (`Series.Placed.ends_ordered`), which the search of alignment relies on.
-/

namespace WindowAlign

/-! ## Series -/

namespace Series

variable {c : Category} {i w : Int} {l : List Snapshot}

/-- A record was updated last in a window. -/
def UpdatedIn (c : Category) (w : Window) (r : Record) : Prop :=
  ∃ u, c.schema.lastUpdated r = .int u ∧ w.contains u = true

/-- The ends of placed snapshots ascend with their windows, and of those that were written to they do
so strictly. -/
theorem Placed.ends_ordered (h : Placed c i l) (ha : Ascending l) :
    (l.map (·.writerWindow i)).Pairwise fun v w => v.windowStart < w.windowStart ∧
      v.stop ≤ w.stop ∧ (v.observed = true → w.observed = true → v.stop < w.stop) := by
  refine List.pairwise_map.2 (ha.imp_of_mem fun {m n} hm hn hlt => ⟨hlt, ?_⟩)
  have hlt : m.windowStart < n.windowStart := hlt
  have hgrid := add_le_of_lt_of_dvd (h.grid m hm) (h.grid n hn) hlt
  unfold Snapshot.writerWindow Snapshot.windowEnd
  -- the earlier snapshot ends with its window at the latest, the later one not before its own begins
  cases hm' : m.writerEnd with
  | none =>
    refine ⟨?_, fun hobs => by cases hobs⟩
    cases hn' : n.writerEnd with
    | none => simp only [Option.getD_none]; omega
    | some u =>
      obtain ⟨hu, -⟩ := h.observed n hn u hn'
      simp only [Option.getD_none, Option.getD_some]
      omega
  | some t =>
    obtain ⟨ht, ht'⟩ := h.observed m hm t hm'
    cases hn' : n.writerEnd with
    | none =>
      refine ⟨?_, fun _ hobs => by cases hobs⟩
      simp only [Option.getD_none, Option.getD_some]
      omega
    | some u =>
      obtain ⟨hu, -⟩ := h.observed n hn u hn'
      simp only [Option.getD_some]
      omega

/-- What holds of a series while rows are written into the windows in which they were seen. Only
operations are carried from one snapshot to the next, so all other records were updated in the window
of their snapshot. -/
structure Orderly (c : Category) (i : Int) (l : List Snapshot) : Prop
    extends Sound c l, Placed c i l where
  dated : c.schema.isStartFinish = false → ∀ n ∈ l, ∀ r ∈ n.records,
    UpdatedIn c (.ofStart n.windowStart i) r

theorem Orderly.nil (c : Category) (i : Int) : Orderly c i [] where
  toSound := .nil c
  toPlaced := .nil c i
  dated _ n hn := by cases hn

theorem Orderly.drop (h : Orderly c i l) (k : Nat) : Orderly c i (l.drop k) where
  toSound := h.toSound.drop k
  toPlaced := h.toPlaced.subset fun _ hn => List.mem_of_mem_drop hn
  dated hc n hn := h.dated hc n (List.mem_of_mem_drop hn)

theorem Orderly.opened (h : Orderly c i l) (hw : i ∣ w) (maxAge : Int) :
    Orderly c i (opened c maxAge w l) where
  toSound := h.toSound.opened
  toPlaced := h.toPlaced.opened hw maxAge
  dated hc n hn r hr := by
    rcases mem_opened.1 hn with hn | ⟨-, rfl⟩
    · exact h.dated hc n hn r hr
    · obtain ⟨p, -, -, hsf⟩ := inherited_from hr
      rw [hc] at hsf
      cases hsf

theorem forall_records_insertFresh {P : Int → Record → Prop}
    (h : ∀ n ∈ l, ∀ r ∈ n.records, P n.windowStart r) (w : Int) :
    ∀ n ∈ Store.insertSnapshot (.fresh w) l, ∀ r ∈ n.records, P n.windowStart r := by
  intro n hn r hr
  rcases mem_insertSnapshot.1 hn with rfl | hn
  · cases hr
  · exact h n hn r hr

theorem Orderly.insertFresh (h : Orderly c i l) (hw : i ∣ w) (habsent : at? w l = none) :
    Orderly c i (Store.insertSnapshot (.fresh w) l) where
  toKeyed := h.toKeyed.insertSnapshot (at?_eq_none.1 habsent) List.nodup_nil fun r hr => by cases hr
  typed := forall_records_insertFresh (P := fun _ r => c.schema.Typed r) h.typed w
  timed hc := forall_records_insertFresh (P := fun _ r => c.schema.Timed r) (h.timed hc) w
  grid n hn := by
    rcases mem_insertSnapshot.1 hn with rfl | hn
    · exact hw
    · exact h.grid n hn
  observed n hn t ht := by
    rcases mem_insertSnapshot.1 hn with rfl | hn
    · cases ht
    · exact h.observed n hn t ht
  updated hc := forall_records_insertFresh (P := fun u r => UpdatedBefore c (u + i) r)
    (h.updated hc) w
  dated hc := forall_records_insertFresh (P := fun u r => UpdatedIn c (.ofStart u i) r)
    (h.dated hc) w

/-- A sample or a member that comes again is replaced as a whole, or stays. -/
theorem merge_eq_or (hc : c.schema.isStartFinish = false) (a b : Record) :
    c.schema.merge a b = a ∨ c.schema.merge a b = b := by
  unfold Schema.merge
  cases hl : c.schema.lifecycle with
  | startFinish =>
    have hsf : c.schema.isStartFinish = true := by rw [Schema.isStartFinish, hl]; rfl
    rw [hc] at hsf
    cases hsf
  | sampled => simp only; split <;> simp
  | topology => simp only; split <;> simp

theorem Orderly.load (h : Orderly c i l) {rows : List Row}
    (hr : ∀ row ∈ rows, Fits c row ∧ w ≤ row.observedAt ∧ row.observedAt < w + i) :
    Orderly c i (load c w rows l) where
  toSound := h.toSound.load fun row hrow => (hr row hrow).1
  toPlaced := h.toPlaced.load h.toSound hr
  dated hc n hn r hrec := by
    rcases mem_load.1 hn with ⟨hn, -⟩ | ⟨m, hm, rfl, rfl⟩
    · exact h.dated hc n hn r hrec
    refine Schema.upserts_forall (P := UpdatedIn c (.ofStart m.windowStart i)) ?_ ?_
      (h.dated hc m hm) r hrec
    · intro a b ha hb
      rcases merge_eq_or hc a b with e | e <;> rw [e] <;> assumption
    · intro row hrow
      obtain ⟨hfit, hin⟩ := hr row hrow
      exact ⟨row.observedAt, hfit.lastUpdated_keep, Window.contains_iff.2 hin⟩

end Series

/-! ## Stores -/

namespace Store

variable {s : Store} {c : Category} {w : Int}

/-- The series of every category is orderly for the store's own interval. -/
def Orderly (s : Store) : Prop :=
  ∀ c, Series.Orderly c s.interval (s.snapshots c)

theorem Orderly.empty (interval : Int) : (Store.empty interval).Orderly := by
  intro c
  have hnil : (Store.empty interval).snapshots c = [] := by simp [Store.empty, snapshots]
  rw [hnil]
  exact .nil c _

theorem Orderly.keyed (h : s.Orderly) : s.Keyed := fun c => (h c).toKeyed

theorem Orderly.setSnapshots (h : s.Orderly) {l : List Snapshot}
    (hl : Series.Orderly c s.interval l) : (s.setSnapshots c l).Orderly := by
  intro d
  show Series.Orderly d s.interval _
  by_cases hd : c = d
  · subst hd; rw [snapshots_setSnapshots_self]; exact hl
  · rw [snapshots_setSnapshots_of_ne s hd]; exact h d

theorem Orderly.openWindow (h : s.Orderly) (c : Category) (hw : s.interval ∣ w) :
    (s.openWindow c w).2.Orderly ∧ (s.openWindow c w).2.interval = s.interval ∧
      ∃ n ∈ (s.openWindow c w).2.snapshots c, n.windowStart = w := by
  unfold Store.openWindow
  split
  · rename_i n hn
    exact ⟨h, rfl, n, List.mem_of_find?_eq_some hn, Series.windowStart_of_at? hn⟩
  · rename_i habsent
    refine ⟨h.setSnapshots ((h c).insertFresh hw habsent), rfl, .fresh w, ?_, rfl⟩
    rw [snapshots_setSnapshots_self]
    exact Series.mem_insertSnapshot.2 (.inl rfl)

theorem openWindow_again (s : Store) (c : Category) (w : Int) :
    (s.openWindow c w).2.openWindow c w =
      (((s.openWindow c w).1.1, false), (s.openWindow c w).2) := by
  have hthere := snapshot?_openWindow s c c w w
  rw [if_pos ⟨rfl, rfl⟩, ← openWindow_fst] at hthere
  conv_lhs => rw [Store.openWindow]
  rw [hthere]

theorem write_openWindow (s : Store) (c : Category) (w : Int) {rows : List Row} (h : rows ≠ []) :
    (s.openWindow c w).2.write c w rows = s.write c w rows := by
  have hempty : rows.isEmpty = false := by simpa using h
  unfold Store.write
  rw [if_neg (by rw [hempty]; decide), if_neg (by rw [hempty]; decide), openWindow_again]

/-- **Rows that were seen in a window may be written into its snapshot**, whether or not it is there. -/
theorem Orderly.write (h : s.Orderly) (hw : s.interval ∣ w) {rows : List Row}
    (hr : ∀ row ∈ rows, Series.Fits c row ∧ w ≤ row.observedAt ∧
      row.observedAt < w + s.interval) :
    (s.write c w rows).2.Orderly ∧ (s.write c w rows).2.interval = s.interval := by
  by_cases hempty : rows = []
  · rw [hempty, write_nil]
    exact ⟨h, rfl⟩
  obtain ⟨hopen, hi, n, hn, hnw⟩ := h.openWindow c hw
  rw [← write_openWindow s c w hempty,
    write_eq (hopen c).ascending hn hnw fun row hrow => (hr row hrow).1.typed]
  exact ⟨hopen.setSnapshots ((hopen c).load (by rw [hi]; exact hr)), hi⟩

theorem Orderly.trim (h : s.Orderly) (c : Category) (depth : Nat) :
    (s.trim c depth).2.Orderly ∧ (s.trim c depth).2.interval = s.interval :=
  ⟨h.setSnapshots ((h c).drop _), rfl⟩

end Store

/-! ## Processors -/

/-- A processor is bound to a window of the grid, or to none, and what it has buffered was seen in that
window. -/
structure Processor.OnGrid (i : Int) (p : Processor) : Prop where
  window : ∀ w, p.window = some w → ∃ start, i ∣ start ∧ w = .ofStart start i
  pending : ∀ row ∈ p.pending, Series.Fits p.category row ∧
    ∃ w, p.window = some w ∧ w.contains row.observedAt = true

namespace Processor

variable {i : Int} {p : Processor} {s : Store}

theorem OnGrid.commit (h : p.OnGrid s.interval) (hs : s.Orderly) :
    (p.commit s).2.1.OnGrid s.interval ∧ (p.commit s).2.2.Orderly ∧
      (p.commit s).2.2.interval = s.interval := by
  unfold Processor.commit
  cases hw : p.window with
  | none => exact ⟨h, hs, rfl⟩
  | some w =>
    obtain ⟨start, hstart, rfl⟩ := h.window w hw
    refine ⟨⟨fun v hv => h.window v (hw ▸ hv), fun row hrow => by cases hrow⟩,
      hs.write hstart fun row hrow => ?_⟩
    obtain ⟨hfit, v, hv, hin⟩ := h.pending row hrow
    rw [hw] at hv
    cases hv
    exact ⟨hfit, Window.contains_iff.1 hin⟩

theorem OnGrid.process (h : p.OnGrid i) {e : Event} (hclaims : p.category.claims e.segments = true)
    (t : Topology) : (p.process t e).2.1.OnGrid i := by
  cases hw : p.window with
  | none =>
    rw [(p.process_window t e).2 hw]
    exact h
  | some w =>
    rw [process_eq hw hclaims]
    refine ⟨h.window, fun row hrow => ?_⟩
    rcases List.mem_append.1 hrow with hrow | hrow
    · exact h.pending row hrow
    · obtain ⟨hfit, hin⟩ := fits_of_mem_rowsFor hrow
      exact ⟨hfit, w, hw, hin⟩

end Processor

/-! ## Calls of the intake -/

namespace Intake

/-- What holds of an intake whatever windows of the grid it was bound to. -/
structure OnGrid (x : Intake) : Prop where
  processors : ∀ p ∈ x.processors, p.OnGrid x.store.interval
  store : x.store.Orderly

theorem OnGrid.bindAll {x : Intake} (h : x.OnGrid) {start : Int}
    (hstart : x.store.interval ∣ start) :
    (x.bindAll (.ofStart start x.store.interval)).OnGrid ∧
      (x.bindAll (.ofStart start x.store.interval)).store.interval = x.store.interval := by
  obtain ⟨hps, hi, hs, -⟩ := bindAll_spec (.ofStart start x.store.interval) h.store.keyed
  refine ⟨⟨fun p hp => ?_, fun c => ?_⟩, hi⟩
  · rw [hps] at hp
    obtain ⟨q, -, rfl⟩ := List.mem_map.1 hp
    rw [hi]
    exact ⟨fun w hw => ⟨start, hstart, (Option.some.inj hw).symm⟩, fun row hrow => by cases hrow⟩
  · rw [hi, hs c]
    cases maxAgeOf? c x.processors with
    | none => exact h.store c
    | some maxAge =>
      rw [Series.passed_nil_some]
      exact (h.store c).opened hstart maxAge

theorem flush_onGrid {p : Processor} {s : Store} (h : p.OnGrid s.interval) (hs : s.Orderly)
    (batch : Nat) (stats : Stats) :
    (flush batch p s stats).2.1.OnGrid s.interval ∧ (flush batch p s stats).2.2.1.Orderly ∧
      (flush batch p s stats).2.2.1.interval = s.interval := by
  have hcommit := h.commit hs
  unfold flush
  split
  · split <;> rename_i hc <;> rw [hc] at hcommit <;> exact hcommit
  · exact ⟨h, hs, rfl⟩

theorem OnGrid.dispatch {x : Intake} (h : x.OnGrid) (e : Event) :
    ((Intake.dispatch e).outcome x).2.OnGrid ∧
      ((Intake.dispatch e).outcome x).2.store.interval = x.store.interval := by
  unfold Action.outcome Intake.dispatch
  cases hcl : claimant? e x.processors with
  | none => exact ⟨⟨h.processors, h.store⟩, rfl⟩
  | some found =>
    obtain ⟨before, p, after⟩ := found
    obtain ⟨hps, hclaims, -⟩ := claimant?_eq_some hcl
    have hp := (h.processors p (by rw [hps]; simp)).process hclaims x.topology
    simp only
    generalize p.process x.topology e = out at hp ⊢
    obtain ⟨verdict, q, topology⟩ := out
    have hflush := flush_onGrid hp h.store x.batch (x.stats.addVerdict verdict)
    simp only
    generalize flush x.batch q x.store (x.stats.addVerdict verdict) = result at hflush ⊢
    obtain ⟨answer, q', store, stats⟩ := result
    obtain ⟨hq', hstore, hi⟩ := hflush
    have hall := forall_mem_replaced (hps ▸ h.processors) hq'
    cases answer <;> exact ⟨⟨by rw [hi]; exact hall, hstore⟩, hi⟩

theorem commitEach_onGrid {ps : List Processor} :
    ∀ {s : Store} (stats : Stats), (∀ p ∈ ps, p.OnGrid s.interval) → s.Orderly →
      (∀ p ∈ (commitEach ps s stats).2.1, p.OnGrid s.interval) ∧
        (commitEach ps s stats).2.2.1.Orderly ∧
        (commitEach ps s stats).2.2.1.interval = s.interval := by
  induction ps with
  | nil => exact fun stats _ hs => ⟨(fun p hp => by cases hp), hs, rfl⟩
  | cons q ps ih =>
    intro s stats h hs
    have hcommit := (h q List.mem_cons_self).commit hs
    have htail : ∀ p ∈ ps, p.OnGrid s.interval := fun p hp => h p (List.mem_cons_of_mem _ hp)
    unfold commitEach
    split <;> rename_i hc <;> rw [hc] at hcommit <;> obtain ⟨hq, hstore, hi⟩ := hcommit
    · refine ⟨fun p hp => ?_, hstore, hi⟩
      rcases List.mem_cons.1 hp with rfl | hp
      · exact hq
      · exact htail p hp
    · rename_i rows q' s'
      obtain ⟨hrest, hstore', hi'⟩ := ih (stats.addWritten q'.category rows) (hi ▸ htail) hstore
      refine ⟨fun p hp => ?_, hstore', hi'.trans hi⟩
      rcases List.mem_cons.1 hp with rfl | hp
      · exact hq
      · exact hi ▸ hrest p hp

theorem OnGrid.finish {x : Intake} (h : x.OnGrid) :
    (Intake.finish.outcome x).2.OnGrid ∧
      (Intake.finish.outcome x).2.store.interval = x.store.interval := by
  have hcommit := commitEach_onGrid x.stats h.processors h.store
  unfold Action.outcome Intake.finish
  generalize commitEach x.processors x.store x.stats = result at hcommit ⊢
  obtain ⟨answer, processors, store, stats⟩ := result
  obtain ⟨hps, hstore, hi⟩ := hcommit
  cases answer <;> exact ⟨⟨by rw [hi]; exact hps, hstore⟩, hi⟩

/-- A call of the intake, or a trim of its store. Windows are given by their number on the grid. -/
inductive GridCall where
  | bind (number : Int)
  | dispatch (e : Event)
  | finish
  | trim (c : Category) (depth : Nat)

/-- The intake after a call, whether or not the call has failed. -/
def GridCall.run (x : Intake) : GridCall → Intake
  | bind number => x.bindAll (.ofStart (x.store.interval * number) x.store.interval)
  | dispatch e => ((Intake.dispatch e).outcome x).2
  | finish => (Intake.finish.outcome x).2
  | trim c depth => { x with store := (x.store.trim c depth).2 }

/-- **Every call keeps the snapshots on the grid**, and buffers within their windows. -/
theorem GridCall.onGrid_run {x : Intake} (h : x.OnGrid) (call : GridCall) :
    (call.run x).OnGrid ∧ (call.run x).store.interval = x.store.interval := by
  cases call with
  | bind number => exact h.bindAll (Int.dvd_mul_right _ number)
  | dispatch e => exact h.dispatch e
  | finish => exact h.finish
  | trim c depth =>
    obtain ⟨hstore, hi⟩ := h.store.trim c depth
    exact ⟨⟨h.processors, hstore⟩, hi⟩

theorem onGrid_runs {x : Intake} (h : x.OnGrid) (calls : List GridCall) :
    (calls.foldl GridCall.run x).OnGrid ∧
      (calls.foldl GridCall.run x).store.interval = x.store.interval := by
  induction calls generalizing x with
  | nil => exact ⟨h, rfl⟩
  | cons call calls ih =>
    obtain ⟨hnext, hi⟩ := call.onGrid_run h
    obtain ⟨hrun, hi'⟩ := ih hnext
    exact ⟨hrun, hi'.trans hi⟩

theorem onGrid_fresh (maxAge : Int) (batch : Nat) (interval : Int) :
    (fresh (allProcessors maxAge) batch interval).OnGrid where
  processors p hp := by
    obtain ⟨c, -, rfl⟩ := List.mem_map.1 hp
    exact ⟨(fun w hw => by cases hw), fun row hrow => by cases hrow⟩
  store := .empty interval

/-- **The windows of the writer form an ordered grid**, whatever calls were made of the intake of all
categories and however its store was trimmed: a snapshot that was written to ends in its own window and
any other with it, ends ascend with the windows, strictly so where rows were seen, and the records of
samples and members were updated in the window of their snapshot. -/
theorem writerWindows_ordered (interval maxAge : Int) (batch : Nat) (calls : List GridCall)
    (c : Category) :
    let store := (calls.foldl GridCall.run (fresh (allProcessors maxAge) batch interval)).store
    (∀ n ∈ store.snapshots c, interval ∣ n.windowStart ∧
      (∀ t, n.writerEnd = some t → n.windowStart ≤ t ∧ t < n.windowStart + interval) ∧
      (n.writerEnd = none → (n.writerWindow store.interval).stop = n.windowStart + interval)) ∧
    ((store.writerWindows c).Pairwise fun v w => v.windowStart < w.windowStart ∧
      v.stop ≤ w.stop ∧ (v.observed = true → w.observed = true → v.stop < w.stop)) ∧
    (c.schema.isStartFinish = false → ∀ n ∈ store.snapshots c, ∀ r ∈ n.records,
      ∃ u, c.schema.lastUpdated r = .int u ∧
        n.windowStart ≤ u ∧ u < n.windowStart + interval) := by
  intro store
  obtain ⟨honGrid, hi⟩ := onGrid_runs (onGrid_fresh maxAge batch interval) calls
  have hi : store.interval = interval := hi
  have horderly : Series.Orderly c store.interval (store.snapshots c) := honGrid.store c
  have hordered := horderly.toPlaced.ends_ordered horderly.ascending
  rw [hi] at horderly ⊢
  refine ⟨fun n hn => ⟨horderly.grid n hn, horderly.observed n hn, fun hnone => ?_⟩, hordered,
    fun hc n hn r hr => ?_⟩
  · rw [Snapshot.writerWindow, Snapshot.windowEnd, hnone]
    rfl
  · obtain ⟨u, hu, hin⟩ := horderly.dated hc n hn r hr
    exact ⟨u, hu, Window.contains_iff.1 hin⟩

end Intake

end WindowAlign
