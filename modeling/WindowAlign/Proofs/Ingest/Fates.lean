import WindowAlign.Proofs.Ingest.Pass
import WindowAlign.Proofs.Store.Calls
import WindowAlign.Proofs.Store.Merging

/-!
# The fates of events

Each event of a pass has one fate, given by the categories that have a processor, the window and the
event: nobody claims it, it is stale, it is rejected for one kind of reason, or it is accepted with
some rows. The counters of a pass are the numbers of its events by their fates, and every row that is
accepted reaches the snapshot of its category. What that snapshot holds besides was there before, or
was taken over when the snapshot was created (`Intake.run_accounts`).
-/

namespace WindowAlign

namespace Event

variable {cs : List Category} {c : Category} {w : Window} {e : Event}

theorem mem_of_fate_accepted {rows : List Row} (h : e.fate cs w = .accepted c rows) : c ∈ cs := by
  cases hfind : cs.find? (·.claims e.segments) with
  | none => rw [fate_of_find?_none hfind] at h; cases h
  | some d =>
    rw [fate_of_find?_some hfind] at h
    split at h <;> cases h
    exact List.mem_of_find?_eq_some hfind

/-- **The rows that a processor takes are those of accepted events.** -/
theorem mem_rowsFor_iff (hc : c ∈ cs) {row : Row} :
    row ∈ e.rowsFor c w ↔ ∃ rows, e.fate cs w = .accepted c rows ∧ row ∈ rows := by
  cases hclaims : c.claims e.segments with
  | false =>
    rw [rowsFor_of_not_claims hclaims]
    constructor
    · intro h; cases h
    rintro ⟨rows, hfate, -⟩
    cases hfind : cs.find? (·.claims e.segments) with
    | none => rw [fate_of_find?_none hfind] at hfate; cases hfate
    | some d =>
      have hd : d.claims e.segments = true := by simpa using List.find?_some hfind
      rw [fate_of_find?_some hfind] at hfate
      split at hfate <;> cases hfate
      rw [hclaims] at hd
      cases hd
  | true =>
    rw [fate_of_claims hc hclaims]
    cases hv : e.verdictFor c w with
    | buffered n =>
      constructor
      · exact fun h => ⟨_, rfl, h⟩
      · rintro ⟨rows, hrows, h⟩
        cases hrows
        exact h
    | stale t =>
      rw [rowsFor_of_verdict hclaims (by rw [hv]; intro n hn; cases hn)]
      simp
    | rejected cause =>
      rw [rowsFor_of_verdict hclaims (by rw [hv]; intro n hn; cases hn)]
      simp

end Event

/-! ## Counters -/

namespace Stats

variable {cs : List Category} {w : Window} {es : List Event}

def rowsOfAll (s : Stats) : Nat :=
  (Category.all.map s.rowsOf).foldl (· + ·) 0

theorem rowsOfAll_add (a b : Stats) : (a.add b).rowsOfAll = a.rowsOfAll + b.rowsOfAll := by
  simp only [rowsOfAll, Category.all, List.map_cons, List.map_nil, List.foldl_cons, List.foldl_nil,
    rowsOf_add]
  omega

theorem totalRejections_eq (s : Stats) :
    s.totalRejections = (RejectionKind.all.map s.rejectionsOf).foldl (· + ·) 0 := by
  obtain ⟨events, written, rows, stale, ⟨⟨kinds⟩, h⟩, unclaimed⟩ := s
  match kinds, h with
  | [a, b, c, d, e], _ => rfl

theorem totalRejections_add (a b : Stats) :
    (a.add b).totalRejections = a.totalRejections + b.totalRejections := by
  simp only [totalRejections_eq, RejectionKind.all, List.map_cons, List.map_nil, List.foldl_cons,
    List.foldl_nil, rejectionsOf_add]
  omega

theorem rowsWritten_ofPass :
    (ofPass cs w es).rowsWritten = (es.flatMap fun e => (e.fate cs w).rows).length := by
  induction es with
  | nil => rfl
  | cons e es ih =>
    rw [ofPass_cons, rowsWritten_add, ih, Fate.rowsWritten_tally, List.flatMap_cons,
      List.length_append]

/-- **Every event has one fate**, and is counted once or accepted. -/
theorem events_ofPass : (ofPass cs w es).events =
    (ofPass cs w es).unclaimed + (ofPass cs w es).stale + (ofPass cs w es).totalRejections +
      es.countP fun e => (e.fate cs w).isAccepted := by
  have hfate : ∀ f : Fate, f.tally.unclaimed + f.tally.stale + f.tally.totalRejections +
      (if f.isAccepted then 1 else 0) = 1 := by
    intro f
    cases f with
    | rejected kind => cases kind <;> rfl
    | _ => rfl
  induction es with
  | nil => rfl
  | cons e es ih =>
    have := hfate (e.fate cs w)
    rw [ofPass_cons, events_add, unclaimed_add, stale_add, totalRejections_add, Fate.events_tally,
      List.countP_cons, ih]
    omega

theorem rowsOfAll_ofPass : (ofPass cs w es).rowsOfAll = (ofPass cs w es).rowsWritten := by
  have hfate : ∀ f : Fate, f.tally.rowsOfAll = f.tally.rowsWritten := by
    intro f
    cases f with
    | accepted c rows =>
      have hnone : ∀ d, (zero.addVerdict (.buffered rows.length)).rowsOf d = 0 := rowsOf_zero
      have hwritten : (Fate.accepted c rows).tally.rowsWritten = rows.length := Nat.zero_add _
      rw [hwritten]
      simp only [Fate.tally, rowsOfAll, Category.all, List.map_cons, List.map_nil, List.foldl_cons,
        List.foldl_nil, rowsOf_addWritten, hnone]
      cases c <;> simp
    | rejected kind => rfl
    | _ => rfl
  induction es with
  | nil => rfl
  | cons e es ih => rw [ofPass_cons, rowsOfAll_add, rowsWritten_add, hfate, ih]

theorem foldl_rowsByCategory (s : Stats) :
    (s.rowsByCategory.map (·.2)).foldl (· + ·) 0 = s.rowsOfAll := by
  have hfilter : ∀ (l : List (Category × Nat)) (n : Nat),
      ((l.filter (0 < ·.2)).map (·.2)).foldl (· + ·) n = (l.map (·.2)).foldl (· + ·) n := by
    intro l
    induction l with
    | nil => exact fun n => rfl
    | cons x l ih =>
      intro n
      by_cases hx : 0 < x.2
      · rw [List.filter_cons_of_pos (by simpa using hx), List.map_cons, List.foldl_cons, ih,
          List.map_cons, List.foldl_cons]
      · have hzero : x.2 = 0 := by omega
        rw [List.filter_cons_of_neg (by simpa using hx), ih, List.map_cons, List.foldl_cons, hzero,
          Nat.add_zero]
  rw [rowsByCategory, hfilter, List.map_map]
  rfl

theorem pos_of_mem_rowsByCategory {s : Stats} {x : Category × Nat} (h : x ∈ s.rowsByCategory) :
    0 < x.2 := by
  have := (List.mem_filter.1 h).2
  simpa using this

end Stats

/-! ## Identities -/

namespace Store

/-- The snapshot of a window holds a record of an identity. -/
def Holds (s : Store) (c : Category) (w : Int) (k : List String) : Prop :=
  ∃ r ∈ s.records c w, c.schema.identity r = k

/-- A snapshot is created for the window, by a processor with a bound on the age, and takes over a
record of an identity from the one before: the record of an open operation that is not too old. -/
def CarriesInto (s : Store) (c : Category) (maxAge? : Option Int) (w : Int) (k : List String) :
    Prop :=
  s.snapshot? c w = none ∧ c.schema.isStartFinish = true ∧
    ∃ maxAge, maxAge? = some maxAge ∧ ∃ p, s.previous? c w = some p ∧
      ∃ r ∈ p.records, c.schema.isOpen r = true ∧ c.schema.startedSince (w - maxAge) r = true ∧
        c.schema.identity r = k

end Store

namespace Series

variable {c : Category} {w : Int} {l : List Snapshot}

theorem mem_inherited {maxAge : Int} {r : Record} :
    r ∈ inherited c maxAge w l ↔ c.schema.isStartFinish = true ∧
      ∃ p, before? w l = some p ∧ r ∈ p.records ∧ c.schema.isOpen r = true ∧
        c.schema.startedSince (w - maxAge) r = true := by
  unfold inherited
  cases before? w l with
  | none => simp
  | some p =>
    cases hc : c.schema.isStartFinish with
    | false => simp
    | true => simp [Schema.mem_carriable]

theorem at?_opened {maxAge : Int} (h : Ascending l) :
    at? w (opened c maxAge w l) = some ((at? w l).getD ⟨w, none, inherited c maxAge w l⟩) := by
  unfold opened
  cases hat : at? w l with
  | some n => rw [hat, Option.getD_some]
  | none =>
    refine (at?_eq_some (h.insertSnapshot (at?_eq_none.1 hat))).2 ⟨?_, rfl⟩
    exact mem_insertSnapshot.2 (.inl rfl)

theorem at?_load (h : Ascending l) {n : Snapshot} (hn : at? w l = some n) (rows : List Row) :
    at? w (load c w rows l) = some (n.load c rows) := by
  obtain ⟨hmem, hw⟩ := (at?_eq_some h).1 hn
  exact (at?_eq_some (h.load c w rows)).2 ⟨mem_load.2 (.inr ⟨n, hmem, hw, rfl⟩), hw⟩

end Series

/-- **Writing adds the identities of its rows and no others.** -/
theorem Schema.mem_identity_upserts {c : Category} {rows : List Row}
    (hr : ∀ row ∈ rows, c.schema.Typed row.cells) {l : List Record}
    (hl : ∀ a ∈ l, c.schema.Stored a) {k : List String} :
    (∃ r ∈ c.schema.upserts rows l, c.schema.identity r = k) ↔
      (∃ row ∈ rows, c.schema.identity row.cells = k) ∨ ∃ r ∈ l, c.schema.identity r = k := by
  induction rows generalizing l with
  | nil => simp [upserts]
  | cons row rows ih =>
    have hrow := (hr row List.mem_cons_self).keep.stored
    have hone : (∃ r ∈ c.schema.upsert (c.schema.keep row.cells) l, c.schema.identity r = k) ↔
        c.schema.identity row.cells = k ∨ ∃ r ∈ l, c.schema.identity r = k := by
      rw [← List.mem_map, ← List.mem_map, map_identity_upsert hrow hl,
        identity_keep (hr row List.mem_cons_self)]
      split
      · rename_i hpresent
        exact ⟨.inr, fun h => h.elim (fun e => e ▸ hpresent) id⟩
      · rw [List.mem_append, List.mem_singleton, or_comm, eq_comm]
    rw [upserts_cons, ih (fun row h => hr row (List.mem_cons_of_mem _ h)) (upsert_stored hrow hl),
      hone]
    simp only [List.mem_cons, exists_eq_or_imp, or_assoc]
    exact or_left_comm

theorem Store.holds_opened {s : Store} {c : Category} {maxAge w : Int} {k : List String} :
    (∃ r ∈ ((Series.at? w (s.snapshots c)).getD
        ⟨w, none, Series.inherited c maxAge w (s.snapshots c)⟩).records, c.schema.identity r = k) ↔
      s.CarriesInto c (some maxAge) w k ∨ s.Holds c w k := by
  unfold CarriesInto Holds
  rw [records_eq, snapshot?_eq, previous?_eq]
  cases Series.at? w (s.snapshots c) with
  | some m => simp
  | none =>
    rw [Option.getD_none, Option.getD_none]
    constructor
    · rintro ⟨r, hr, hk⟩
      obtain ⟨hstart, p, hp, hmem, hopen, hsince⟩ := Series.mem_inherited.1 hr
      exact .inl ⟨rfl, hstart, maxAge, rfl, p, hp, r, hmem, hopen, hsince, hk⟩
    · rintro (⟨-, hstart, _, hsame, p, hp, r, hmem, hopen, hsince, hk⟩ | ⟨r, hr, -⟩)
      · cases hsame
        exact ⟨r, Series.mem_inherited.2 ⟨hstart, p, hp, hmem, hopen, hsince⟩, hk⟩
      · cases hr

theorem Series.records_passed {c : Category} {l : List Snapshot} (h : Keyed c l) (maxAge : Int)
    (w : Window) (es : List Event) :
    ∃ n ∈ opened c maxAge w.start l,
      n = (at? w.start l).getD ⟨w.start, none, inherited c maxAge w.start l⟩ ∧
      ((at? w.start (passed c (some maxAge) w es l)).map (·.records)).getD [] =
        c.schema.upserts (es.flatMap (·.rowsFor c w)) n.records := by
  have hat : at? w.start (opened c maxAge w.start l) = _ := at?_opened h.ascending
  have hasc : Ascending (opened c maxAge w.start l) := h.opened.ascending
  refine ⟨_, ((at?_eq_some hasc).1 hat).1, rfl, ?_⟩
  rw [passed, at?_load hasc hat]
  rfl

namespace Intake

/-- **What a pass leaves in the snapshot of its window**: the identities of the rows that were
accepted, those that were taken over, and those that were there before. -/
theorem Passed.holds_iff {w : Window} {es : List Event} {i i' : Intake} (h : Passed w es i i')
    (hs : i.store.Keyed) (c : Category) (k : List String) :
    i'.store.Holds c w.start k ↔
      (∃ e ∈ es, ∃ rows, e.fate i.categories w = .accepted c rows ∧
        ∃ row ∈ rows, c.schema.identity row.cells = k) ∨
      i.store.CarriesInto c (maxAgeOf? c i.processors) w.start k ∨ i.store.Holds c w.start k := by
  have hafter : i'.store.Holds c w.start k ↔ ∃ r ∈ ((Series.at? w.start
      (Series.passed c (maxAgeOf? c i.processors) w es (i.store.snapshots c))).map
        (·.records)).getD [], c.schema.identity r = k := by
    rw [← h.snapshots c]
    rfl
  rw [hafter]
  cases hage : maxAgeOf? c i.processors with
  | none =>
    have hc : c ∉ i.categories := maxAgeOf?_eq_none.1 hage
    constructor
    · exact fun hk => .inr (.inr hk)
    · rintro (⟨e, -, rows, hfate, -⟩ | ⟨-, -, maxAge, hnone, -⟩ | hk)
      · exact absurd (Event.mem_of_fate_accepted hfate) hc
      · cases hnone
      · exact hk
  | some maxAge =>
    have hc : c ∈ i.categories := by
      by_contra hc
      rw [maxAgeOf?_eq_none.2 hc] at hage
      cases hage
    obtain ⟨n, hn, hopened, hrecords⟩ :=
      Series.records_passed (hs c) maxAge w es
    have htyped : ∀ row ∈ es.flatMap (·.rowsFor c w), c.schema.Typed row.cells := fun row hrow => by
      obtain ⟨e, -, hrow⟩ := List.mem_flatMap.1 hrow
      exact (fits_of_mem_rowsFor hrow).1.typed
    have haccepted : (∃ row ∈ es.flatMap (·.rowsFor c w), c.schema.identity row.cells = k) ↔
        ∃ e ∈ es, ∃ rows, e.fate i.categories w = .accepted c rows ∧
          ∃ row ∈ rows, c.schema.identity row.cells = k := by
      simp only [List.mem_flatMap, Event.mem_rowsFor_iff hc]
      constructor
      · rintro ⟨row, ⟨e, he, rows, hfate, hrow⟩, hk⟩
        exact ⟨e, he, rows, hfate, row, hrow, hk⟩
      · rintro ⟨e, he, rows, hfate, row, hrow, hk⟩
        exact ⟨row, ⟨e, he, rows, hfate, hrow⟩, hk⟩
    rw [hrecords, Schema.mem_identity_upserts htyped ((hs c).opened.stored n hn), haccepted, hopened,
      Store.holds_opened]

/-- **A pass never fails on what its events hold, and accounts for every one of them.** Whatever the
calls that made the store, and whatever processors, batch size and published list there are: where the
source answers, the pass succeeds. It counts each listed event once, as claimed by nobody, stale,
rejected for one kind of reason, or accepted; the rows written are the rows of the accepted blocks, and
the sum of the rows of the categories that are listed, each of which has some. Afterwards the snapshot
of a category holds the identities of the rows accepted for it, and no others but those that were taken
over when it was created and those that were there before. -/
theorem run_accounts (i : Intake) (interval : Int) (calls : List Store.Call) {w : Window}
    {source : Source} {es : List Event} (hs : source w.start = .ok es) :
    ∃ stats after,
      Intake.run source w { i with store := .after interval calls } = .ok stats after ∧
      stats.events = es.length ∧
      stats.unclaimed = es.countP (fun e => (e.fate i.categories w).isUnclaimed) ∧
      stats.stale = es.countP (fun e => (e.fate i.categories w).isStale) ∧
      (∀ k, stats.rejectionsOf k = es.countP fun e => (e.fate i.categories w).isRejected k) ∧
      stats.events = stats.unclaimed + stats.stale + stats.totalRejections +
        es.countP (fun e => (e.fate i.categories w).isAccepted) ∧
      stats.rowsWritten = (es.flatMap fun e => (e.fate i.categories w).rows).length ∧
      stats.rowsWritten = (stats.rowsByCategory.map (·.2)).foldl (· + ·) 0 ∧
      (∀ x ∈ stats.rowsByCategory, 0 < x.2) ∧
      ∀ c k, after.store.Holds c w.start k ↔
        (∃ e ∈ es, ∃ rows, e.fate i.categories w = .accepted c rows ∧
          ∃ row ∈ rows, c.schema.identity row.cells = k) ∨
        (Store.after interval calls).CarriesInto c (maxAgeOf? c i.processors) w.start k ∨
        (Store.after interval calls).Holds c w.start k := by
  have hkeyed := Store.keyed_after interval calls
  obtain ⟨after, hrun, hpassed⟩ :=
    run_spec (w := w) (i := { i with store := .after interval calls }) hkeyed hs
  refine ⟨_, after, hrun, Stats.events_ofPass_length, ?_, ?_, fun k => ?_, Stats.events_ofPass,
    Stats.rowsWritten_ofPass, ?_, fun x => Stats.pos_of_mem_rowsByCategory, hpassed.holds_iff hkeyed⟩
  · exact Stats.countP_ofPass (·.unclaimed) rfl Stats.unclaimed_add Fate.unclaimed_tally
  · exact Stats.countP_ofPass (·.stale) rfl Stats.stale_add Fate.stale_tally
  · exact Stats.countP_ofPass (·.rejectionsOf k) (Stats.rejectionsOf_zero k)
      (fun a b => Stats.rejectionsOf_add a b k) fun f => f.rejectionsOf_tally k
  · rw [Stats.foldl_rowsByCategory, Stats.rowsOfAll_ofPass]

/-- A note of nobody's, a request that starts after the window, a sample that is no number, and the
start of a search. -/
def mixedBucket : List Event :=
  [⟨"notes/today", "to do"⟩,
    ⟨"threads/7/http/search/r1/start", "\x7b\"current_time\":9000\x7d\n"⟩,
    ⟨"threads/7/os_metrics", "\x7b\"current_time\":2000\x7d\nCPU_Utilization:high\n"⟩,
    ⟨"threads/7/http/search/r2/start", "\x7b\"current_time\":1000\x7d\n"⟩]

/-- Each of the four has another fate. -/
theorem run_accounts_mixedBucket :
    let source : Source := fun _ => .ok mixedBucket
    let i := fresh (allProcessors 15000) 500 5000
    source 0 = .ok mixedBucket ∧
      ∃ stats after,
        Intake.run source ⟨0, 5000⟩ { i with store := .after 5000 [] } = .ok stats after ∧
        stats.events = 4 ∧ stats.unclaimed = 1 ∧ stats.stale = 1 ∧
        stats.rejectionsOf .badNumber = 1 ∧ stats.rowsWritten = 1 ∧
        after.store.Holds .httpRequests 0 ["7", "search", "r2"] := by
  intro source i
  obtain ⟨stats, after, hrun, hevents, hunclaimed, hstale, hrejected, -, hrows, -, -, hholds⟩ :=
    run_accounts i 5000 [] (w := ⟨0, 5000⟩) (rfl : source 0 = .ok mixedBucket)
  refine ⟨rfl, stats, after, hrun, hevents, ?_, ?_, ?_, ?_, (hholds _ _).2 (.inl ?_)⟩
  · rw [hunclaimed]; decide +kernel
  · rw [hstale]; decide +kernel
  · rw [hrejected]; decide +kernel
  · rw [hrows]; decide +kernel
  · have hread : ∃ e ∈ mixedBucket, ∃ row ∈ e.rowsFor .httpRequests ⟨0, 5000⟩,
        Category.httpRequests.schema.identity row.cells = ["7", "search", "r2"] := by
      decide +kernel
    obtain ⟨e, he, row, hrow, hk⟩ := hread
    have hc : Category.httpRequests ∈ i.categories := by decide
    obtain ⟨rows, hfate, hmem⟩ := (Event.mem_rowsFor_iff hc).1 hrow
    exact ⟨e, he, rows, hfate, row, hmem, hk⟩

end Intake

end WindowAlign
