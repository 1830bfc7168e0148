import WindowAlign.Proofs.Number.Quotients
import WindowAlign.Proofs.Store.Blending
import WindowAlign.Proofs.Store.Calls

/-!
# Tabulating a snapshot

A projection neither loses nor duplicates what a snapshot holds. Sampled records have different keys,
so the table has one row each, with its metrics as doubles (`Schema.Listed`). The complete operations
fall into the groups of their keys (`flatMap_filter_key_perm`), the table has one row a group, and the
row is the group's summary: how many they are, the sum of their durations divided once by that number,
and the sum of each metric (`Schema.Grouped`). Putting rows of new and different keys into a table
adds just these rows (`Table.insertAll_rows`). That the sums of a group are exact is what
`Schema.exact_sumUp` says, and that its mean is a number what `Binary64.isNaN_ofInt_div` does.
-/

namespace WindowAlign

/-! ## Rows of a table -/

namespace Table

theorem insertRow_perm {k : Key} {rows : List (Key × Values)} (h : k ∉ rows.map (·.1)) (v : Values) :
    (insertRow k v rows).Perm ((k, v) :: rows) := by
  induction rows with
  | nil => exact .refl _
  | cons row rows ih =>
    rw [List.map_cons, List.mem_cons, not_or] at h
    rw [insertRow]
    split
    · exact .refl _
    · rw [if_neg h.1]
      exact ((ih h.2).cons row).trans (.swap _ _ _)

/-- **Rows of new and different keys are all added to a table.** -/
theorem insertAll_rows {l : List (Key × Values)} {t : Table}
    (h : ((l ++ t.rows).map (·.1)).Nodup) :
    ∃ t', insertAll (l.map fun p => (p.1, .ok p.2)) t = .ok t' ∧ t'.rows.Perm (l ++ t.rows) := by
  induction l generalizing t with
  | nil => exact ⟨t, rfl, .refl _⟩
  | cons p l ih =>
    have hnew : p.1 ∉ t.rows.map (·.1) := by
      rw [List.cons_append, List.map_cons, List.nodup_cons, List.map_append, List.mem_append,
        not_or] at h
      exact h.1.2
    have hrows : (l ++ (t.insert p.1 p.2).rows).Perm (p :: l ++ t.rows) :=
      ((insertRow_perm hnew p.2).append_left l).trans List.perm_middle
    obtain ⟨t', ht', hperm⟩ := ih ((hrows.map _).nodup_iff.2 h)
    exact ⟨t', ht', hperm.trans hrows⟩

theorem insertAll_empty {l : List (Key × Values)} (h : (l.map (·.1)).Nodup)
    (dimensions metrics : List String) :
    ∃ t, insertAll (l.map fun p => (p.1, .ok p.2)) (.empty dimensions metrics) = .ok t ∧
      t.rows.Perm l := by
  have hnil : l ++ (empty dimensions metrics).rows = l := List.append_nil l
  have hrows := insertAll_rows (l := l) (t := .empty dimensions metrics)
  rw [hnil] at hrows
  exact hrows h

end Table

/-- Groups by different keys that cover a list share it out. -/
theorem flatMap_filter_key_perm {α β : Type} [DecidableEq β] (f : α → β) {keys : List β}
    (hkeys : keys.Nodup) {l : List α} (hl : ∀ a ∈ l, f a ∈ keys) :
    (keys.flatMap fun k => l.filter (f · = k)).Perm l := by
  induction keys generalizing l with
  | nil =>
    cases l with
    | nil => exact .refl _
    | cons a l => exact absurd (hl a List.mem_cons_self) List.not_mem_nil
  | cons k keys ih =>
    obtain ⟨hk, hkeys⟩ := List.nodup_cons.1 hkeys
    -- what the other keys take, they take from what the first one leaves
    have hrest : ∀ k' ∈ keys,
        l.filter (f · = k') = (l.filter fun a => !decide (f a = k)).filter (f · = k') := by
      intro k' hk'
      rw [List.filter_filter]
      refine List.filter_congr fun a _ => ?_
      by_cases ha : f a = k'
      · have hne : k' ≠ k := fun e => hk (e ▸ hk')
        simp [ha, hne]
      · simp [ha]
    have hcover : ∀ a ∈ l.filter fun a => !decide (f a = k), f a ∈ keys := by
      intro a ha
      rw [List.mem_filter, Bool.not_eq_true', decide_eq_false_iff_not] at ha
      exact (List.mem_cons.1 (hl a ha.1)).resolve_left ha.2
    rw [List.flatMap_cons, List.flatMap_congr hrest]
    exact ((ih hkeys hcover).append_left _).trans (List.filter_append_perm _ _)

namespace Total

/-- The sum of the integers among some cells as a double, missing where there is none. -/
def integerSum? (cells : List Cell) : Option Float :=
  if integers cells = [] then none else some (Binary64.ofInt (sumOf (integers cells)))

theorem sum?_of_isExact {cells : List Cell} (h : (ofList cells).isExact = true) :
    (ofList cells).sum? = .ok (integerSum? cells) := by
  rw [ofList_of_isExact h, integerSum?]
  split <;> rfl

theorem integers_map_int (ns : List Int) : integers (ns.map .int) = ns := by
  unfold integers
  rw [List.filterMap_map]
  exact List.filterMap_some

/-- The mean of integers is their sum divided once by their number. -/
theorem mean?_of_isExact {ns : List Int} (hne : ns ≠ [])
    (h : (ofList (ns.map .int)).isExact = true) (hfit : Signed64.fits (sumOf ns) = true) :
    (ofList (ns.map .int)).mean? ns.length =
      some (Binary64.ofInt (sumOf ns) / Binary64.ofInt ns.length) := by
  have hlength : (0 : Int) < ns.length := by
    have := List.length_pos_of_ne_nil hne
    omega
  rw [ofList_of_isExact h, integers_map_int, if_neg hne, mean?, number?,
    Binary64.isNaN_ofInt_div hfit hlength, if_neg Bool.false_ne_true]

end Total

namespace Schema

/-! ## Groups of operations -/

/-- The complete operations of a key. -/
def groupOf (s : Schema) (k : Key) (records : List Record) : List Record :=
  (records.filter s.isComplete).filter (s.dimensionKey · = k)

/-- The time that a complete operation took. -/
def duration (s : Schema) (r : Record) : Int :=
  match s.endTime r, s.startTime r with
  | .int stop, .int start => stop - start
  | _, _ => 0

/-- The row of a group: how many operations it has, the sum of their durations divided by that number,
and for each metric the sum of those that have it. -/
def summary (s : Schema) (group : List Record) : Values :=
  some (Binary64.ofInt group.length) ::
    some (Binary64.ofInt (Total.sumOf (group.map s.duration)) / Binary64.ofInt group.length) ::
    s.metricFields.map fun f => Total.integerSum? (group.map (s.cellOf · f.name))

variable {c : Category} {records : List Record}

theorem Typed.minus_eq (hc : c.schema.isStartFinish = true) {r : Record} (h : c.schema.Typed r)
    (hr : c.schema.isComplete r = true) (hfit : ∃ n,
      (c.schema.endTime r).minus (c.schema.startTime r) = .int n ∧ Signed64.fits n = true) :
    (c.schema.endTime r).minus (c.schema.startTime r) = .int (c.schema.duration r) := by
  simp only [isComplete, Bool.and_eq_true, Bool.not_eq_true'] at hr
  obtain ⟨a, ha⟩ := h.startTime_int hc hr.1
  obtain ⟨b, hb⟩ := h.endTime_int hc hr.2
  obtain ⟨n, hn, -⟩ := hfit
  rw [duration]
  rw [ha, hb] at hn ⊢
  -- a difference that does not fit is no integer
  have hminus : (Cell.int b).minus (.int a) = if Signed64.fits (b - a) then .int (b - a) else
      Cell.ofReal (Binary64.ofInt b - Binary64.ofInt a) := rfl
  rw [hminus] at hn ⊢
  split at hn
  · rename_i hfits
    rw [if_pos hfits]
  · unfold Cell.ofReal at hn
    split at hn <;> cases hn

theorem mem_groupOf {s : Schema} {k : Key} {r : Record} : r ∈ s.groupOf k records ↔
    r ∈ records ∧ s.isComplete r = true ∧ s.dimensionKey r = k := by
  rw [groupOf, List.mem_filter, List.mem_filter, decide_eq_true_eq, and_assoc]

theorem map_minus_groupOf (hc : c.schema.isStartFinish = true) (h : ∀ r ∈ records, c.schema.Typed r)
    (hdurations : c.schema.DurationsFit records) (k : Key) :
    ((c.schema.groupOf k records).map fun r => (c.schema.endTime r).minus (c.schema.startTime r)) =
      ((c.schema.groupOf k records).map c.schema.duration).map .int := by
  rw [List.map_map]
  refine List.map_congr_left fun r hr => ?_
  obtain ⟨hmem, hcomplete, -⟩ := mem_groupOf.1 hr
  exact (h r hmem).minus_eq hc hcomplete
    (hdurations.each r (List.mem_filter.2 ⟨hmem, hcomplete⟩))

theorem sums_sumUp {s : Schema} {group : List Record} (h : (Group.sumUp s group).Exact) :
    (Group.sumUp s group).metrics.mapM Total.sum? =
      .ok (s.metricFields.map fun f => Total.integerSum? (group.map (s.cellOf · f.name))) := by
  have hmetrics := h.metrics
  rw [Group.metrics_sumUp] at hmetrics ⊢
  rw [Group.totals, List.mapM_map]
  exact mapM_of_forall_ok fun f hf =>
    Total.sum?_of_isExact (hmetrics _ (List.mem_map.2 ⟨f, hf, rfl⟩))

/-- **What a group of operations sums up to.** -/
theorem values_sumUp (hc : c.schema.isStartFinish = true) (h : ∀ r ∈ records, c.schema.Typed r)
    (hsums : c.schema.SumsFit records) (hdurations : c.schema.DurationsFit records) {k : Key}
    (hne : c.schema.groupOf k records ≠ []) :
    (Group.sumUp c.schema (c.schema.groupOf k records)).values =
      .ok (c.schema.summary (c.schema.groupOf k records)) := by
  have hminus := map_minus_groupOf hc h hdurations k
  have hfits := hdurations.sums k
  have hexact := exact_sumUp hc h hsums hdurations k
  rw [← groupOf] at hfits hexact
  have hduration := hexact.duration
  rw [hminus, Total.integers_map_int] at hfits
  rw [Group.duration_sumUp, hminus] at hduration
  have hmean := Total.mean?_of_isExact (mt List.map_eq_nil_iff.1 hne) hduration hfits.sum
  rw [List.length_map] at hmean
  rw [Group.values, sums_sumUp hexact, Group.duration_sumUp, Group.count_sumUp, hminus, hmean]
  rfl

/-! ## Projections -/

/-- The table that sampled records are projected to. -/
structure Listed (s : Schema) (records : List Record) (t : Table) : Prop where
  shaped : t.Shaped
  dimensions : t.dimensions = s.projectionDimensions
  metrics : t.metrics = s.projectedMetrics
  /-- No two records have one key. -/
  distinct : (records.map s.dimensionKey).Nodup
  /-- Each record has a row, and each row a record. -/
  rows : t.rows.Perm
    (records.map fun r => (s.dimensionKey r, (s.metricCells r).map Cell.measure?))

/-- The table that operations are projected to. -/
structure Grouped (s : Schema) (records : List Record) (t : Table) : Prop where
  shaped : t.Shaped
  dimensions : t.dimensions = s.projectionDimensions
  metrics : t.metrics = s.projectedMetrics
  /-- Each row is the summary of the complete operations of its key, and there are some. -/
  rows : ∀ row ∈ t.rows, s.groupOf row.1 records ≠ [] ∧
    row.2 = s.summary (s.groupOf row.1 records)
  /-- Each complete operation is in the group of one row, and no other operation is in any. -/
  shared : (t.rows.flatMap fun row => s.groupOf row.1 records).Perm (records.filter s.isComplete)
  /-- The numbers of the groups come to that of all complete operations. -/
  counted : (t.rows.map fun row => (s.groupOf row.1 records).length).foldl (· + ·) 0 =
    (records.filter s.isComplete).length

theorem insertSamples_rows (hdistinct : (records.map c.schema.dimensionKey).Nodup)
    (h : ∀ r ∈ records, c.schema.Typed r) (dimensions metrics : List String) :
    ∃ t, c.schema.insertSamples records (.empty dimensions metrics) = .ok t ∧
      t.rows.Perm (records.map fun r =>
        (c.schema.dimensionKey r, (c.schema.metricCells r).map Cell.measure?)) := by
  generalize hl : (records.map fun r =>
    (c.schema.dimensionKey r, (c.schema.metricCells r).map Cell.measure?)) = l
  have hkeys : l.map (·.1) = records.map c.schema.dimensionKey := by
    rw [← hl, List.map_map]
    rfl
  have hrows : (records.map fun r => (c.schema.dimensionKey r, c.schema.sampleValues r
      c.schema.projectionDimensions.length c.schema.metricFields)) =
        l.map fun p => (p.1, .ok p.2) := by
    rw [← hl, List.map_map]
    refine List.map_congr_left fun r hr => ?_
    rw [sampleValues_eq (h r hr) fun f hf => hf, Function.comp_apply, metricCells, List.map_map]
    rfl
  rw [insertSamples_eq, hrows]
  exact Table.insertAll_empty (hkeys ▸ hdistinct) dimensions metrics

theorem project_listed (hu : c.schema.Unique records) (hc : c.schema.isStartFinish = false)
    (h : ∀ r ∈ records, c.schema.Typed r) :
    ∃ t, c.schema.project records = .ok t ∧ c.schema.Listed records t := by
  have hdistinct := hu.nodup_dimensionKey hc
  obtain ⟨t, ht, hperm⟩ := insertSamples_rows hdistinct h c.schema.projectionDimensions
    c.schema.projectedMetrics
  have hok : c.schema.project records = .ok t := by
    rw [project, if_neg (by rw [hc]; exact Bool.false_ne_true)]
    exact ht
  obtain ⟨hshaped, hdimensions, hmetrics⟩ := shaped_of_project hok
  exact ⟨t, hok, hshaped, hdimensions, hmetrics, hdistinct, hperm⟩

theorem groupOf_ne_nil {k : Key}
    (h : ∃ r ∈ records.filter c.schema.isComplete, c.schema.dimensionKey r = k) :
    c.schema.groupOf k records ≠ [] := by
  obtain ⟨r, hr, hk⟩ := h
  exact List.ne_nil_of_mem (List.mem_filter.2 ⟨hr, decide_eq_true hk⟩)

theorem insertGroups_rows (hc : c.schema.isStartFinish = true) (h : ∀ r ∈ records, c.schema.Typed r)
    (hsums : c.schema.SumsFit records) (hdurations : c.schema.DurationsFit records)
    (dimensions metrics : List String) :
    ∃ t, insertGroups (Group.ofRecords c.schema (records.filter c.schema.isComplete))
        (.empty dimensions metrics) = .ok t ∧
      t.rows.Perm (((Group.ofRecords c.schema (records.filter c.schema.isComplete)).map (·.1)).map
        fun k => (k, c.schema.summary (c.schema.groupOf k records))) := by
  obtain ⟨hnodup, hkeys, hgroups⟩ :=
    Group.ofRecords_spec c.schema (records.filter c.schema.isComplete)
  generalize Group.ofRecords c.schema (records.filter c.schema.isComplete) = groups at *
  generalize hl : ((groups.map (·.1)).map fun k =>
    (k, c.schema.summary (c.schema.groupOf k records))) = l
  have hfirst : l.map (·.1) = groups.map (·.1) := by
    rw [← hl, List.map_map]
    exact List.map_id _
  have hrows : (groups.map fun p => (p.1, p.2.values)) = l.map fun p => (p.1, .ok p.2) := by
    rw [← hl, List.map_map, List.map_map]
    refine List.map_congr_left fun p hp => ?_
    have hne := groupOf_ne_nil ((hkeys p.1).1 (List.mem_map.2 ⟨p, hp, rfl⟩))
    rw [hgroups p hp, ← groupOf, values_sumUp hc h hsums hdurations hne]
    rfl
  rw [insertGroups_eq, hrows]
  exact Table.insertAll_empty (hfirst ▸ hnodup) dimensions metrics

theorem project_grouped (hc : c.schema.isStartFinish = true) (h : ∀ r ∈ records, c.schema.Typed r)
    (hsums : c.schema.SumsFit records) (hdurations : c.schema.DurationsFit records) :
    ∃ t, c.schema.project records = .ok t ∧ c.schema.Grouped records t := by
  obtain ⟨t, ht, hperm⟩ := insertGroups_rows hc h hsums hdurations c.schema.projectionDimensions
    c.schema.projectedMetrics
  obtain ⟨hnodup, hkeys, -⟩ :=
    Group.ofRecords_spec c.schema (records.filter c.schema.isComplete)
  have hok : c.schema.project records = .ok t := by
    rw [project, if_pos hc]
    exact ht
  generalize (Group.ofRecords c.schema (records.filter c.schema.isComplete)).map (·.1) = keys
    at hperm hnodup hkeys
  have hshared : (t.rows.flatMap fun row => c.schema.groupOf row.1 records).Perm
      (records.filter c.schema.isComplete) := by
    refine (hperm.flatMap_right _).trans ?_
    rw [List.flatMap_map]
    exact flatMap_filter_key_perm c.schema.dimensionKey hnodup fun r hr => (hkeys _).2 ⟨r, hr, rfl⟩
  obtain ⟨hshaped, hdimensions, hmetrics⟩ := shaped_of_project hok
  refine ⟨t, hok, hshaped, hdimensions, hmetrics, fun row hrow => ?_, hshared, ?_⟩
  · obtain ⟨k, hk, rfl⟩ := List.mem_map.1 (hperm.mem_iff.1 hrow)
    exact ⟨groupOf_ne_nil ((hkeys k).1 hk), rfl⟩
  · rw [← List.sum_eq_foldl, ← hshared.length_eq, List.length_flatMap]

end Schema

namespace Store

/-- **A projection neither loses nor duplicates data.** Sampled records are listed, each with its
metrics as they are; complete operations are grouped, where no sum and no duration leaves the
integers. -/
theorem project_tabulates {s : Store} (hs : s.Keyed) (c : Category) (w : Int)
    (h : ∀ r ∈ s.records c w, c.schema.Typed r) :
    (c.schema.isStartFinish = false →
      ∃ t, s.project c w = .ok t ∧ c.schema.Listed (s.records c w) t) ∧
    (c.schema.isStartFinish = true → c.schema.SumsFit (s.records c w) →
      c.schema.DurationsFit (s.records c w) →
        ∃ t, s.project c w = .ok t ∧ c.schema.Grouped (s.records c w) t) := by
  refine ⟨fun hc => ?_, fun hc hsums hdurations => ?_⟩
  · obtain ⟨hunique, -⟩ := hs.getD c w
    rw [← records_eq] at hunique
    exact Schema.project_listed hunique hc h
  · exact Schema.project_grouped hc h hsums hdurations

def memberRow (id : String) (address role manages : Cell) : Row where
  cells := [.text id, address, role, manages, .int 5100]
  observedAt := 5100

def requestRow (id operation : String) (code items start stop : Cell) : Row where
  cells := [.text "7", .text operation, .text id, code, .null, items, .null, .int 5200, start, stop]
  observedAt := 5200

/-- Two members, one without a role, and five requests: two of them are in one group, one in another,
and the last two have not ended or not started. -/
def mixedWindow : Store :=
  after 5000 [
    .write .clusterTopology 5000 [memberRow "n1" (.text "10.0.0.1") (.text "data") (.int 0),
      memberRow "n2" (.text "10.0.0.2") .null (.int 1)],
    .write .httpRequests 5000 [
      requestRow "a" "search" (.text "200") (.int 3) (.int 5010) (.int 5020),
      requestRow "b" "search" (.text "200") .null (.int 5015) (.int 5030),
      requestRow "c" "bulk" .null .null (.int 5040) (.int 5100),
      requestRow "d" "search" .null .null (.int 5050) .null,
      requestRow "e" "search" (.text "200") (.int 9) .null (.int 5060)]]

theorem project_tabulates_mixedWindow :
    (∃ t, mixedWindow.project .clusterTopology 5000 = .ok t ∧
      Category.clusterTopology.schema.Listed (mixedWindow.records .clusterTopology 5000) t) ∧
    ∃ t, mixedWindow.project .httpRequests 5000 = .ok t ∧
      Category.httpRequests.schema.Grouped (mixedWindow.records .httpRequests 5000) t :=
  ⟨(project_tabulates (keyed_after 5000 _) .clusterTopology 5000 (by decide)).1 (by decide),
    (project_tabulates (keyed_after 5000 _) .httpRequests 5000 (by decide)).2 (by decide) (by decide)
      (by decide)⟩

end Store

end WindowAlign
