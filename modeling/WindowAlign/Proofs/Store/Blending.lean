import WindowAlign.Alignment
import WindowAlign.Proofs.Keyed
import WindowAlign.Proofs.Number.Positive
import WindowAlign.Proofs.Store.Regrouping

/-!
# Blended tables

A projection is `Shaped`: its keys ascend, and each of its rows has a value for every metric
(`Schema.shaped_of_project`). What two such tables are blended to is shaped again. It has a row of each
key that one of them has (`Table.find?_interpolate`), and where both have the key each metric is weighed
by the times from the start of the window to the cutover and from there to its end
(`Table.interpolate_blended`), if the length of the window fits into a word. The weights come to more
than zero in every window that is not empty, also after they were rounded to doubles.
-/

namespace WindowAlign

namespace Table

/-! ## Looking up a key -/

theorem find?_cons (k : Key) (row : Key × Values) (rows : List (Key × Values)) :
    find? k (row :: rows) = if row.1 = k then some row.2 else find? k rows := by
  rw [find?, Keyed.lookup_cons, find?]
  simp only [eq_comm]

theorem find?_insertRow (a k : Key) (v : Values) (rows : List (Key × Values)) :
    find? k (insertRow a v rows) = if a = k then some v else find? k rows := by
  induction rows with
  | nil => rw [insertRow, find?_cons]
  | cons row rows ih =>
    rw [insertRow]
    split
    · rw [find?_cons]
    split
    · rename_i hsame
      rw [find?_cons, find?_cons, ← hsame]
      by_cases hk : a = k
      · rw [if_pos hk, if_pos hk]
      · rw [if_neg hk, if_neg hk, if_neg hk]
    · rename_i hne
      rw [find?_cons, find?_cons, ih]
      by_cases hk : row.1 = k
      · rw [if_pos hk, if_pos hk, if_neg fun e => hne (e.trans hk.symm)]
      · rw [if_neg hk, if_neg hk]

theorem find?_addMissing (k : Key) (rows others : List (Key × Values)) :
    find? k (addMissing rows others) = (find? k rows).or (find? k others) := by
  unfold addMissing
  induction others generalizing rows with
  | nil => simp [find?]
  | cons row others ih =>
    rw [List.foldl_cons, ih, find?_cons]
    split
    · rename_i hthere
      by_cases hk : row.1 = k
      · obtain ⟨v, hv⟩ := Option.isSome_iff_exists.1 hthere
        rw [← hk, hv, Option.some_or, Option.some_or]
      · rw [if_neg hk]
    · rename_i hnew
      rw [find?_insertRow]
      by_cases hk : row.1 = k
      · rw [← hk, Option.not_isSome_iff_eq_none.1 hnew, if_pos rfl, if_pos rfl, Option.some_or,
          Option.none_or]
      · rw [if_neg hk, if_neg hk]

theorem find?_blendRows (l r : Float) (k : Key) (left right : List (Key × Values)) :
    find? k (blendRows l r left right) = (find? k left).map fun v =>
      match find? k right with
      | none => v
      | some u => List.zipWith (blendValue l r) v u := by
  unfold blendRows
  induction left with
  | nil => rfl
  | cons row left ih =>
    rw [List.map_cons, find?_cons, find?_cons, ih]
    cases hright : find? row.1 right with
    | none =>
      by_cases hk : row.1 = k
      · simp only [hk] at hright ⊢
        simp [hright]
      · simp [hk]
    | some u =>
      by_cases hk : row.1 = k
      · simp only [hk] at hright ⊢
        simp [hright]
      · simp [hk]

/-! ## The shape of a table -/

/-- Keys ascend, and each row has a value for every metric. -/
structure Shaped (t : Table) : Prop where
  ascending : t.rows.Pairwise (·.1 < ·.1)
  width : ∀ row ∈ t.rows, row.2.length = t.metrics.length

theorem mem_insertRow {a : Key} {v : Values} {rows : List (Key × Values)} {row : Key × Values}
    (h : row ∈ insertRow a v rows) : row = (a, v) ∨ row ∈ rows := by
  induction rows with
  | nil => exact .inl (List.mem_singleton.1 h)
  | cons first rows ih =>
    rw [insertRow] at h
    split at h
    · exact List.mem_cons.1 h
    split at h
    · exact (List.mem_cons.1 h).imp_right (List.mem_cons_of_mem _)
    · rcases List.mem_cons.1 h with rfl | h
      · exact .inr List.mem_cons_self
      · exact (ih h).imp_right (List.mem_cons_of_mem _)

theorem ascending_insertRow {rows : List (Key × Values)} (h : rows.Pairwise (·.1 < ·.1)) (a : Key)
    (v : Values) : (insertRow a v rows).Pairwise (·.1 < ·.1) := by
  induction rows with
  | nil => exact List.pairwise_singleton ..
  | cons row rows ih =>
    obtain ⟨k, u⟩ := row
    obtain ⟨hfirst, hrows⟩ := List.pairwise_cons.1 h
    rcases key_trichotomy a k with hlt | rfl | hgt
    · rw [insertRow_of_lt hlt]
      refine List.pairwise_cons.2 ⟨fun row hrow => ?_, h⟩
      rcases List.mem_cons.1 hrow with rfl | hrow
      · exact hlt
      · exact List.lt_trans hlt (hfirst row hrow)
    · rw [insertRow_self]
      exact List.pairwise_cons.2 ⟨hfirst, hrows⟩
    · rw [insertRow_of_gt hgt]
      refine List.pairwise_cons.2 ⟨fun row hrow => ?_, ih hrows⟩
      rcases mem_insertRow hrow with rfl | hrow
      · exact hgt
      · exact hfirst row hrow

theorem shaped_empty (dimensions metrics : List String) : (empty dimensions metrics).Shaped :=
  ⟨List.Pairwise.nil, fun row hrow => by cases hrow⟩

theorem Shaped.insert {t : Table} (h : t.Shaped) {v : Values} (hv : v.length = t.metrics.length)
    (k : Key) : (t.insert k v).Shaped := by
  refine ⟨ascending_insertRow h.ascending k v, fun row hrow => ?_⟩
  rcases mem_insertRow hrow with rfl | hrow
  · exact hv
  · exact h.width row hrow

theorem Shaped.insertAll {l : List (Key × Except StorageFault Values)} {t t' : Table}
    (h : t.Shaped) (hl : ∀ p ∈ l, ∀ v, p.2 = .ok v → v.length = t.metrics.length)
    (e : insertAll l t = .ok t') :
    t'.Shaped ∧ t'.dimensions = t.dimensions ∧ t'.metrics = t.metrics := by
  induction l generalizing t with
  | nil =>
    cases e
    exact ⟨h, rfl, rfl⟩
  | cons p l ih =>
    obtain ⟨k, values⟩ := p
    cases values with
    | error fault => cases e
    | ok v =>
      have hv := hl _ List.mem_cons_self v rfl
      have hrest := ih (h.insert hv k) (fun p hp => hl p (List.mem_cons_of_mem _ hp)) e
      exact hrest

theorem map_fst_blendRows (l r : Float) (left right : List (Key × Values)) :
    (blendRows l r left right).map (·.1) = left.map (·.1) := by
  unfold blendRows
  rw [List.map_map]
  refine List.map_congr_left fun row _ => ?_
  rw [Function.comp_apply]
  cases find? row.1 right <;> rfl

theorem mem_of_find? {k : Key} {v : Values} {rows : List (Key × Values)}
    (h : find? k rows = some v) : (k, v) ∈ rows := by
  induction rows with
  | nil => cases h
  | cons row rows ih =>
    rw [find?_cons] at h
    split at h
    · rename_i hk
      cases h
      exact hk ▸ List.mem_cons_self
    · exact List.mem_cons_of_mem _ (ih h)

theorem mem_addMissing {rows others : List (Key × Values)} {row : Key × Values}
    (h : row ∈ addMissing rows others) : row ∈ rows ∨ row ∈ others := by
  unfold addMissing at h
  induction others generalizing rows with
  | nil => exact .inl h
  | cons other others ih =>
    rw [List.foldl_cons] at h
    rcases ih h with h | h
    · split at h
      · exact .inl h
      · exact (mem_insertRow h).elim (fun e => .inr (e ▸ List.mem_cons_self)) .inl
    · exact .inr (List.mem_cons_of_mem _ h)

theorem ascending_addMissing {rows : List (Key × Values)} (h : rows.Pairwise (·.1 < ·.1))
    (others : List (Key × Values)) : (addMissing rows others).Pairwise (·.1 < ·.1) := by
  unfold addMissing
  induction others generalizing rows with
  | nil => exact h
  | cons other others ih =>
    rw [List.foldl_cons]
    split
    · exact ih h
    · exact ih (ascending_insertRow h _ _)

theorem Shaped.interpolate {left right : Table} (hl : left.Shaped) (hr : right.Shaped)
    (hm : right.metrics = left.metrics) (window : Window) (cutover : Int) :
    (left.interpolate right window cutover).Shaped := by
  refine ⟨ascending_addMissing ?_ _, fun row hrow => ?_⟩
  · have hkeys := List.pairwise_map.2 hl.ascending
    rw [← map_fst_blendRows] at hkeys
    exact List.pairwise_map.1 hkeys
  · rcases mem_addMissing hrow with hrow | hrow
    · obtain ⟨row, hmem, rfl⟩ := List.mem_map.1 hrow
      have hwidth := hl.width row hmem
      cases hother : find? row.1 right.rows with
      | none => exact hwidth
      | some u =>
        have hu : u.length = left.metrics.length := hm ▸ hr.width _ (mem_of_find? hother)
        show (List.zipWith _ row.2 u).length = left.metrics.length
        rw [List.length_zipWith, hwidth, hu, Nat.min_self]
    · exact (hr.width row hrow).trans (congrArg List.length hm)

end Table

/-! ## The shape of a projection -/

namespace Total

theorem length_of_mapM_sum? {ts : List Total} {vs : List (Option Float)}
    (h : ts.mapM sum? = .ok vs) : vs.length = ts.length := by
  induction ts generalizing vs with
  | nil =>
    cases h
    rfl
  | cons t ts ih =>
    rw [List.mapM_cons] at h
    cases ht : t.sum? with
    | error e => rw [ht] at h; cases h
    | ok v =>
      cases hts : ts.mapM sum? with
      | error e => rw [ht, hts] at h; cases h
      | ok rest =>
        rw [ht, hts] at h
        cases h
        rw [List.length_cons, List.length_cons, ih hts]

end Total

namespace Schema

theorem length_sampleValues {s : Schema} {r : Record} {fields : List Field} :
    ∀ {i : Nat} {vs : Values}, s.sampleValues r i fields = .ok vs → vs.length = fields.length := by
  induction fields with
  | nil =>
    intro i vs h
    cases h
    rfl
  | cons f fields ih =>
    intro i vs h
    rw [sampleValues] at h
    cases hv : metricValue i f.name (s.cellOf r f.name) with
    | error e => rw [hv] at h; cases h
    | ok v =>
      rw [hv] at h
      cases hrest : s.sampleValues r (i + 1) fields with
      | error e => simp only [hrest] at h; cases h
      | ok rest =>
        simp only [hrest] at h
        cases h
        rw [List.length_cons, List.length_cons, ih hrest]

theorem length_groupValues {s : Schema} {records : List Record} {v : Values}
    (h : (Group.sumUp s records).values = .ok v) : v.length = s.metricFields.length + 2 := by
  unfold Group.values at h
  cases hsums : (Group.sumUp s records).metrics.mapM Total.sum? with
  | error e => rw [hsums] at h; cases h
  | ok sums =>
    rw [hsums] at h
    cases h
    have hlength := Total.length_of_mapM_sum? hsums
    rw [Group.metrics_sumUp, Group.totals, List.length_map] at hlength
    rw [List.length_cons, List.length_cons, hlength]

theorem length_projectedMetrics (s : Schema) : s.projectedMetrics.length =
    if s.isStartFinish then s.metricFields.length + 2 else s.metricFields.length := by
  unfold projectedMetrics
  cases s.isStartFinish <;> simp

/-- **A projection is shaped**, and it has the dimensions and the metrics of its category. -/
theorem shaped_of_project {s : Schema} {records : List Record} {t : Table}
    (h : s.project records = .ok t) :
    t.Shaped ∧ t.dimensions = s.projectionDimensions ∧ t.metrics = s.projectedMetrics := by
  have hempty := Table.shaped_empty s.projectionDimensions s.projectedMetrics
  unfold project at h
  cases hc : s.isStartFinish with
  | true =>
    rw [hc, if_pos rfl, insertGroups_eq] at h
    refine hempty.insertAll (fun p hp v hv => ?_) h
    obtain ⟨⟨k, g⟩, hg, rfl⟩ := List.mem_map.1 hp
    obtain ⟨-, -, hgroups⟩ := Group.ofRecords_spec s (records.filter s.isComplete)
    have hsum : g = _ := hgroups _ hg
    rw [hsum] at hv
    show v.length = s.projectedMetrics.length
    rw [length_groupValues hv, length_projectedMetrics, hc, if_pos rfl]
  | false =>
    rw [hc, if_neg Bool.false_ne_true, insertSamples_eq] at h
    refine hempty.insertAll (fun p hp v hv => ?_) h
    obtain ⟨r, -, rfl⟩ := List.mem_map.1 hp
    show v.length = s.projectedMetrics.length
    rw [length_sampleValues hv, length_projectedMetrics, hc, if_neg Bool.false_ne_true]

end Schema

/-! ## Weighing -/

namespace Table

/-- A metric of two rows over the window from `a` to `b` with the cutover `t`. An empty window leaves
the left value. -/
def weigh (a b t : Int) : Option Float → Option Float → Option Float
  | none, none => none
  | some x, none => some x
  | none, some y => some y
  | some x, some y =>
    if a < b then
      some ((x * Binary64.ofInt (t - a) + y * Binary64.ofInt (b - t)) /
        (Binary64.ofInt (t - a) + Binary64.ofInt (b - t)))
    else some x

/-- The weights come to more than zero in every window that is not empty. -/
theorem blendValue_eq_weigh {a b t : Int} (ha : a ≤ t) (hb : t ≤ b) :
    blendValue (Binary64.ofInt (t - a)) (Binary64.ofInt (b - t)) = weigh a b t := by
  funext x y
  cases x with
  | none => cases y <;> rfl
  | some x =>
    cases y with
    | none => rfl
    | some y =>
      by_cases hab : a < b
      · have hpos := Binary64.zero_lt_add_ofInt (l := t - a) (r := b - t) (by omega) (by omega)
          (by omega)
        simp only [blendValue, weigh, if_pos hpos, if_pos hab]
      · have hl : t - a = 0 := by omega
        have hr : b - t = 0 := by omega
        have hzero : ¬ (0 : Float) < Binary64.ofInt 0 + Binary64.ofInt 0 := by decide +kernel
        simp only [blendValue, weigh, hl, hr, if_neg hzero, if_neg hab]

/-- The table is what `left` and `right` are blended to over the window from `a` to `b` with the cutover
`t`. -/
structure Blended (table : Table) (a b t : Int) (left right : Table) : Prop where
  dimensions : table.dimensions = left.dimensions
  metrics : table.metrics = left.metrics
  shaped : table.Shaped
  /-- The keys are those of the two tables. -/
  keys : ∀ k, (find? k table.rows).isSome = true ↔
    (find? k left.rows).isSome = true ∨ (find? k right.rows).isSome = true
  onlyLeft : ∀ k v, find? k left.rows = some v → find? k right.rows = none →
    find? k table.rows = some v
  onlyRight : ∀ k u, find? k left.rows = none → find? k right.rows = some u →
    find? k table.rows = some u
  both : ∀ k v u, find? k left.rows = some v → find? k right.rows = some u →
    ∃ row, find? k table.rows = some row ∧
      ∀ (i : Nat) x y, v[i]? = some x → u[i]? = some y → row[i]? = some (weigh a b t x y)

/-- The row of a key comes from the rows that the two tables have of it. -/
theorem find?_interpolate (left right : Table) {window : Window} {t : Int} (ha : window.start ≤ t)
    (hb : t ≤ window.stop) (hfits : Signed64.fits (window.stop - window.start) = true) (k : Key) :
    find? k (left.interpolate right window t).rows =
      match find? k left.rows, find? k right.rows with
      | none, row => row
      | some v, none => some v
      | some v, some u => some (List.zipWith (weigh window.start window.stop t) v u) := by
  -- the cutover is in the window, so it is where it is taken to be
  have hcut : min (max t window.start) window.stop = t := by omega
  have hl := Signed64.sub_of_fits
    (Signed64.fits_of_le (show 0 ≤ t - window.start by omega) (by omega) hfits)
  have hr := Signed64.sub_of_fits
    (Signed64.fits_of_le (show 0 ≤ window.stop - t by omega) (by omega) hfits)
  show find? k (addMissing (blendRows
    (Binary64.ofInt (Signed64.sub (min (max t window.start) window.stop) window.start))
    (Binary64.ofInt (Signed64.sub window.stop (min (max t window.start) window.stop)))
      left.rows right.rows) right.rows) = _
  rw [hcut, hl, hr, find?_addMissing, find?_blendRows, blendValue_eq_weigh ha hb]
  cases find? k left.rows with
  | none => rw [Option.map_none, Option.none_or]
  | some v => cases find? k right.rows <;> rfl

/-- **What two shaped tables with the same metrics are blended to.** -/
theorem interpolate_blended {left right : Table} (hl : left.Shaped) (hr : right.Shaped)
    (hm : right.metrics = left.metrics) {window : Window} {t : Int} (ha : window.start ≤ t)
    (hb : t ≤ window.stop) (hfits : Signed64.fits (window.stop - window.start) = true) :
    (left.interpolate right window t).Blended window.start window.stop t left right := by
  have hfind := find?_interpolate left right ha hb hfits
  refine ⟨rfl, rfl, hl.interpolate hr hm window t, fun k => ?_, fun k v hv hu => ?_,
    fun k u hv hu => ?_, fun k v u hv hu => ?_⟩
  · rw [hfind]
    cases find? k left.rows with
    | none => simp
    | some v => cases find? k right.rows <;> simp
  · rw [hfind, hv, hu]
  · rw [hfind, hv, hu]
  · rw [hfind, hv, hu]
    refine ⟨_, rfl, fun i x y hx hy => ?_⟩
    rw [List.getElem?_zipWith, hx, hy]

example : weigh 0 5 3 (some 10) (some 20) == some 14 := by decide +kernel

end Table

end WindowAlign
