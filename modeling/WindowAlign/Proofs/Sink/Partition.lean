import WindowAlign.Proofs.Keyed
import WindowAlign.Proofs.Sink.Groups
import WindowAlign.Proofs.Sink.Statistics
import WindowAlign.Proofs.Store.Blending

/-!
# Aggregates share out a table

A row of an aligned table belongs to the group of its dimensions (`groupOfRow`), which are the values
of its key at the places of the aggregation dimensions (`mem_groupOf`). Grouping keeps each row, once
and in the order of the table (`lookup_groups`, `groups_perm`), and an aggregate is made of the values
that the rows of its group have at the place of its metric (`mem_aggregate`). So the aggregates share
out the values of the table: `Partitioned` says which there are, in which order, of which values, and
that none of the values is lost or counted twice.
-/

namespace WindowAlign.Aligned

/-! ## The group of a row -/

theorem insertDimension_perm (name value : String) (d : Dimensions) :
    (insertDimension name value d).Perm ((name, value) :: d) := by
  induction d with
  | nil => exact .refl _
  | cons p d ih =>
    obtain ⟨n, v⟩ := p
    rw [insertDimension]
    split
    · exact .refl _
    · exact (ih.cons _).trans (.swap ..)

theorem insertDimension_ascending {name : String} (value : String) {d : Dimensions}
    (hd : d.Pairwise (·.1 < ·.1)) (hnew : ∀ p ∈ d, p.1 ≠ name) :
    (insertDimension name value d).Pairwise (·.1 < ·.1) := by
  induction d with
  | nil => exact List.pairwise_singleton ..
  | cons p d ih =>
    obtain ⟨n, v⟩ := p
    obtain ⟨hfirst, hd⟩ := List.pairwise_cons.1 hd
    obtain ⟨hn, hnew⟩ := List.forall_mem_cons.1 hnew
    rw [insertDimension]
    by_cases hlt : name < n
    · rw [if_pos hlt]
      refine List.pairwise_cons.2 ⟨List.forall_mem_cons.2 ⟨hlt, fun q hq => ?_⟩,
        List.pairwise_cons.2 ⟨hfirst, hd⟩⟩
      exact String.lt_trans hlt (hfirst q hq)
    · rw [if_neg hlt]
      have hgt : n < name := by
        by_contra h
        exact hn (String.le_antisymm (String.not_lt.1 hlt) (String.not_lt.1 h))
      refine List.pairwise_cons.2 ⟨fun q hq => ?_, ih hd hnew⟩
      rcases List.mem_cons.1 ((insertDimension_perm name value d).mem_iff.1 hq) with rfl | hq
      · exact hgt
      · exact hfirst q hq

/-- The dimensions of a group are the values of the key at the places of the names. -/
theorem mem_groupOf {names dimensions : List String} {key : Key} {n v : String} :
    (n, v) ∈ groupOf names dimensions key ↔
      n ∈ names ∧ ∃ i, dimensions.findIdx? (· == n) = some i ∧ v = key.getD i "" := by
  induction names using List.reverseRecOn with
  | nil => simp [groupOf]
  | append_singleton names name ih =>
    rw [groupOf] at ih ⊢
    rw [List.foldl_append, List.foldl_cons, List.foldl_nil]
    cases hi : dimensions.findIdx? (· == name) with
    | none =>
      dsimp only
      rw [ih, List.mem_append, List.mem_singleton, or_and_right]
      refine ⟨.inl, fun h => h.resolve_right ?_⟩
      rintro ⟨rfl, i, hsome, -⟩
      rw [hi] at hsome
      cases hsome
    | some i =>
      dsimp only
      rw [(insertDimension_perm ..).mem_iff, List.mem_cons, ih, List.mem_append,
        List.mem_singleton, or_and_right, or_comm]
      refine or_congr_right ⟨fun h => ?_, ?_⟩
      · cases h
        exact ⟨rfl, i, hi, rfl⟩
      · rintro ⟨rfl, j, hj, rfl⟩
        rw [Option.some.inj (hi.symm.trans hj)]

theorem groupOf_ascending {names : List String} (h : names.Nodup) (dimensions : List String)
    (key : Key) : (groupOf names dimensions key).Pairwise (·.1 < ·.1) := by
  induction names using List.reverseRecOn with
  | nil => exact List.Pairwise.nil
  | append_singleton names name ih =>
    obtain ⟨hnames, -, hdisjoint⟩ := List.nodup_append.1 h
    have hnew : ∀ p ∈ groupOf names dimensions key, p.1 ≠ name := fun p hp =>
      hdisjoint p.1 (mem_groupOf.1 hp).1 name (List.mem_singleton_self name)
    have hascending := ih hnames
    rw [groupOf] at hascending hnew ⊢
    rw [List.foldl_append, List.foldl_cons, List.foldl_nil]
    cases dimensions.findIdx? (· == name) with
    | none => exact hascending
    | some i => exact insertDimension_ascending _ hascending hnew

def groupOfRow (a : Aligned) (row : Key × Values) : Dimensions :=
  groupOf a.category.schema.aggregateDimensions a.table.dimensions row.1

/-- The rows of a group, in the order of the table. -/
def rowsOf (a : Aligned) (d : Dimensions) : List (Key × Values) :=
  a.table.rows.filter fun row => a.groupOfRow row = d

/-- The values that the rows of a group have at one place, in the order of the table. -/
def valuesOf (a : Aligned) (d : Dimensions) (i : Nat) : List Float :=
  (a.rowsOf d).filterMap fun row => (row.2[i]?).join

/-! ## Grouping -/

/-- A row is put behind those of its group, and the other groups stay as they are. -/
theorem lookup_insertIntoGroup {gs : List (Dimensions × List Values)} (h : Ascending gs)
    (d : Dimensions) (row : Values) (e : Dimensions) :
    (insertIntoGroup d row gs).lookup e =
      if e = d then some ((gs.lookup d).getD [] ++ [row]) else gs.lookup e := by
  induction gs with
  | nil => exact Keyed.lookup_cons e (d, [row]) []
  | cons g gs ih =>
    obtain ⟨hfirst, hgs⟩ := List.pairwise_cons.1 h
    rw [insertIntoGroup]
    by_cases hd : d = g.1
    · rw [if_pos hd, Keyed.lookup_cons, Keyed.lookup_cons, Keyed.lookup_cons, if_pos hd, ← hd]
      by_cases he : e = d
      · rw [if_pos he, if_pos he, Option.getD_some]
      · rw [if_neg he, if_neg he, if_neg he]
    · rw [if_neg hd]
      by_cases hlt : dimensionsBefore d g.1 = true
      · have hnone : (g :: gs).lookup d = none := Keyed.lookup_eq_none.2 <|
          List.forall_mem_cons.2 ⟨ne_of_dimensionsBefore hlt, fun k hk =>
            ne_of_dimensionsBefore (dimensionsBefore_trans hlt (hfirst k hk))⟩
        rw [if_pos hlt, Keyed.lookup_cons, hnone, Option.getD_none, List.nil_append]
      · rw [if_neg hlt, Keyed.lookup_cons, Keyed.lookup_cons, Keyed.lookup_cons, ih hgs, if_neg hd]
        by_cases he : e = d
        · rw [if_pos he, if_pos he, if_neg (he ▸ hd)]
        · rw [if_neg he, if_neg he]

theorem groups_eq (a : Aligned) : groups a.category a.table =
    a.table.rows.foldl (fun gs row => insertIntoGroup (a.groupOfRow row) row.2 gs) [] :=
  rfl

/-- **A group has the rows of its dimensions in the order of the table**, and there is one for the
dimensions of each row. -/
theorem lookup_groups (a : Aligned) (d : Dimensions) :
    (groups a.category a.table).lookup d =
      if a.rowsOf d = [] then none else some ((a.rowsOf d).map (·.2)) := by
  rw [groups_eq, rowsOf]
  induction a.table.rows using List.reverseRecOn with
  | nil => rfl
  | append_singleton rows row ih =>
    have hascending : Ascending
        (rows.foldl (fun gs row => insertIntoGroup (a.groupOfRow row) row.2 gs) []) :=
      groups_ascending a.category { a.table with rows := rows }
    rw [List.foldl_append, List.foldl_cons, List.foldl_nil, lookup_insertIntoGroup hascending,
      List.filter_append, List.filter_singleton]
    by_cases h : a.groupOfRow row = d
    · rw [if_pos h.symm, decide_eq_true h, h, ih]
      by_cases hrows : (rows.filter fun row => a.groupOfRow row = d) = []
      · simp [hrows]
      · simp [hrows]
    · rw [if_neg (Ne.symm h), decide_eq_false h, ih, cond_false, List.append_nil]

theorem Ascending.nodup_keys {gs : List (Dimensions × List Values)} (h : Ascending gs) :
    (gs.map (·.1)).Nodup :=
  List.pairwise_map.2 (h.imp ne_of_dimensionsBefore)

theorem insertIntoGroup_perm (d : Dimensions) (row : Values)
    (gs : List (Dimensions × List Values)) :
    ((insertIntoGroup d row gs).flatMap (·.2)).Perm (gs.flatMap (·.2) ++ [row]) := by
  induction gs with
  | nil => exact .refl _
  | cons g gs ih =>
    rw [insertIntoGroup]
    split
    · rw [List.flatMap_cons, List.flatMap_cons, List.append_assoc, List.append_assoc]
      exact List.perm_append_comm.append_left g.2
    · split
      · rw [List.flatMap_cons]
        exact List.perm_append_comm
      · rw [List.flatMap_cons, List.flatMap_cons, List.append_assoc]
        exact ih.append_left g.2

theorem groups_perm (c : Category) (t : Table) :
    ((groups c t).flatMap (·.2)).Perm (t.rows.map (·.2)) := by
  rw [groups]
  induction t.rows using List.reverseRecOn with
  | nil => exact .nil
  | append_singleton rows row ih =>
    rw [List.foldl_append, List.foldl_cons, List.foldl_nil, List.map_append]
    exact (insertIntoGroup_perm ..).trans (ih.append_right _)

/-! ## Aggregates of a group -/

theorem groupValues_cons (d : Dimensions) (rows : List Values) (i : Nat) (m : String)
    (metrics : List String) : groupValues d rows i (m :: metrics) =
      ((Aggregate.ofValues? (column rows i)).map (GroupValue.mk d m)).toList ++
        groupValues d rows (i + 1) metrics := by
  rw [groupValues]
  cases Aggregate.ofValues? (column rows i) <;> rfl

theorem mem_toList_map {d : Dimensions} {m : String} {o : Option Aggregate} {g : GroupValue} :
    g ∈ (o.map (GroupValue.mk d m)).toList ↔ g.dimensions = d ∧ m = g.metric ∧ o = some g.value := by
  obtain ⟨e, n, v⟩ := g
  cases o <;> simp [eq_comm]

theorem mem_groupValues {d : Dimensions} {rows : List Values} {i : Nat} {metrics : List String}
    {g : GroupValue} : g ∈ groupValues d rows i metrics ↔
      g.dimensions = d ∧ ∃ j, metrics[j]? = some g.metric ∧
        Aggregate.ofValues? (column rows (i + j)) = some g.value := by
  induction metrics generalizing i with
  | nil => simp [groupValues]
  | cons m metrics ih =>
    rw [groupValues_cons, List.mem_append, mem_toList_map, ih, ← and_or_left]
    refine and_congr_right fun _ => ⟨?_, ?_⟩
    · rintro (⟨hm, hv⟩ | ⟨j, hm, hv⟩)
      · exact ⟨0, congrArg some hm, hv⟩
      · exact ⟨j + 1, hm, by rwa [Nat.add_assoc, Nat.add_comm 1] at hv⟩
    · rintro ⟨j, hm, hv⟩
      cases j with
      | zero => exact .inl ⟨Option.some.inj hm, hv⟩
      | succ j => exact .inr ⟨j, hm, by rwa [Nat.add_assoc, Nat.add_comm 1]⟩

theorem groupValues_filter {d : Dimensions} {rows : List Values} {i j : Nat} {metrics : List String}
    {m : String} (hmetrics : metrics.Nodup) (hm : metrics[j]? = some m) :
    (groupValues d rows i metrics).filter (·.metric == m) =
      ((Aggregate.ofValues? (column rows (i + j))).map (GroupValue.mk d m)).toList := by
  induction metrics generalizing i j with
  | nil => cases hm
  | cons n metrics ih =>
    obtain ⟨hn, hmetrics⟩ := List.nodup_cons.1 hmetrics
    rw [groupValues_cons, List.filter_append]
    cases j with
    | zero =>
      obtain rfl : n = m := Option.some.inj hm
      have hfirst : ∀ g ∈ ((Aggregate.ofValues? (column rows i)).map (GroupValue.mk d n)).toList,
          (g.metric == n) = true :=
        fun g hg => beq_iff_eq.2 (mem_toList_map.1 hg).2.1.symm
      have hrest : (groupValues d rows (i + 1) metrics).filter (·.metric == n) = [] := by
        rw [List.filter_eq_nil_iff]
        intro g hg e
        obtain ⟨-, k, hk, -⟩ := mem_groupValues.1 hg
        exact hn (beq_iff_eq.1 e ▸ List.mem_of_getElem? hk)
      rw [List.filter_eq_self.2 hfirst, hrest, List.append_nil, Nat.add_zero]
    | succ j =>
      have hm : metrics[j]? = some m := hm
      have hfirst : (((Aggregate.ofValues? (column rows i)).map (GroupValue.mk d n)).toList.filter
          (·.metric == m)) = [] := by
        rw [List.filter_eq_nil_iff]
        intro g hg e
        rw [← (mem_toList_map.1 hg).2.1] at e
        exact hn (beq_iff_eq.1 e ▸ List.mem_of_getElem? hm)
      rw [hfirst, List.nil_append, ih hmetrics hm, Nat.add_assoc, Nat.add_comm 1]

/-! ## Aggregates of a table -/

theorem column_rowsOf (a : Aligned) (d : Dimensions) (i : Nat) :
    column ((a.rowsOf d).map (·.2)) i = a.valuesOf d i := by
  rw [column, List.filterMap_map]
  rfl

theorem mem_groups {a : Aligned} {d : Dimensions} {rows : List Values} :
    (d, rows) ∈ groups a.category a.table ↔ a.rowsOf d ≠ [] ∧ rows = (a.rowsOf d).map (·.2) := by
  rw [Keyed.mem_iff_lookup (groups_ascending a.category a.table).nodup_keys, lookup_groups]
  by_cases h : a.rowsOf d = []
  · rw [if_pos h]
    exact iff_of_false nofun fun hne => hne.1 h
  · rw [if_neg h, Option.some_inj, eq_comm]
    exact (and_iff_right h).symm

/-- **An aggregate is that of the values that the rows of its group have at the place of its metric**,
and there is one wherever there are such values. -/
theorem mem_aggregate {a : Aligned} {g : GroupValue} : g ∈ a.aggregate ↔
    ∃ i, a.table.metrics[i]? = some g.metric ∧
      Aggregate.ofValues? (a.valuesOf g.dimensions i) = some g.value := by
  rw [aggregate, List.mem_flatMap]
  constructor
  · rintro ⟨⟨d, rows⟩, hgroup, hg⟩
    obtain ⟨-, hrows⟩ := mem_groups.1 hgroup
    obtain ⟨(hd : g.dimensions = d), i, hm, hv⟩ := mem_groupValues.1 hg
    refine ⟨i, hm, ?_⟩
    rwa [Nat.zero_add, hrows, column_rowsOf, ← hd] at hv
  · rintro ⟨i, hm, hv⟩
    have hne : a.rowsOf g.dimensions ≠ [] := by
      intro h
      rw [valuesOf, h] at hv
      cases hv
    refine ⟨_, mem_groups.2 ⟨hne, rfl⟩, mem_groupValues.2 ⟨rfl, i, hm, ?_⟩⟩
    rwa [Nat.zero_add, column_rowsOf]

/-- Aggregates come group by group, and those of one group in the order of the metrics. -/
theorem aggregate_ascending {a : Aligned} (h : a.table.metrics.Nodup) :
    a.aggregate.Pairwise fun g k => words g.dimensions < words k.dimensions ∨
      g.dimensions = k.dimensions ∧
        a.table.metrics.idxOf g.metric < a.table.metrics.idxOf k.metric := by
  have hplaces : a.table.metrics.Pairwise fun m n =>
      a.table.metrics.idxOf m < a.table.metrics.idxOf n := by
    rw [List.pairwise_iff_getElem]
    intro i j hi hj hlt
    rwa [h.idxOf_getElem, h.idxOf_getElem]
  rw [aggregate, List.pairwise_flatMap]
  constructor
  · intro group _
    have hmetrics := hplaces.sublist (groupValues_metrics group.1 group.2 0 a.table.metrics)
    refine (List.pairwise_map.1 hmetrics).imp_of_mem fun hg hk hlt => .inr ⟨?_, hlt⟩
    rw [groupValues_dimensions hg, groupValues_dimensions hk]
  · refine (groups_ascending a.category a.table).imp fun hlt g hg k hk => .inl ?_
    rw [groupValues_dimensions hg, groupValues_dimensions hk]
    exact dimensionsBefore_iff.1 hlt

/-- **None of the values of a metric is lost or counted twice**: what its aggregates are made of is what
the table has. -/
theorem values_perm {a : Aligned} (h : a.table.metrics.Nodup) {i : Nat} {m : String}
    (hm : a.table.metrics[i]? = some m) :
    ((a.aggregate.filter (·.metric == m)).flatMap fun g => a.valuesOf g.dimensions i).Perm
      (column (a.table.rows.map (·.2)) i) := by
  have hgroup : ∀ group ∈ groups a.category a.table,
      ((groupValues group.1 group.2 0 a.table.metrics).filter (·.metric == m)).flatMap
        (fun g => a.valuesOf g.dimensions i) = column group.2 i := by
    rintro ⟨d, rows⟩ hgroup
    obtain ⟨-, rfl⟩ := mem_groups.1 hgroup
    rw [groupValues_filter h hm, Nat.zero_add, column_rowsOf]
    cases hv : Aggregate.ofValues? (a.valuesOf d i) with
    | none => exact (Aggregate.ofValues?_eq_none.1 hv).symm
    | some v => exact List.append_nil _
  rw [aggregate, List.filter_flatMap, List.flatMap_assoc, List.flatMap_congr hgroup]
  have hcolumn : (groups a.category a.table).flatMap (fun group => column group.2 i) =
      column ((groups a.category a.table).flatMap (·.2)) i := by
    simp only [column, List.filterMap_flatMap]
  rw [hcolumn]
  exact (groups_perm a.category a.table).filterMap _

theorem summarises_of_mem {a : Aligned} (h : a.table.metrics.Nodup) {g : GroupValue}
    (hg : g ∈ a.aggregate) {i : Nat} (hi : a.table.metrics[i]? = some g.metric) :
    g.value.Summarises (a.valuesOf g.dimensions i) := by
  obtain ⟨j, hj, hv⟩ := mem_aggregate.1 hg
  obtain ⟨hlt, -⟩ := List.getElem?_eq_some_iff.1 hi
  obtain rfl : i = j := (List.getElem?_inj hlt h).1 (hi.trans hj.symm)
  exact Aggregate.ofValues?_summarises hv

theorem mem_valuesOf {a : Aligned} {d : Dimensions} {i : Nat} {x : Float} :
    x ∈ a.valuesOf d i ↔
      ∃ row ∈ a.table.rows, a.groupOfRow row = d ∧ row.2[i]? = some (some x) := by
  simp only [valuesOf, rowsOf, List.mem_filterMap, List.mem_filter, decide_eq_true_eq,
    Option.join_eq_some_iff, and_assoc]

theorem exists_mem_aggregate {a : Aligned} (d : Dimensions) (m : String) :
    (∃ g ∈ a.aggregate, g.dimensions = d ∧ g.metric = m) ↔
      ∃ i : Nat, a.table.metrics[i]? = some m ∧
        ∃ row ∈ a.table.rows, a.groupOfRow row = d ∧ ∃ x, row.2[i]? = some (some x) := by
  have hvalues : ∀ i : Nat, a.valuesOf d i ≠ [] ↔
      ∃ row ∈ a.table.rows, a.groupOfRow row = d ∧ ∃ x, row.2[i]? = some (some x) := by
    intro i
    refine ⟨fun h => ?_, fun ⟨row, hrow, hd, x, hx⟩ => ?_⟩
    · obtain ⟨x, hx⟩ := List.exists_mem_of_ne_nil _ h
      obtain ⟨row, hrow, hd, hx⟩ := mem_valuesOf.1 hx
      exact ⟨row, hrow, hd, x, hx⟩
    · exact List.ne_nil_of_mem (mem_valuesOf.2 ⟨row, hrow, hd, hx⟩)
  constructor
  · rintro ⟨g, hg, rfl, rfl⟩
    obtain ⟨i, hi, hv⟩ := mem_aggregate.1 hg
    refine ⟨i, hi, (hvalues i).1 fun h => ?_⟩
    rw [Aggregate.ofValues?_eq_none.2 h] at hv
    cases hv
  · rintro ⟨i, hi, hrow⟩
    cases hv : Aggregate.ofValues? (a.valuesOf d i) with
    | none => exact absurd (Aggregate.ofValues?_eq_none.1 hv) ((hvalues i).2 hrow)
    | some v => exact ⟨⟨d, m, v⟩, mem_aggregate.2 ⟨i, hi, hv⟩, rfl, rfl⟩

theorem sum_counts {a : Aligned} (h : a.table.metrics.Nodup) {i : Nat} {m : String}
    (hm : a.table.metrics[i]? = some m) :
    ((a.aggregate.filter (·.metric == m)).map (·.value.count)).sum =
      (a.table.rows.filterMap fun row => (row.2[i]?).join).length := by
  have hcounts : ∀ g ∈ a.aggregate.filter (·.metric == m),
      g.value.count = (a.valuesOf g.dimensions i).length := by
    intro g hg
    obtain ⟨hg, hmetric⟩ := List.mem_filter.1 hg
    rw [← beq_iff_eq.1 hmetric] at hm
    exact (summarises_of_mem h hg hm).count
  calc ((a.aggregate.filter (·.metric == m)).map (·.value.count)).sum
      = ((a.aggregate.filter (·.metric == m)).map fun g =>
          (a.valuesOf g.dimensions i).length).sum := by rw [List.map_congr_left hcounts]
    _ = ((a.aggregate.filter (·.metric == m)).flatMap fun g => a.valuesOf g.dimensions i).length :=
        List.length_flatMap.symm
    _ = (column (a.table.rows.map (·.2)) i).length := (values_perm h hm).length_eq
    _ = _ := by rw [column, List.filterMap_map]; rfl

/-! ## The partition -/

/-- The aggregates of a table share out its values. -/
structure Partitioned (a : Aligned) : Prop where
  /-- A row is grouped by what its key has at the first place of each aggregation dimension that the
  table has. -/
  group : ∀ row ∈ a.table.rows, (a.groupOfRow row).Pairwise (·.1 < ·.1) ∧
    ∀ n v, (n, v) ∈ a.groupOfRow row ↔ n ∈ a.category.schema.aggregateDimensions ∧
      ∃ i, a.table.dimensions.findIdx? (· == n) = some i ∧ row.1[i]? = some v
  /-- The rows of a group are in the order of their keys. -/
  rows : ∀ d, (a.rowsOf d).Pairwise (·.1 < ·.1)
  ascending : a.aggregate.Pairwise fun g k => words g.dimensions < words k.dimensions ∨
    g.dimensions = k.dimensions ∧
      a.table.metrics.idxOf g.metric < a.table.metrics.idxOf k.metric
  once : (a.aggregate.map GroupValue.key).Nodup
  /-- There is an aggregate of a metric in a group if and only if some row of the group has a value. -/
  present : ∀ d m, (∃ g ∈ a.aggregate, g.dimensions = d ∧ g.metric = m) ↔
    ∃ i : Nat, a.table.metrics[i]? = some m ∧
      ∃ row ∈ a.table.rows, a.groupOfRow row = d ∧ ∃ x, row.2[i]? = some (some x)
  values : ∀ g ∈ a.aggregate, ∀ i, a.table.metrics[i]? = some g.metric →
    g.value.Summarises (a.valuesOf g.dimensions i)
  /-- Over all groups, as many values are counted as the table has of the metric. -/
  total : ∀ (i : Nat) m, a.table.metrics[i]? = some m →
    ((a.aggregate.filter (·.metric == m)).map (·.value.count)).sum =
      (a.table.rows.filterMap fun row => (row.2[i]?).join).length

theorem nodup_aggregateDimensions (c : Category) : c.schema.aggregateDimensions.Nodup := by
  cases c <;> decide

/-- **Aggregation shares out a table** whose rows have a part of the key for each dimension and a value,
or none, for each metric. -/
theorem aggregate_partitioned (a : Aligned) (hshape : a.table.Shaped)
    (hkeys : ∀ row ∈ a.table.rows, row.1.length = a.table.dimensions.length)
    (hmetrics : a.table.metrics.Nodup) : a.Partitioned where
  group row hrow := by
    refine ⟨groupOf_ascending (nodup_aggregateDimensions a.category) .., fun n v => ?_⟩
    rw [groupOfRow, mem_groupOf]
    refine and_congr_right fun _ => exists_congr fun i => and_congr_right fun hi => ?_
    obtain ⟨hlt, -⟩ := List.findIdx?_eq_some_iff_getElem.1 hi
    rw [← hkeys row hrow] at hlt
    rw [List.getElem?_eq_getElem hlt, Option.some_inj, List.getD_eq_getElem _ _ hlt, eq_comm]
  rows d := hshape.ascending.filter _
  ascending := aggregate_ascending hmetrics
  once := nodup_keys_aggregate hmetrics
  present := exists_mem_aggregate
  values _ hg _ := summarises_of_mem hmetrics hg
  total _ _ := sum_counts hmetrics

/-- Requests of two operations, one of them with two exceptions and no latency in one row. -/
def requests : Aligned :=
  ⟨.httpRequests, ⟨0, 5000⟩, 2500, 0, some 5000,
    ⟨["Operation", "HTTPRespCode", "Exception"], ["Count", "Latency"],
      [(["bulk", "200", ""], [some 10, some 2.5]),
        (["bulk", "200", "Timeout"], [some 2, none]),
        (["search", "500", ""], [some 4, some 1])]⟩⟩

theorem aggregate_partitioned_requests : requests.Partitioned ∧
    requests.aggregate.map (fun g => (g.metric, g.value.count)) =
      [("Count", 2), ("Latency", 1), ("Count", 1), ("Latency", 1)] :=
  ⟨aggregate_partitioned requests ⟨by decide, by decide⟩ (by decide) (by decide), by decide +kernel⟩

end WindowAlign.Aligned
