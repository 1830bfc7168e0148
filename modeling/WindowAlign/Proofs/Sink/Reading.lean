import WindowAlign.Proofs.Sink.Calls

/-!
# Reading a metrics database

A record is kept with NaN as a missing value, and is read back only where none of its four statistics
is missing. The extremes never are: they start from the infinities, and a comparison with NaN does not
hold (`ofValues?_extremes`). So a record can be read back if and only if its sum and its mean are no NaN
(`read_record`), and one record that cannot makes the read of its window fail
(`metricValues_after`). Where all can, what is read is what calls said, which with the members, the
list of windows and the purge is `after_refines`: the database is a plain map of its calls.
-/

namespace WindowAlign

/-! ## Statistics that are no number -/

theorem isNaN_of_lt {x y : Float} (h : x < y) : x.isNaN = false ∧ y.isNaN = false := by
  have h : (x.toModel.unpack.compare y.toModel.unpack == some .lt) = true := of_decide_eq_true h
  change x.toModel.unpack.isNaN = false ∧ y.toModel.unpack.isNaN = false
  generalize x.toModel.unpack = p at h ⊢
  generalize y.toModel.unpack = q at h ⊢
  cases p <;> cases q <;> first | exact ⟨rfl, rfl⟩ | cases h

namespace Aggregate

theorem lesser_isNaN {x : Float} (hx : x.isNaN = false) (y : Float) :
    (lesser x y).isNaN = false := by
  rw [lesser, hx, Bool.false_or]
  split
  · rename_i h
    exact (isNaN_of_lt (of_decide_eq_true h)).1
  · exact hx

theorem greater_isNaN {x : Float} (hx : x.isNaN = false) (y : Float) :
    (greater x y).isNaN = false := by
  rw [greater, hx, Bool.false_or]
  split
  · rename_i h
    exact (isNaN_of_lt (of_decide_eq_true h)).2
  · exact hx

theorem foldl_lesser_isNaN (values : List Float) {x : Float} (hx : x.isNaN = false) :
    (values.foldl lesser x).isNaN = false := by
  induction values generalizing x with
  | nil => exact hx
  | cons y values ih => exact ih (lesser_isNaN hx y)

theorem foldl_greater_isNaN (values : List Float) {x : Float} (hx : x.isNaN = false) :
    (values.foldl greater x).isNaN = false := by
  induction values generalizing x with
  | nil => exact hx
  | cons y values ih => exact ih (greater_isNaN hx y)

theorem infinity_isNaN : infinity.isNaN = false ∧ (-infinity).isNaN = false := by
  decide

theorem ofValues?_extremes {values : List Float} {a : Aggregate} (h : ofValues? values = some a) :
    a.least.isNaN = false ∧ a.greatest.isNaN = false := by
  rw [ofValues?] at h
  split at h
  · cases h
  · rw [← Option.some.inj h]
    dsimp only
    exact ⟨foldl_lesser_isNaN values infinity_isNaN.1, foldl_greater_isNaN values infinity_isNaN.2⟩

/-- Whether neither the sum nor the mean is NaN. -/
def Readable (a : Aggregate) : Prop :=
  a.sum.isNaN = false ∧ a.mean.isNaN = false

instance (a : Aggregate) : Decidable a.Readable :=
  inferInstanceAs (Decidable (_ ∧ _))

def dropZeroSigns (a : Aggregate) : Aggregate :=
  ⟨Binary64.dropZeroSign a.sum, Binary64.dropZeroSign a.mean, Binary64.dropZeroSign a.least,
    Binary64.dropZeroSign a.greatest, a.count⟩

end Aggregate

namespace Aligned

theorem groupValues_extremes {d : Dimensions} {rows : List Values} {i : Nat}
    {metrics : List String} {g : GroupValue} (hg : g ∈ groupValues d rows i metrics) :
    g.value.least.isNaN = false ∧ g.value.greatest.isNaN = false := by
  induction metrics generalizing i with
  | nil => cases hg
  | cons m metrics ih =>
    rw [groupValues] at hg
    split at hg
    · rename_i a ha
      rcases List.mem_cons.1 hg with rfl | hg
      · exact Aggregate.ofValues?_extremes ha
      · exact ih hg
    · exact ih hg

theorem aggregate_extremes {a : Aligned} {g : GroupValue} (hg : g ∈ a.aggregate) :
    g.value.least.isNaN = false ∧ g.value.greatest.isNaN = false := by
  obtain ⟨gs, -, hg⟩ := List.mem_flatMap.1 hg
  exact groupValues_extremes hg

end Aligned

def GroupValue.shown (w : Int) (c : Category) (g : GroupValue) : MetricValue :=
  ⟨w, c, g.metric, g.dimensions, g.value.dropZeroSigns⟩

def MetricValue.key (v : MetricValue) : Category × String × Dimensions :=
  (v.category, v.metric, v.dimensions)

namespace SinkCall

/-- The categories that a read is about. -/
def chosen : Option Category → List Category
  | some c => [c]
  | none => Category.all

/-- The aggregates that calls leave for a window, of one category or of all. -/
def readAt (calls : List SinkCall) (w : Int) (oc : Option Category) : List GroupValue :=
  (chosen oc).flatMap (aggregatesAt calls w)

def valuesAt (calls : List SinkCall) (w : Int) (oc : Option Category) : List MetricValue :=
  (chosen oc).flatMap fun c => (aggregatesAt calls w c).map (·.shown w c)

theorem exists_of_mem_aggregatesAt {calls : List SinkCall} {w : Int} {c : Category}
    {g : GroupValue} (hg : g ∈ aggregatesAt calls w c) :
    ∃ a, .metrics c w a ∈ calls ∧ aggregatesAt calls w c = a.aggregate := by
  rw [aggregatesAt] at hg ⊢
  cases ha : latest (metricsAt w c) calls with
  | none => rw [ha] at hg; cases hg
  | some a => exact ⟨a, mem_of_latest_metrics ha, rfl⟩

theorem aggregatesAt_extremes {calls : List SinkCall} {w : Int} {c : Category} {g : GroupValue}
    (hg : g ∈ aggregatesAt calls w c) :
    g.value.least.isNaN = false ∧ g.value.greatest.isNaN = false := by
  obtain ⟨a, -, ha⟩ := exists_of_mem_aggregatesAt hg
  exact Aligned.aggregate_extremes (ha ▸ hg)

end SinkCall

namespace Database

variable {calls : List SinkCall} {d : Database}

/-! ## Reading one record -/

theorem kept_eq_some {x : Float} (h : x.isNaN = false) : kept x = some (Binary64.dropZeroSign x) := by
  rw [kept, h]
  rfl

theorem kept_eq_none {x : Float} (h : x.isNaN = true) : kept x = none := by
  rw [kept, h]
  rfl

/-- **A record is read back where its sum and its mean are numbers**, and not otherwise. -/
theorem read_record (w : Int) (c : Category) {g : GroupValue}
    (hg : g.value.least.isNaN = false ∧ g.value.greatest.isNaN = false) :
    (g.value.Readable → read (record w c g) = .ok (g.shown w c)) ∧
      (¬ g.value.Readable → read (record w c g) = .error (.unexpectedKind "Null" 3 "sum") ∨
        read (record w c g) = .error (.unexpectedKind "Null" 4 "avg")) := by
  constructor
  · intro ⟨hsum, hmean⟩
    rw [read, record, kept_eq_some hsum, kept_eq_some hmean, kept_eq_some hg.1,
      kept_eq_some hg.2]
    rfl
  · intro h
    rw [read, record]
    cases hsum : g.value.sum.isNaN with
    | true =>
      rw [kept_eq_none hsum]
      exact .inl rfl
    | false =>
      cases hmean : g.value.mean.isNaN with
      | true =>
        rw [kept_eq_some hsum, kept_eq_none hmean]
        exact .inr rfl
      | false => exact absurd ⟨hsum, hmean⟩ h

theorem mapM_of_exists_error {α β ε : Type} {f : α → Except ε β} {p : ε → Prop} {l : List α}
    (h : ∀ x ∈ l, (∃ y, f x = .ok y) ∨ ∃ e, f x = .error e ∧ p e)
    (hex : ∃ x ∈ l, ∃ e, f x = .error e) : ∃ e, l.mapM f = .error e ∧ p e := by
  induction l with
  | nil =>
    obtain ⟨x, hx, -⟩ := hex
    cases hx
  | cons x l ih =>
    rw [List.mapM_cons]
    rcases h x List.mem_cons_self with ⟨y, hy⟩ | ⟨e, he, hp⟩
    · have hrest : ∃ z ∈ l, ∃ e, f z = .error e := by
        obtain ⟨z, hz, e, he⟩ := hex
        rcases List.mem_cons.1 hz with rfl | hz
        · rw [hy] at he
          cases he
        · exact ⟨z, hz, e, he⟩
      obtain ⟨e, he, hp⟩ := ih (fun z hz => h z (List.mem_cons_of_mem x hz)) hrest
      refine ⟨e, ?_, hp⟩
      rw [hy, he]
      rfl
    · refine ⟨e, ?_, hp⟩
      rw [he]
      rfl

/-! ## Reading a window -/

theorem filter_categories (w : Int) (vs : List StoredValue) {cs : List Category} (hcs : cs.Nodup) :
    (vs.filter fun v => v.windowStart == w && cs.contains v.category).Perm
      (cs.flatMap fun c => vs.filter (isAt w c)) := by
  induction cs with
  | nil =>
    rw [List.filter_eq_nil_iff.2 fun v _ => by simp]
    exact .nil
  | cons c cs ih =>
    obtain ⟨hc, hcs⟩ := List.nodup_cons.1 hcs
    refine (List.filter_append_perm (·.category == c) _).symm.trans ?_
    rw [List.flatMap_cons, List.filter_filter, List.filter_filter]
    have hfirst : (vs.filter fun v => v.category == c &&
        (v.windowStart == w && (c :: cs).contains v.category)) = vs.filter (isAt w c) :=
      List.filter_congr fun v _ => by grind [isAt]
    have hrest : (vs.filter fun v => (!(v.category == c)) &&
        (v.windowStart == w && (c :: cs).contains v.category)) =
          vs.filter fun v => v.windowStart == w && cs.contains v.category :=
      List.filter_congr fun v _ => by grind
    rw [hfirst, hrest]
    exact (ih hcs).append_left _

theorem chosen_nodup (oc : Option Category) : (SinkCall.chosen oc).Nodup := by
  cases oc with
  | some c => exact List.nodup_singleton c
  | none => exact Category.all_nodup

theorem all_eq_contains_chosen (oc : Option Category) (k : Category) :
    oc.all (· == k) = (SinkCall.chosen oc).contains k := by
  cases oc with
  | some c => cases c <;> cases k <;> rfl
  | none => cases k <;> rfl

/-- The statistics of a record, where none is missing. -/
def decoded (v : StoredValue) : MetricValue :=
  ⟨v.windowStart, v.category, v.metric, v.dimensions,
    ⟨v.sum.getD 0, v.mean.getD 0, v.least.getD 0, v.greatest.getD 0, v.count⟩⟩

theorem read_eq_decoded {v : StoredValue} {x : MetricValue} (h : read v = .ok x) :
    x = decoded v := by
  obtain ⟨w, c, m, ds, sum, mean, least, greatest, n⟩ := v
  cases sum <;> cases mean <;> cases least <;> cases greatest <;>
    first | cases h; rfl | cases h

theorem metricValues_of_values {vs : List StoredValue} (h : d.values = some vs) (w : Int)
    (oc : Option Category) : d.metricValues w oc =
      ((vs.filter fun v => v.windowStart == w && oc.all (· == v.category)).mergeSort
        listedBefore).mapM read := by
  rw [metricValues, h]
  rfl

/-- A read takes the records that calls left for the window, in some order. -/
theorem Mirrors.metricValues_eq (h : Mirrors calls d) (w : Int) (oc : Option Category) :
    ∃ l : List StoredValue, d.metricValues w oc = l.mapM read ∧
      l.Perm ((SinkCall.chosen oc).flatMap fun c =>
        (SinkCall.aggregatesAt calls w c).map (record w c)) := by
  obtain ⟨vs, hvs, hfilter⟩ := h.values
  refine ⟨_, metricValues_of_values hvs w oc, (List.mergeSort_perm ..).trans ?_⟩
  simp only [all_eq_contains_chosen, ← hfilter]
  exact filter_categories w vs (chosen_nodup oc)

theorem mem_chosen_records {w : Int} {oc : Option Category} {v : StoredValue}
    (hv : v ∈ (SinkCall.chosen oc).flatMap fun c =>
      (SinkCall.aggregatesAt calls w c).map (record w c)) :
    ∃ c, ∃ g ∈ SinkCall.readAt calls w oc, v = record w c g ∧
      (g.value.least.isNaN = false ∧ g.value.greatest.isNaN = false) := by
  obtain ⟨c, hc, hv⟩ := List.mem_flatMap.1 hv
  obtain ⟨g, hg, rfl⟩ := List.mem_map.1 hv
  exact ⟨c, g, List.mem_flatMap.2 ⟨c, hc, hg⟩, rfl, SinkCall.aggregatesAt_extremes hg⟩

theorem Mirrors.metricValues_ok (h : Mirrors calls d) {w : Int} {oc : Option Category}
    (hread : ∀ g ∈ SinkCall.readAt calls w oc, g.value.Readable) :
    ∃ vs, d.metricValues w oc = .ok vs ∧ vs.Perm (SinkCall.valuesAt calls w oc) := by
  obtain ⟨l, heq, hperm⟩ := h.metricValues_eq w oc
  have hok : ∀ v ∈ l, read v = .ok (decoded v) := fun v hv => by
    obtain ⟨c, g, hg, rfl, hextremes⟩ := mem_chosen_records (hperm.mem_iff.1 hv)
    have hshown := (read_record w c hextremes).1 (hread g hg)
    rw [hshown, read_eq_decoded hshown]
  refine ⟨l.map decoded, heq.trans (mapM_of_forall_ok hok), (hperm.map decoded).trans ?_⟩
  rw [List.map_flatMap]
  refine .of_eq (List.flatMap_congr fun c hc => ?_)
  rw [List.map_map]
  refine List.map_congr_left fun g hg => ?_
  have hshown := (read_record w c (SinkCall.aggregatesAt_extremes hg)).1
    (hread g (List.mem_flatMap.2 ⟨c, hc, hg⟩))
  exact (read_eq_decoded hshown).symm

theorem Mirrors.metricValues_error (h : Mirrors calls d) {w : Int} {oc : Option Category}
    (hread : ∃ g ∈ SinkCall.readAt calls w oc, ¬ g.value.Readable) :
    d.metricValues w oc = .error (.unexpectedKind "Null" 3 "sum") ∨
      d.metricValues w oc = .error (.unexpectedKind "Null" 4 "avg") := by
  obtain ⟨l, heq, hperm⟩ := h.metricValues_eq w oc
  have houtcome : ∀ v ∈ l, (∃ x, read v = .ok x) ∨ ∃ e, read v = .error e ∧
      (e = .unexpectedKind "Null" 3 "sum" ∨ e = .unexpectedKind "Null" 4 "avg") := fun v hv => by
    obtain ⟨c, g, -, rfl, hextremes⟩ := mem_chosen_records (hperm.mem_iff.1 hv)
    obtain ⟨hok, herror⟩ := read_record w c hextremes
    by_cases hg : g.value.Readable
    · exact .inl ⟨_, hok hg⟩
    · rcases herror hg with he | he
      · exact .inr ⟨_, he, .inl rfl⟩
      · exact .inr ⟨_, he, .inr rfl⟩
  have hfails : ∃ v ∈ l, ∃ e, read v = .error e := by
    obtain ⟨g, hg, hnot⟩ := hread
    obtain ⟨c, hc, hg⟩ := List.mem_flatMap.1 hg
    refine ⟨record w c g, hperm.mem_iff.2 ?_, ?_⟩
    · exact List.mem_flatMap.2 ⟨c, hc, List.mem_map_of_mem hg⟩
    · rcases (read_record w c (SinkCall.aggregatesAt_extremes hg)).2 hnot with he | he
      · exact ⟨_, he⟩
      · exact ⟨_, he⟩
  obtain ⟨e, he, hwhich⟩ := mapM_of_exists_error houtcome hfails
  rw [heq, he]
  exact hwhich.imp (congrArg _) (congrArg _)

theorem nodup_keys_valuesAt (h : ∀ x ∈ calls, Distinct x) (w : Int) (oc : Option Category) :
    ((SinkCall.valuesAt calls w oc).map MetricValue.key).Nodup := by
  rw [SinkCall.valuesAt, List.map_flatMap, List.nodup_flatMap]
  constructor
  · intro c hc
    rw [List.map_map]
    refine List.Nodup.of_map Prod.snd ?_
    rw [List.map_map]
    change ((SinkCall.aggregatesAt calls w c).map GroupValue.key).Nodup
    rw [SinkCall.aggregatesAt]
    cases ha : SinkCall.latest (SinkCall.metricsAt w c) calls with
    | none => exact List.nodup_nil
    | some a => exact h _ (SinkCall.mem_of_latest_metrics ha)
  · refine (chosen_nodup oc).imp fun hne k hk hk' => ?_
    obtain ⟨x, hx, rfl⟩ := List.mem_map.1 hk
    obtain ⟨y, hy, hkey⟩ := List.mem_map.1 hk'
    obtain ⟨g, -, rfl⟩ := List.mem_map.1 hx
    obtain ⟨g', -, rfl⟩ := List.mem_map.1 hy
    exact hne (congrArg Prod.fst hkey).symm

/-- **What can be read back after any calls that succeeded**: where no sum and no mean of the aggregates
kept for a window is NaN, all of them, one record for each category, metric and group. One of NaN makes
the read of the whole window fail, with the column as the place of the missing value. -/
theorem metricValues_after (h : after calls = .ok d) (w : Int) (oc : Option Category) :
    ((∀ g ∈ SinkCall.readAt calls w oc, g.value.Readable) →
      ∃ vs, d.metricValues w oc = .ok vs ∧ vs.Perm (SinkCall.valuesAt calls w oc) ∧
        (vs.map MetricValue.key).Nodup) ∧
    ((∃ g ∈ SinkCall.readAt calls w oc, ¬ g.value.Readable) →
      d.metricValues w oc = .error (.unexpectedKind "Null" 3 "sum") ∨
        d.metricValues w oc = .error (.unexpectedKind "Null" 4 "avg")) := by
  obtain ⟨hmirrors, hdistinct⟩ := mirrors_after h
  refine ⟨fun hread => ?_, hmirrors.metricValues_error⟩
  obtain ⟨vs, hok, hperm⟩ := hmirrors.metricValues_ok hread
  refine ⟨vs, hok, hperm, ?_⟩
  exact (hperm.map MetricValue.key).nodup_iff.2 (nodup_keys_valuesAt hdistinct w oc)

/-- A table whose one value is the sum of the two infinities, to which the interpolation of finite
samples can overflow. -/
def overflowed : Aligned :=
  ⟨.osMetrics, ⟨0, 5000⟩, 2000, 0, some 5000,
    ⟨["ThreadID"], ["CPU_Utilization"],
      [(["7"], [some (Aggregate.infinity + -Aggregate.infinity)])]⟩⟩

/-- The sink accepts the table, and its window cannot be read. -/
theorem metricValues_after_overflowed :
    ∃ d, after [.metrics .osMetrics 0 overflowed] = .ok d ∧
      (∃ g ∈ SinkCall.readAt [.metrics .osMetrics 0 overflowed] 0 none, ¬ g.value.Readable) ∧
      ∃ e, d.metricValues 0 none = .error e := by
  have hdistinct : ∀ x ∈ [SinkCall.metrics .osMetrics 0 overflowed], Distinct x :=
    List.forall_mem_singleton.2 (Aligned.nodup_keys_aggregate (by decide))
  obtain ⟨d, hd⟩ := after_eq_ok hdistinct
  have hread : ∃ g ∈ SinkCall.readAt [.metrics .osMetrics 0 overflowed] 0 none,
      ¬ g.value.Readable := by
    decide +kernel
  refine ⟨d, hd, hread, ?_⟩
  rcases (metricValues_after hd 0 none).2 hread with he | he
  · exact ⟨_, he⟩
  · exact ⟨_, he⟩

end Database

end WindowAlign
