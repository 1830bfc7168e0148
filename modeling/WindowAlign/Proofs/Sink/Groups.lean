import Mathlib.Data.List.Nodup
import WindowAlign.Proofs.Store.Regrouping
import WindowAlign.Sink.Database

/-!
# Aggregates have different keys

Dimensions are ordered as the list of their names and values is (`dimensionsBefore_iff`), so the order
in which groups are kept is strict. A row goes into the one group of its dimensions
(`insertIntoGroup_ascending`), and a group has at most one aggregate of each position. Where the
metrics of a table have different names, no two of its aggregates are of one metric and group
(`nodup_keys_aggregate`), so that a database with a key over both never refuses them.
-/

namespace WindowAlign

/-- What identifies an aggregate within its window and category. -/
def GroupValue.key (g : GroupValue) : String × Dimensions :=
  (g.metric, g.dimensions)

namespace Aligned

/-! ## The order of dimensions -/

/-- Names and values, one after another. -/
def words (d : Dimensions) : List String :=
  d.flatMap fun p => [p.1, p.2]

theorem words_cons (n v : String) (d : Dimensions) : words ((n, v) :: d) = n :: v :: words d :=
  rfl

theorem words_injective {a b : Dimensions} (h : words a = words b) : a = b := by
  induction a generalizing b with
  | nil =>
    cases b with
    | nil => rfl
    | cons q b => cases h
  | cons p a ih =>
    cases b with
    | nil => cases h
    | cons q b =>
      obtain ⟨n, v⟩ := p
      obtain ⟨m, w⟩ := q
      rw [words_cons, words_cons] at h
      injection h with hn h
      injection h with hv h
      rw [hn, hv, ih h]

theorem dimensionsBefore_iff {a b : Dimensions} :
    dimensionsBefore a b = true ↔ words a < words b := by
  induction a generalizing b with
  | nil =>
    cases b with
    | nil => simp [dimensionsBefore, words]
    | cons q b =>
      simp [dimensionsBefore, words]
  | cons p a ih =>
    cases b with
    | nil => simp [dimensionsBefore, words]
    | cons q b =>
      obtain ⟨n, v⟩ := p
      obtain ⟨m, w⟩ := q
      rw [words_cons, words_cons, List.cons_lt_cons_iff, List.cons_lt_cons_iff, dimensionsBefore]
      by_cases hn : n = m
      · by_cases hv : v = w
        · simp [hn, hv, ih]
        · simp [hn, hv]
      · simp [hn]

theorem dimensionsBefore_trichotomy (a b : Dimensions) :
    dimensionsBefore a b = true ∨ a = b ∨ dimensionsBefore b a = true := by
  rw [dimensionsBefore_iff, dimensionsBefore_iff]
  exact (Table.key_trichotomy (words a) (words b)).imp_right (Or.imp_left words_injective)

theorem ne_of_dimensionsBefore {a b : Dimensions} (h : dimensionsBefore a b = true) : a ≠ b :=
  fun e => Table.key_ne_of_lt (dimensionsBefore_iff.1 h) (congrArg words e)

theorem dimensionsBefore_trans {a b c : Dimensions} (hab : dimensionsBefore a b = true)
    (hbc : dimensionsBefore b c = true) : dimensionsBefore a c = true :=
  dimensionsBefore_iff.2 (List.lt_trans (dimensionsBefore_iff.1 hab) (dimensionsBefore_iff.1 hbc))

/-! ## Groups -/

def Ascending (gs : List (Dimensions × List Values)) : Prop :=
  gs.Pairwise fun g h => dimensionsBefore g.1 h.1 = true

theorem mem_insertIntoGroup {d : Dimensions} {row : Values} {gs : List (Dimensions × List Values)}
    {g : Dimensions × List Values} (hg : g ∈ insertIntoGroup d row gs) :
    g.1 = d ∨ ∃ h ∈ gs, h.1 = g.1 := by
  induction gs with
  | nil => exact .inl (by rw [List.mem_singleton.1 hg])
  | cons e gs ih =>
    rw [insertIntoGroup] at hg
    split at hg
    · rename_i he
      rcases List.mem_cons.1 hg with rfl | hg
      · exact .inl he.symm
      · exact .inr ⟨g, List.mem_cons_of_mem _ hg, rfl⟩
    · split at hg
      · rcases List.mem_cons.1 hg with rfl | hg
        · exact .inl rfl
        · exact .inr ⟨g, hg, rfl⟩
      · rcases List.mem_cons.1 hg with rfl | hg
        · exact .inr ⟨e, List.mem_cons_self, rfl⟩
        · exact (ih hg).imp_right fun ⟨h, hh, e⟩ => ⟨h, List.mem_cons_of_mem _ hh, e⟩

theorem insertIntoGroup_ascending (d : Dimensions) (row : Values)
    {gs : List (Dimensions × List Values)} (h : Ascending gs) :
    Ascending (insertIntoGroup d row gs) := by
  induction gs with
  | nil => exact List.pairwise_singleton ..
  | cons e gs ih =>
    obtain ⟨hbefore, hrest⟩ := List.pairwise_cons.1 h
    rw [insertIntoGroup]
    by_cases heq : d = e.1
    · rw [if_pos heq]
      exact List.pairwise_cons.2 ⟨hbefore, hrest⟩
    · rw [if_neg heq]
      by_cases hlt : dimensionsBefore d e.1 = true
      · rw [if_pos hlt]
        refine List.pairwise_cons.2 ⟨fun g hg => ?_, h⟩
        rcases List.mem_cons.1 hg with rfl | hg
        · exact hlt
        · exact dimensionsBefore_trans hlt (hbefore g hg)
      · rw [if_neg hlt]
        have hgt : dimensionsBefore e.1 d = true :=
          ((dimensionsBefore_trichotomy d e.1).resolve_left hlt).resolve_left heq
        refine List.pairwise_cons.2 ⟨fun g hg => ?_, ih hrest⟩
        rcases mem_insertIntoGroup hg with hd | ⟨k, hk, he⟩
        · rw [hd]
          exact hgt
        · rw [← he]
          exact hbefore k hk

theorem groups_ascending (c : Category) (t : Table) : Ascending (groups c t) :=
  List.foldlRecOn t.rows _ List.Pairwise.nil fun _ h _ _ => insertIntoGroup_ascending _ _ h

/-! ## Aggregates -/

theorem groupValues_dimensions {d : Dimensions} {rows : List Values} {i : Nat}
    {metrics : List String} {g : GroupValue} (hg : g ∈ groupValues d rows i metrics) :
    g.dimensions = d := by
  induction metrics generalizing i with
  | nil => cases hg
  | cons m metrics ih =>
    rw [groupValues] at hg
    split at hg
    · rcases List.mem_cons.1 hg with rfl | hg
      · rfl
      · exact ih hg
    · exact ih hg

theorem groupValues_metrics (d : Dimensions) (rows : List Values) (i : Nat)
    (metrics : List String) :
    ((groupValues d rows i metrics).map (·.metric)).Sublist metrics := by
  induction metrics generalizing i with
  | nil => exact .slnil
  | cons m metrics ih =>
    rw [groupValues]
    split
    · exact (ih (i + 1)).cons_cons m
    · exact (ih (i + 1)).cons m

theorem nodup_keys_groupValues {d : Dimensions} {rows : List Values} {i : Nat}
    {metrics : List String} (h : metrics.Nodup) :
    ((groupValues d rows i metrics).map GroupValue.key).Nodup := by
  refine List.Nodup.of_map Prod.fst ?_
  rw [List.map_map]
  exact (groupValues_metrics d rows i metrics).nodup h

/-- **The aggregates of a table with different metrics have different keys.** -/
theorem nodup_keys_aggregate {a : Aligned} (h : a.table.metrics.Nodup) :
    (a.aggregate.map GroupValue.key).Nodup := by
  rw [aggregate, List.map_flatMap, List.nodup_flatMap]
  refine ⟨fun g _ => nodup_keys_groupValues h, ?_⟩
  refine (groups_ascending a.category a.table).imp fun hlt k hk hk' => ?_
  obtain ⟨x, hx, rfl⟩ := List.mem_map.1 hk
  obtain ⟨y, hy, hkey⟩ := List.mem_map.1 hk'
  have hdims : y.dimensions = x.dimensions := congrArg Prod.snd hkey
  rw [groupValues_dimensions hx, groupValues_dimensions hy] at hdims
  exact ne_of_dimensionsBefore hlt hdims.symm

end Aligned

namespace Database

theorem sameValue_iff {a b : GroupValue} : sameValue a b = true ↔ a.key = b.key := by
  simp [sameValue, GroupValue.key]

theorem hasDuplicate_eq_false {gs : List GroupValue} :
    hasDuplicate gs = false ↔ (gs.map GroupValue.key).Nodup := by
  induction gs with
  | nil => simp [hasDuplicate]
  | cons g gs ih =>
    rw [hasDuplicate, Bool.or_eq_false_iff, ih, List.map_cons, List.nodup_cons, List.mem_map,
      List.any_eq_false]
    refine and_congr_left' ⟨fun h ⟨x, hx, e⟩ => h x hx (sameValue_iff.2 e.symm), fun h x hx e => ?_⟩
    exact h ⟨x, hx, (sameValue_iff.1 e).symm⟩

end Database

end WindowAlign
