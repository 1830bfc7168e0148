import Mathlib.Data.List.Induction
import WindowAlign.Store.Projection
import WindowAlign.Proofs.Store.Operations

/-!
# Sums of a projection

A projection of typed records fails in one way only: a sum of integers leaves the signed 64-bit
range. `Schema.SumsFit` says that none does. A group sums up the records of its key in their order
(`Group.ofRecords_spec`), and a running sum overflows where a partial sum does not fit
(`Total.overflows_ofList`). Sampled records are not summed up, so their projection never fails.
-/

namespace WindowAlign

theorem mapM_of_forall_ok {α β ε : Type} {f : α → Except ε β} {g : α → β} {l : List α}
    (h : ∀ x ∈ l, f x = .ok (g x)) : l.mapM f = .ok (l.map g) := by
  induction l with
  | nil => rfl
  | cons x l ih =>
    rw [List.mapM_cons, h x List.mem_cons_self, ih fun y hy => h y (List.mem_cons_of_mem x hy)]
    rfl

/-- What a cell measures. A text measures nothing. -/
def Cell.measure? : Cell → Option Float
  | .int n => some (Binary64.ofInt n)
  | .real x => some x
  | _ => none

namespace Total

/-- Whether a sum has left the range and met no other number. -/
def overflows : Total → Bool
  | rounded _ _ overflowed => overflowed
  | _ => false

theorem sum?_of_overflows {t : Total} (h : t.overflows = true) :
    t.sum? = .error .integerOverflow := by
  cases t with
  | rounded s c b =>
    have : b = true := h
    rw [this]; rfl
  | _ => cases h

theorem sum?_of_not_overflows {t : Total} (h : t.overflows = false) : ∃ v, t.sum? = .ok v := by
  cases t with
  | nothing => exact ⟨_, rfl⟩
  | exact n => exact ⟨_, rfl⟩
  | rounded s c b =>
    have : b = false := h
    rw [this]
    exact ⟨_, rfl⟩

def integers (cells : List Cell) : List Int :=
  cells.filterMap fun
    | .int n => some n
    | _ => none

def sumOf (ns : List Int) : Int :=
  ns.foldl (· + ·) 0

theorem sumOf_concat (ns : List Int) (n : Int) : sumOf (ns ++ [n]) = sumOf ns + n := by
  simp [sumOf]

/-- Every partial sum of some integers is a signed 64-bit integer. -/
def PartialSumsFit (ns : List Int) : Prop :=
  ∀ n, Signed64.fits (sumOf (ns.take n)) = true

instance (ns : List Int) : Decidable (PartialSumsFit ns) :=
  decidable_of_iff (∀ n < ns.length + 1, Signed64.fits (sumOf (ns.take n)) = true) <| by
    refine ⟨fun h n => ?_, fun h n _ => h n⟩
    rcases Nat.lt_or_ge n (ns.length + 1) with hn | hn
    · exact h n hn
    · have := h ns.length (Nat.lt_succ_self _)
      rwa [List.take_length, ← List.take_of_length_le (show ns.length ≤ n by omega)] at this

theorem partialSumsFit_nil : PartialSumsFit [] := fun n => by rw [List.take_nil]; decide

theorem PartialSumsFit.sum {ns : List Int} (h : PartialSumsFit ns) :
    Signed64.fits (sumOf ns) = true := by
  have := h ns.length
  rwa [List.take_length] at this

theorem partialSumsFit_concat {ns : List Int} {n : Int} :
    PartialSumsFit (ns ++ [n]) ↔ PartialSumsFit ns ∧ Signed64.fits (sumOf ns + n) = true := by
  constructor
  · refine fun h => ⟨fun k => ?_, ?_⟩
    · rcases Nat.le_total k ns.length with hk | hk
      · have := h k
        rwa [List.take_append_of_le_length hk] at this
      · have := h ns.length
        rw [List.take_append_of_le_length (Nat.le_refl _), List.take_length] at this
        rwa [List.take_of_length_le hk]
    · have := h.sum
      rwa [sumOf_concat] at this
  · rintro ⟨h, hn⟩ k
    rcases Nat.lt_or_ge ns.length k with hk | hk
    · rw [List.take_of_length_le (by simp only [List.length_append, List.length_singleton]; omega),
        sumOf_concat]
      exact hn
    · rw [List.take_append_of_le_length hk]
      exact h k

theorem ofList_concat (cells : List Cell) (v : Cell) :
    ofList (cells ++ [v]) = (ofList cells).add v := by
  simp [ofList]

/-- The running sum of integers that fit: exact while the partial sums fit, and an overflow from the
first one on that does not. -/
theorem ofList_spec {cells : List Cell}
    (h : ∀ v ∈ cells, v = .null ∨ ∃ n, v = .int n ∧ Signed64.fits n = true) :
    (PartialSumsFit (integers cells) ∧
      ((integers cells = [] ∧ ofList cells = nothing) ∨
        ofList cells = exact (sumOf (integers cells)))) ∨
    (¬ PartialSumsFit (integers cells) ∧ (ofList cells).overflows = true) := by
  induction cells using List.reverseRecOn with
  | nil => exact .inl ⟨partialSumsFit_nil, .inl ⟨rfl, rfl⟩⟩
  | append_singleton cells v ih =>
    have ih := ih fun u hu => h u (List.mem_append_left _ hu)
    rw [ofList_concat]
    rcases h v (by simp) with rfl | ⟨n, rfl, hn⟩
    · have hsame : integers (cells ++ [.null]) = integers cells := by simp [integers]
      rw [hsame, show (ofList cells).add .null = ofList cells by cases ofList cells <;> rfl]
      exact ih
    · have hmore : integers (cells ++ [.int n]) = integers cells ++ [n] := by simp [integers]
      rw [hmore, partialSumsFit_concat]
      rcases ih with ⟨hfit, ⟨hnil, hlist⟩ | hlist⟩ | ⟨hfit, hlist⟩
      · rw [hlist, hnil]
        exact .inl ⟨⟨partialSumsFit_nil, by simpa [sumOf] using hn⟩, .inr (by simp [add, sumOf])⟩
      · rw [hlist, sumOf_concat]
        cases hsum : Signed64.fits (sumOf (integers cells) + n) with
        | true =>
          refine .inl ⟨⟨hfit, rfl⟩, .inr ?_⟩
          simp [add, hsum]
        | false =>
          refine .inr ⟨fun h => Bool.false_ne_true h.2, ?_⟩
          simp [add, hsum, overflows]
      · refine .inr ⟨fun h => hfit h.1, ?_⟩
        cases ht : ofList cells with
        | rounded s c b =>
          rw [ht] at hlist
          exact hlist
        | _ => rw [ht] at hlist; cases hlist

/-- **A sum overflows where a partial sum does not fit.** -/
theorem overflows_ofList {cells : List Cell}
    (h : ∀ v ∈ cells, v = .null ∨ ∃ n, v = .int n ∧ Signed64.fits n = true) :
    (ofList cells).overflows = false ↔ PartialSumsFit (integers cells) := by
  rcases ofList_spec h with ⟨hfit, ⟨-, e⟩ | e⟩ | ⟨hfit, e⟩
  · simp [hfit, e, overflows]
  · simp [hfit, e, overflows]
  · simp [hfit, e]

theorem mapM_sum? (ts : List Total) :
    ((∀ t ∈ ts, t.overflows = false) → ∃ vs, ts.mapM sum? = .ok vs) ∧
      ((∃ t ∈ ts, t.overflows = true) → ts.mapM sum? = .error .integerOverflow) := by
  induction ts with
  | nil => exact ⟨fun _ => ⟨[], rfl⟩, fun ⟨_, h, _⟩ => by cases h⟩
  | cons t ts ih =>
    rw [List.mapM_cons]
    cases ht : t.overflows with
    | true =>
      refine ⟨fun h => ?_, fun _ => ?_⟩
      · rw [h t List.mem_cons_self] at ht; cases ht
      · rw [sum?_of_overflows ht]; rfl
    | false =>
      obtain ⟨v, hv⟩ := sum?_of_not_overflows ht
      rw [hv]
      refine ⟨fun h => ?_, fun ⟨u, hu, hover⟩ => ?_⟩
      · obtain ⟨vs, hvs⟩ := ih.1 fun u hu => h u (List.mem_cons_of_mem _ hu)
        exact ⟨v :: vs, by rw [hvs]; rfl⟩
      · rcases List.mem_cons.1 hu with rfl | hu
        · rw [hover] at ht; cases ht
        · rw [ih.2 ⟨u, hu, hover⟩]; rfl

end Total

/-! ## Groups -/

namespace Group

variable {s : Schema}

/-- What the metrics of a group come to over a list of records. -/
def totals (s : Schema) (records : List Record) : List Total :=
  s.metricFields.map fun f => Total.ofList (records.map (s.cellOf · f.name))

theorem metrics_add {g : Group} {records : List Record} (h : g.metrics = totals s records)
    (r : Record) : (g.add s r).metrics = totals s (records ++ [r]) := by
  show List.zipWith Total.add g.metrics (s.metricCells r) = _
  rw [h, totals, Schema.metricCells, List.zipWith_map, List.zipWith_self, totals]
  refine List.map_congr_left fun f _ => ?_
  rw [List.map_append, List.map_singleton, Total.ofList_concat]

def sumUp (s : Schema) (records : List Record) : Group :=
  records.foldl (fun g r => g.add s r) (fresh s)

theorem sumUp_concat (records : List Record) (r : Record) :
    sumUp s (records ++ [r]) = (sumUp s records).add s r := by
  simp [sumUp]

theorem metrics_sumUp (records : List Record) : (sumUp s records).metrics = totals s records := by
  induction records using List.reverseRecOn with
  | nil => rfl
  | append_singleton records r ih => rw [sumUp_concat, metrics_add ih]

/-- Groups sum up the records of their keys, and there is a group for each key. -/
def Hold (s : Schema) (records : List Record) (groups : List (Key × Group)) : Prop :=
  (groups.map (·.1)).Nodup ∧
    (∀ k, k ∈ groups.map (·.1) ↔ ∃ r ∈ records, s.dimensionKey r = k) ∧
    ∀ p ∈ groups, p.2 = sumUp s (records.filter (s.dimensionKey · = p.1))

theorem map_fst_insert (r : Record) (groups : List (Key × Group)) :
    (insert s r groups).map (·.1) =
      if s.dimensionKey r ∈ groups.map (·.1) then groups.map (·.1)
      else groups.map (·.1) ++ [s.dimensionKey r] := by
  induction groups with
  | nil => simp [insert]
  | cons p groups ih =>
    obtain ⟨k, g⟩ := p
    unfold insert
    by_cases hk : k = s.dimensionKey r
    · simp [hk]
    · have hk' : ¬ s.dimensionKey r = k := fun e => hk e.symm
      rw [if_neg hk, List.map_cons, ih]
      simp only [List.map_cons, List.mem_cons, hk', false_or]
      split <;> rfl

theorem mem_insert {r : Record} {groups : List (Key × Group)} {p : Key × Group}
    (hp : p ∈ insert s r groups) (hnodup : (groups.map (·.1)).Nodup) :
    (p.1 ≠ s.dimensionKey r ∧ p ∈ groups) ∨
      (p.1 = s.dimensionKey r ∧ ((∃ g, (p.1, g) ∈ groups ∧ p.2 = g.add s r) ∨
        p.1 ∉ groups.map (·.1) ∧ p.2 = (fresh s).add s r)) := by
  induction groups with
  | nil =>
    rw [insert, List.mem_singleton] at hp
    subst hp
    exact .inr ⟨rfl, .inr ⟨by simp, rfl⟩⟩
  | cons q groups ih =>
    obtain ⟨k, g⟩ := q
    obtain ⟨hk, hrest⟩ := List.nodup_cons.1 hnodup
    unfold insert at hp
    split at hp
    · rename_i he
      rcases List.mem_cons.1 hp with rfl | hp
      · exact .inr ⟨he, .inl ⟨g, List.mem_cons_self, rfl⟩⟩
      · refine .inl ⟨fun e => hk ?_, List.mem_cons_of_mem _ hp⟩
        exact List.mem_map.2 ⟨p, hp, e.trans he.symm⟩
    · rename_i he
      rcases List.mem_cons.1 hp with rfl | hp
      · exact .inl ⟨he, List.mem_cons_self⟩
      · rcases ih hp hrest with ⟨h1, h2⟩ | ⟨h1, ⟨g', h2, h3⟩ | ⟨h2, h3⟩⟩
        · exact .inl ⟨h1, List.mem_cons_of_mem _ h2⟩
        · exact .inr ⟨h1, .inl ⟨g', List.mem_cons_of_mem _ h2, h3⟩⟩
        · refine .inr ⟨h1, .inr ⟨fun hmem => ?_, h3⟩⟩
          rcases List.mem_cons.1 hmem with e | hmem
          · exact he (e.symm.trans h1)
          · exact h2 hmem

theorem Hold.insert {records : List Record} {groups : List (Key × Group)}
    (h : Hold s records groups) (r : Record) :
    Hold s (records ++ [r]) (Group.insert s r groups) := by
  obtain ⟨hnodup, hkeys, hsums⟩ := h
  refine ⟨?_, fun k => ?_, fun p hp => ?_⟩
  · rw [map_fst_insert]
    split
    · exact hnodup
    · rename_i hnew
      exact List.nodup_append.2 ⟨hnodup, List.nodup_singleton _, fun a ha b hb e => by
        rw [List.mem_singleton] at hb
        exact hnew (hb ▸ e ▸ ha)⟩
  · have hsame : k ∈ (Group.insert s r groups).map (·.1) ↔
        k ∈ groups.map (·.1) ∨ s.dimensionKey r = k := by
      rw [map_fst_insert]
      split
      · rename_i hold
        exact ⟨.inl, fun h => h.elim id (fun e => e ▸ hold)⟩
      · rw [List.mem_append, List.mem_singleton]
        exact or_congr_right eq_comm
    rw [hsame, hkeys]
    simp only [List.mem_append, List.mem_singleton]
    constructor
    · rintro (⟨a, ha, e⟩ | e)
      · exact ⟨a, .inl ha, e⟩
      · exact ⟨r, .inr rfl, e⟩
    · rintro ⟨a, ha | rfl, e⟩
      · exact .inl ⟨a, ha, e⟩
      · exact .inr e
  · rw [List.filter_append]
    rcases mem_insert hp hnodup with ⟨hne, hold⟩ | ⟨he, ⟨g, hg, e⟩ | ⟨hnew, e⟩⟩
    · rw [hsums p hold]
      simp [Ne.symm hne]
    · have hsum : g = sumUp s (records.filter (s.dimensionKey · = p.1)) := hsums _ hg
      rw [e, hsum, ← sumUp_concat]
      simp [he]
    · -- a new key: none of the earlier records has it
      have hnone : records.filter (s.dimensionKey · = p.1) = [] := by
        refine List.filter_eq_nil_iff.2 fun a ha hk => hnew ((hkeys p.1).2 ⟨a, ha, ?_⟩)
        exact of_decide_eq_true hk
      rw [e, hnone]
      simp [he, sumUp]

/-- **The groups of a list of records sum up the records of their keys.** -/
theorem ofRecords_spec (s : Schema) (records : List Record) :
    Hold s records (ofRecords s records) := by
  induction records using List.reverseRecOn with
  | nil => exact ⟨List.nodup_nil, fun k => by simp [ofRecords], fun p hp => by cases hp⟩
  | append_singleton records r ih =>
    have : ofRecords s (records ++ [r]) = Group.insert s r (ofRecords s records) := by
      simp [ofRecords]
    rw [this]
    exact ih.insert r

end Group

/-! ## Projections -/

namespace Schema

def columnType? (s : Schema) (name : String) : Option FieldType :=
  (s.column? name).bind fun i => (s.columns[i]?).map (·.type)

section Catalog

variable (c : Category)

theorem columnType?_metric : ∀ f ∈ c.schema.metricFields,
    c.schema.columnType? f.name = some f.type ∧ f.type ≠ .text := by
  cases c <;> decide

theorem metric_type_startFinish (h : c.schema.isStartFinish = true) :
    ∀ f ∈ c.schema.metricFields, f.type = .int := by
  cases c <;> first | exact absurd h (by decide) | decide

end Catalog

variable {c : Category} {records : List Record}

theorem Typed.cellOf_metric {r : Record} (h : c.schema.Typed r) {f : Field}
    (hf : f ∈ c.schema.metricFields) : f.type.Holds (c.schema.cellOf r f.name) := by
  obtain ⟨i, hi, hcol⟩ := Option.bind_eq_some_iff.1 (columnType?_metric c f hf).1
  obtain ⟨col, hcol, htype⟩ := Option.map_eq_some_iff.1 hcol
  obtain ⟨v, hv, ha⟩ := h.admits hcol
  rw [Schema.cellOf, hi, Option.bind_some, hv, Option.getD_some, ← htype]
  exact ha.1

theorem filter_key_of_absent {s : Schema} {records : List Record} {k : Key}
    (h : k ∉ records.map s.dimensionKey) : records.filter (s.dimensionKey · = k) = [] :=
  List.filter_eq_nil_iff.2 fun r hr e => h (List.mem_map.2 ⟨r, hr, of_decide_eq_true e⟩)

/-- The integers of a metric in the complete records of a group. -/
def integersOf (s : Schema) (records : List Record) (k : Key) (f : Field) : List Int :=
  Total.integers (((records.filter s.isComplete).filter (s.dimensionKey · = k)).map
    (s.cellOf · f.name))

/-- The sums of a projection, added up in the order of the records, stay in the signed 64-bit
range. -/
def SumsFit (s : Schema) (records : List Record) : Prop :=
  ∀ k, ∀ f ∈ s.metricFields, Total.PartialSumsFit (s.integersOf records k f)

theorem sumsFit_iff_keys {s : Schema} {records : List Record} : s.SumsFit records ↔
    ∀ k ∈ (records.filter s.isComplete).map s.dimensionKey, ∀ f ∈ s.metricFields,
      Total.PartialSumsFit (s.integersOf records k f) := by
  refine ⟨fun h k _ => h k, fun h k f hf => ?_⟩
  by_cases hk : k ∈ (records.filter s.isComplete).map s.dimensionKey
  · exact h k hk f hf
  · rw [integersOf, filter_key_of_absent hk]
    exact Total.partialSumsFit_nil

instance (s : Schema) (records : List Record) : Decidable (s.SumsFit records) :=
  decidable_of_iff _ sumsFit_iff_keys.symm

/-- Groups are put into a table where none of their sums overflows. -/
theorem insertGroups_spec (groups : List (Key × Group)) :
    ∀ t, ((∀ p ∈ groups, ∀ m ∈ p.2.metrics, m.overflows = false) →
        ∃ t', insertGroups groups t = .ok t') ∧
      ((∃ p ∈ groups, ∃ m ∈ p.2.metrics, m.overflows = true) →
        insertGroups groups t = .error .integerOverflow) := by
  induction groups with
  | nil => exact fun t => ⟨fun _ => ⟨t, rfl⟩, fun ⟨_, h, _⟩ => by cases h⟩
  | cons p groups ih =>
    intro t
    obtain ⟨k, g⟩ := p
    obtain ⟨hok, herror⟩ := Total.mapM_sum? g.metrics
    by_cases hg : ∃ m ∈ g.metrics, m.overflows = true
    · refine ⟨fun h => ?_, fun _ => ?_⟩
      · obtain ⟨m, hm, hover⟩ := hg
        rw [h (k, g) List.mem_cons_self m hm] at hover
        cases hover
      · rw [insertGroups, Group.values, herror hg]
    · have hnone : ∀ m ∈ g.metrics, m.overflows = false := fun m hm => by
        cases hm' : m.overflows with
        | true => exact absurd ⟨m, hm, hm'⟩ hg
        | false => rfl
      obtain ⟨vs, hvs⟩ := hok hnone
      have hstep : insertGroups ((k, g) :: groups) t = insertGroups groups
          (t.insert k (some (Binary64.ofInt g.count) :: g.duration.mean? g.count :: vs)) := by
        rw [insertGroups, Group.values, hvs]
      rw [hstep]
      refine ⟨fun h => (ih _).1 fun q hq => h q (List.mem_cons_of_mem _ hq), ?_⟩
      rintro ⟨q, hq, m, hm, hover⟩
      rcases List.mem_cons.1 hq with rfl | hq
      · exact absurd ⟨m, hm, hover⟩ hg
      · exact (ih _).2 ⟨q, hq, m, hm, hover⟩

theorem sumsFit_iff (hc : c.schema.isStartFinish = true) (h : ∀ r ∈ records, c.schema.Typed r) :
    c.schema.SumsFit records ↔
      ∀ p ∈ Group.ofRecords c.schema (records.filter c.schema.isComplete),
        ∀ m ∈ p.2.metrics, m.overflows = false := by
  obtain ⟨-, hkeys, hsums⟩ :=
    Group.ofRecords_spec c.schema (records.filter c.schema.isComplete)
  have hmetrics := fun p hp => (congrArg Group.metrics (hsums p hp)).trans (Group.metrics_sumUp _)
  have hcells : ∀ k, ∀ f ∈ c.schema.metricFields,
      ∀ v ∈ ((records.filter c.schema.isComplete).filter (c.schema.dimensionKey · = k)).map
        (c.schema.cellOf · f.name), v = .null ∨ ∃ n, v = .int n ∧ Signed64.fits n = true := by
    intro k f hf v hv
    obtain ⟨r, hr, rfl⟩ := List.mem_map.1 hv
    have hr := List.mem_of_mem_filter (List.mem_of_mem_filter hr)
    have hholds := (h r hr).cellOf_metric hf
    rw [metric_type_startFinish c hc f hf] at hholds
    exact hholds.int
  constructor
  · intro hfit p hp m hm
    rw [hmetrics p hp] at hm
    obtain ⟨f, hf, rfl⟩ := List.mem_map.1 hm
    exact (Total.overflows_ofList (hcells p.1 f hf)).2 (hfit p.1 f hf)
  · intro hover k f hf
    rw [integersOf, ← Total.overflows_ofList (hcells k f hf)]
    by_cases hk : k ∈ (records.filter c.schema.isComplete).map c.schema.dimensionKey
    · obtain ⟨⟨k', g⟩, hp, rfl⟩ := List.mem_map.1 ((hkeys k).2 (List.mem_map.1 hk))
      refine hover (k', g) hp _ ?_
      rw [hmetrics (k', g) hp]
      exact List.mem_map.2 ⟨f, hf, rfl⟩
    · -- a key without records has an empty sum
      rw [filter_key_of_absent hk]
      rfl

theorem sampleValues_eq {r : Record} (h : c.schema.Typed r) {fields : List Field}
    (hf : ∀ f ∈ fields, f ∈ c.schema.metricFields) (i : Nat) :
    c.schema.sampleValues r i fields =
      .ok (fields.map fun f => (c.schema.cellOf r f.name).measure?) := by
  induction fields generalizing i with
  | nil => rfl
  | cons f fields ih =>
    have hmetric := hf f List.mem_cons_self
    have hholds := h.cellOf_metric hmetric
    have htext := (columnType?_metric c f hmetric).2
    have hvalue : metricValue i f.name (c.schema.cellOf r f.name) =
        .ok (c.schema.cellOf r f.name).measure? := by
      cases hcell : c.schema.cellOf r f.name with
      | text s =>
        rw [hcell] at hholds
        cases htype : f.type with
        | text => exact absurd htype htext
        | _ => rw [htype] at hholds; exact hholds.elim
      | _ => rfl
    rw [sampleValues, hvalue]
    simp only [ih fun f hf' => hf f (List.mem_cons_of_mem _ hf')]
    rfl

theorem insertSamples_ok (h : ∀ r ∈ records, c.schema.Typed r) :
    ∀ t, ∃ t', c.schema.insertSamples records t = .ok t' := by
  induction records with
  | nil => exact fun t => ⟨t, rfl⟩
  | cons r records ih =>
    intro t
    obtain ⟨t', ht'⟩ := ih (fun r hr => h r (List.mem_cons_of_mem _ hr)) (t.insert _ _)
    refine ⟨t', ?_⟩
    rw [insertSamples, sampleValues_eq (h r List.mem_cons_self) fun f hf => hf]
    exact ht'

/-- **A projection of typed records fails where a sum overflows and nowhere else.** -/
theorem project_spec (h : ∀ r ∈ records, c.schema.Typed r) :
    ((c.schema.isStartFinish = true → c.schema.SumsFit records) →
        ∃ t, c.schema.project records = .ok t) ∧
      (¬ (c.schema.isStartFinish = true → c.schema.SumsFit records) →
        c.schema.project records = .error .integerOverflow) := by
  unfold project
  cases hc : c.schema.isStartFinish with
  | false =>
    obtain ⟨t, ht⟩ := insertSamples_ok h (.empty c.schema.projectionDimensions
      c.schema.projectedMetrics)
    exact ⟨fun _ => ⟨t, ht⟩, fun hnot => absurd (fun h => by cases h) hnot⟩
  | true =>
    obtain ⟨hok, herror⟩ := insertGroups_spec
      (Group.ofRecords c.schema (records.filter c.schema.isComplete))
      (.empty c.schema.projectionDimensions c.schema.projectedMetrics)
    refine ⟨fun hfit => hok ((sumsFit_iff hc h).1 (hfit rfl)), fun hnot => herror ?_⟩
    by_contra hnone
    refine hnot fun _ => (sumsFit_iff hc h).2 fun p hp m hm => ?_
    cases hm' : m.overflows with
    | true => exact absurd ⟨p, hp, m, hm, hm'⟩ hnone
    | false => rfl

end Schema

end WindowAlign
