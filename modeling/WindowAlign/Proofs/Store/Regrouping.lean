import WindowAlign.Proofs.Store.Sums

/-!
# Projections in any order

A table keeps its rows by key, so rows of different keys may be put in in any order
(`Table.insertAll_perm`). Sampled records have different keys. Operations are grouped by theirs, and a
group adds up the same where its sums are exact, in whatever order its records come
(`Group.sumUp_perm`): a sum that was rounded, because an integer sum or difference left the signed
64-bit range or because a cell was no integer, may depend on the order. So a projection depends on
which records there are, and not on their order (`Schema.project_perm`).
-/

namespace WindowAlign

/-! ## Rows of a table -/

namespace Table

theorem key_trichotomy (a b : Key) : a < b ∨ a = b ∨ b < a := by
  by_cases hab : a < b
  · exact .inl hab
  by_cases hba : b < a
  · exact .inr (.inr hba)
  · exact .inr (.inl (List.le_antisymm (List.not_lt.1 hba) (List.not_lt.1 hab)))

theorem key_ne_of_lt {a b : Key} (h : a < b) : a ≠ b := fun e =>
  List.lt_irrefl b (e ▸ h)

theorem insertRow_of_lt {a k : Key} (h : a < k) (va v : Values) (rows : List (Key × Values)) :
    insertRow a va ((k, v) :: rows) = (a, va) :: (k, v) :: rows :=
  if_pos h

theorem insertRow_of_gt {a k : Key} (h : k < a) (va v : Values) (rows : List (Key × Values)) :
    insertRow a va ((k, v) :: rows) = (k, v) :: insertRow a va rows := by
  rw [insertRow, if_neg (List.lt_asymm h), if_neg fun e => key_ne_of_lt h e.symm]

theorem insertRow_self (k : Key) (va v : Values) (rows : List (Key × Values)) :
    insertRow k va ((k, v) :: rows) = (k, va) :: rows := by
  rw [insertRow, if_neg (List.lt_irrefl k), if_pos rfl]

theorem insertRow_comm_of_lt {a b : Key} (h : a < b) (va vb : Values)
    (rows : List (Key × Values)) :
    insertRow b vb (insertRow a va rows) = insertRow a va (insertRow b vb rows) := by
  induction rows with
  | nil =>
    have hb : insertRow b vb (insertRow a va []) = [(a, va), (b, vb)] := insertRow_of_gt h ..
    have ha : insertRow a va (insertRow b vb []) = [(a, va), (b, vb)] := insertRow_of_lt h ..
    rw [hb, ha]
  | cons p rows ih =>
    obtain ⟨k, v⟩ := p
    rcases key_trichotomy a k with hak | rfl | hka
    · rw [insertRow_of_lt hak, insertRow_of_gt h]
      rcases key_trichotomy b k with hbk | rfl | hkb
      · rw [insertRow_of_lt hbk, insertRow_of_lt h]
      · rw [insertRow_self, insertRow_of_lt h]
      · rw [insertRow_of_gt hkb, insertRow_of_lt hak]
    · rw [insertRow_self, insertRow_of_gt h, insertRow_of_gt h, insertRow_self]
    · have hkb : k < b := List.lt_trans hka h
      rw [insertRow_of_gt hka, insertRow_of_gt hkb, insertRow_of_gt hkb, insertRow_of_gt hka, ih]

theorem insert_comm {a b : Key} (h : a ≠ b) (va vb : Values) (t : Table) :
    (t.insert a va).insert b vb = (t.insert b vb).insert a va := by
  unfold insert
  rcases key_trichotomy a b with hab | rfl | hba
  · simp only [insertRow_comm_of_lt hab]
  · exact absurd rfl h
  · simp only [insertRow_comm_of_lt hba]

/-- A table with rows put in in turn, up to the first whose values are refused. -/
def insertAll : List (Key × Except StorageFault Values) → Table → Except StorageFault Table
  | [], t => .ok t
  | (_, .error e) :: _, _ => .error e
  | (k, .ok values) :: rest, t => insertAll rest (t.insert k values)

/-- **Rows of different keys may be put in in any order.** -/
theorem insertAll_perm {l l' : List (Key × Except StorageFault Values)} (h : l.Perm l')
    (hkeys : (l.map (·.1)).Nodup) (t t' : Table) :
    insertAll l t = .ok t' ↔ insertAll l' t = .ok t' := by
  induction h generalizing t with
  | nil => exact Iff.rfl
  | cons p _ ih =>
    obtain ⟨k, values⟩ := p
    cases values with
    | error e => exact Iff.rfl
    | ok values => exact ih (List.nodup_cons.1 hkeys).2 _
  | swap p q l =>
    obtain ⟨k, values⟩ := p
    obtain ⟨k', values'⟩ := q
    have hne : k' ≠ k := fun e => (List.nodup_cons.1 hkeys).1 (e ▸ List.mem_cons_self)
    cases values with
    | error e => cases values' <;> simp [insertAll]
    | ok values =>
      cases values' with
      | error e' => simp [insertAll]
      | ok values' =>
        show insertAll l ((t.insert k' values').insert k values) = .ok t' ↔
          insertAll l ((t.insert k values).insert k' values') = .ok t'
        rw [insert_comm hne]
  | trans h₁ _ ih₁ ih₂ =>
    exact (ih₁ hkeys t).trans (ih₂ ((h₁.map _).nodup_iff.1 hkeys) t)

end Table

/-! ## Exact sums -/

namespace Total

/-- Whether a sum is one of integers that never left the range. -/
def isExact : Total → Bool
  | rounded _ _ _ => false
  | _ => true

theorem isExact_add {t : Total} {v : Cell} (h : (t.add v).isExact = true) :
    t.isExact = true ∧ (v = .null ∧ t.add v = t ∨
      ∃ n, v = .int n ∧ (t = nothing ∧ t.add v = exact n ∨
        ∃ m, t = exact m ∧ t.add v = exact (m + n))) := by
  cases v with
  | null =>
    have hsame : t.add .null = t := by cases t <;> rfl
    rw [hsame] at h
    exact ⟨h, .inl ⟨rfl, hsame⟩⟩
  | int n =>
    cases t with
    | nothing => exact ⟨rfl, .inr ⟨n, rfl, .inl ⟨rfl, rfl⟩⟩⟩
    | exact m =>
      cases hfits : Signed64.fits (m + n) with
      | true => exact ⟨rfl, .inr ⟨n, rfl, .inr ⟨m, rfl, by simp [add, hfits]⟩⟩⟩
      | false => simp [add, hfits, isExact] at h
    | rounded s c b => cases h
  | real x => cases t <;> cases h
  | text s => cases t <;> cases h

/-- **An exact sum is the sum of the integers.** -/
theorem ofList_of_isExact {cells : List Cell} (h : (ofList cells).isExact = true) :
    ofList cells = if integers cells = [] then nothing else exact (sumOf (integers cells)) := by
  induction cells using List.reverseRecOn with
  | nil => rfl
  | append_singleton cells v ih =>
    rw [ofList_concat] at h ⊢
    obtain ⟨hexact, ⟨rfl, hadd⟩ | ⟨n, rfl, hadd⟩⟩ := isExact_add h
    · have hsame : integers (cells ++ [.null]) = integers cells := by simp [integers]
      rw [hadd, hsame]
      exact ih hexact
    · have hmore : integers (cells ++ [.int n]) = integers cells ++ [n] := by simp [integers]
      have hne : integers cells ++ [n] ≠ [] := by simp
      rw [hmore, if_neg hne, sumOf_concat]
      have ih := ih hexact
      rcases hadd with ⟨hnothing, hadd⟩ | ⟨m, hm, hadd⟩
      · rw [hnothing] at ih
        split at ih
        · rename_i hnil
          rw [hadd, hnil]
          simp [sumOf]
        · cases ih
      · rw [hm] at ih
        split at ih
        · cases ih
        · rw [hadd, exact.inj ih]

theorem isExact_ofList {cells : List Cell}
    (h : ∀ v ∈ cells, v = .null ∨ ∃ n, v = .int n ∧ Signed64.fits n = true)
    (hfit : PartialSumsFit (integers cells)) : (ofList cells).isExact = true := by
  rcases ofList_spec h with ⟨-, ⟨-, e⟩ | e⟩ | ⟨hnot, -⟩
  · rw [e]; rfl
  · rw [e]; rfl
  · exact absurd hfit hnot

theorem sumOf_perm {ns ns' : List Int} (h : ns.Perm ns') : sumOf ns = sumOf ns' :=
  h.foldl_eq' (fun x _ y _ z => Int.add_right_comm z x y) 0

theorem ofList_perm {cells cells' : List Cell} (h : cells.Perm cells')
    (hexact : (ofList cells).isExact = true) (hexact' : (ofList cells').isExact = true) :
    ofList cells = ofList cells' := by
  have hints : (integers cells).Perm (integers cells') := h.filterMap _
  have hnil : integers cells = [] ↔ integers cells' = [] := by
    rw [← List.length_eq_zero_iff, hints.length_eq, List.length_eq_zero_iff]
  rw [ofList_of_isExact hexact, ofList_of_isExact hexact', sumOf_perm hints]
  simp only [hnil]

end Total

/-! ## Groups -/

namespace Group

variable {s : Schema}

/-- No sum of a group was rounded. -/
structure Exact (g : Group) : Prop where
  duration : g.duration.isExact = true
  metrics : ∀ m ∈ g.metrics, m.isExact = true

theorem duration_sumUp (records : List Record) : (sumUp s records).duration =
    .ofList (records.map fun r => (s.endTime r).minus (s.startTime r)) := by
  induction records using List.reverseRecOn with
  | nil => rfl
  | append_singleton records r ih =>
    rw [sumUp_concat, List.map_append, List.map_singleton, Total.ofList_concat, ← ih]
    rfl

theorem count_sumUp (records : List Record) : (sumUp s records).count = records.length := by
  induction records using List.reverseRecOn with
  | nil => rfl
  | append_singleton records r ih =>
    rw [sumUp_concat, List.length_append, ← ih]
    rfl

/-- **Exact groups of the same records are the same.** -/
theorem sumUp_perm {records records' : List Record} (h : records.Perm records')
    (hexact : (sumUp s records).Exact) (hexact' : (sumUp s records').Exact) :
    sumUp s records = sumUp s records' := by
  have hcount : (sumUp s records).count = (sumUp s records').count := by
    rw [count_sumUp, count_sumUp, h.length_eq]
  have hduration : (sumUp s records).duration = (sumUp s records').duration := by
    have h1 := hexact.duration
    have h2 := hexact'.duration
    rw [duration_sumUp] at h1 h2 ⊢
    rw [duration_sumUp]
    exact Total.ofList_perm (h.map _) h1 h2
  have hmetrics : (sumUp s records).metrics = (sumUp s records').metrics := by
    have h1 := hexact.metrics
    have h2 := hexact'.metrics
    rw [metrics_sumUp] at h1 h2 ⊢
    rw [metrics_sumUp]
    refine List.map_congr_left fun f hf => Total.ofList_perm (h.map _) ?_ ?_
    · exact h1 _ (List.mem_map.2 ⟨f, hf, rfl⟩)
    · exact h2 _ (List.mem_map.2 ⟨f, hf, rfl⟩)
  generalize sumUp s records = g at hcount hduration hmetrics ⊢
  generalize sumUp s records' = g' at hcount hduration hmetrics ⊢
  cases g
  cases g'
  simp only at hcount hduration hmetrics
  rw [hcount, hduration, hmetrics]

theorem ofRecords_perm {records records' : List Record} (h : records.Perm records')
    (hexact : ∀ p ∈ ofRecords s records, p.2.Exact)
    (hexact' : ∀ p ∈ ofRecords s records', p.2.Exact) :
    (ofRecords s records).Perm (ofRecords s records') := by
  have hmem : ∀ {l l' : List Record}, l.Perm l' → (∀ p ∈ ofRecords s l, p.2.Exact) →
      (∀ p ∈ ofRecords s l', p.2.Exact) → ∀ p ∈ ofRecords s l, p ∈ ofRecords s l' := by
    intro l l' hl h1 h2 p hp
    obtain ⟨-, hkeys, hsums⟩ := ofRecords_spec s l
    obtain ⟨-, hkeys', hsums'⟩ := ofRecords_spec s l'
    obtain ⟨r, hr, hrk⟩ := (hkeys p.1).1 (List.mem_map.2 ⟨p, hp, rfl⟩)
    obtain ⟨q, hq, hqk⟩ := List.mem_map.1 ((hkeys' p.1).2 ⟨r, hl.mem_iff.1 hr, hrk⟩)
    have hpsum := hsums p hp
    have hqsum := hsums' q hq
    rw [hqk] at hqsum
    have heq : q.2 = p.2 := by
      have hpe := h1 p hp
      have hqe := h2 q hq
      rw [hpsum] at hpe ⊢
      rw [hqsum] at hqe ⊢
      exact (sumUp_perm (hl.filter _) hpe hqe).symm
    rwa [← Prod.ext hqk heq]
  refine (List.perm_ext_iff_of_nodup ?_ ?_).2 fun p =>
    ⟨hmem h hexact hexact' p, hmem h.symm hexact' hexact p⟩
  · exact (ofRecords_spec s records).1.of_map
  · exact (ofRecords_spec s records').1.of_map

end Group

/-! ## Projections -/

namespace Schema

variable {s : Schema} {c : Category}

theorem insertSamples_eq (records : List Record) (t : Table) :
    s.insertSamples records t = Table.insertAll (records.map fun r =>
      (s.dimensionKey r, s.sampleValues r s.projectionDimensions.length s.metricFields)) t := by
  induction records generalizing t with
  | nil => rfl
  | cons r records ih =>
    rw [insertSamples, List.map_cons]
    cases s.sampleValues r s.projectionDimensions.length s.metricFields with
    | error e => rfl
    | ok values => exact ih _

theorem insertGroups_eq (groups : List (Key × Group)) (t : Table) :
    insertGroups groups t = Table.insertAll (groups.map fun p => (p.1, p.2.values)) t := by
  induction groups generalizing t with
  | nil => rfl
  | cons p groups ih =>
    obtain ⟨k, g⟩ := p
    rw [insertGroups, List.map_cons]
    cases g.values with
    | error e => rfl
    | ok values => exact ih _

theorem identity_eq_take (hc : c.schema.isStartFinish = false) (r : Record) :
    c.schema.identity r = (c.schema.dimensionKey r).take c.schema.keyFields.length := by
  cases c <;> first | rfl | exact absurd hc (by decide)

theorem Unique.nodup_dimensionKey {records : List Record} (hu : c.schema.Unique records)
    (hc : c.schema.isStartFinish = false) : (records.map c.schema.dimensionKey).Nodup := by
  have hids : records.map c.schema.identity =
      (records.map c.schema.dimensionKey).map (·.take c.schema.keyFields.length) := by
    rw [List.map_map]
    exact List.map_congr_left fun r _ => identity_eq_take hc r
  unfold Unique at hu
  rw [hids] at hu
  exact hu.of_map

/-- No sum or difference of a projection was rounded. Sampled records are not added up. -/
def Exact (s : Schema) (records : List Record) : Prop :=
  s.isStartFinish = true → ∀ p ∈ Group.ofRecords s (records.filter s.isComplete), p.2.Exact

/-- The durations of complete records, and those of a group added up in the order of the records, stay
in the signed 64-bit range. -/
structure DurationsFit (s : Schema) (records : List Record) : Prop where
  each : ∀ r ∈ records.filter s.isComplete,
    ∃ n, (s.endTime r).minus (s.startTime r) = .int n ∧ Signed64.fits n = true
  sums : ∀ k, Total.PartialSumsFit (Total.integers
    (((records.filter s.isComplete).filter (s.dimensionKey · = k)).map
      fun r => (s.endTime r).minus (s.startTime r)))

instance : (v : Cell) → Decidable (∃ n, v = .int n ∧ Signed64.fits n = true)
  | .int n => decidable_of_iff (Signed64.fits n = true)
      ⟨fun h => ⟨n, rfl, h⟩, fun ⟨_, e, h⟩ => Cell.int.inj e ▸ h⟩
  | .null | .real _ | .text _ => .isFalse fun ⟨_, e, _⟩ => by cases e

theorem durationsFit_iff_keys {records : List Record} : s.DurationsFit records ↔
    (∀ r ∈ records.filter s.isComplete,
      ∃ n, (s.endTime r).minus (s.startTime r) = .int n ∧ Signed64.fits n = true) ∧
    ∀ k ∈ (records.filter s.isComplete).map s.dimensionKey, Total.PartialSumsFit (Total.integers
      (((records.filter s.isComplete).filter (s.dimensionKey · = k)).map
        fun r => (s.endTime r).minus (s.startTime r))) := by
  refine ⟨fun h => ⟨h.each, fun k _ => h.sums k⟩, fun h => ⟨h.1, fun k => ?_⟩⟩
  by_cases hk : k ∈ (records.filter s.isComplete).map s.dimensionKey
  · exact h.2 k hk
  · rw [filter_key_of_absent hk]
    exact Total.partialSumsFit_nil

instance (s : Schema) (records : List Record) : Decidable (s.DurationsFit records) :=
  decidable_of_iff _ durationsFit_iff_keys.symm

theorem exact_sumUp {records : List Record} (hc : c.schema.isStartFinish = true)
    (h : ∀ r ∈ records, c.schema.Typed r) (hsums : c.schema.SumsFit records)
    (hdurations : c.schema.DurationsFit records) (k : Key) :
    (Group.sumUp c.schema
      ((records.filter c.schema.isComplete).filter (c.schema.dimensionKey · = k))).Exact := by
  refine ⟨?_, fun m hm => ?_⟩
  · rw [Group.duration_sumUp]
    refine Total.isExact_ofList (fun v hv => ?_) (hdurations.sums k)
    obtain ⟨r, hr, rfl⟩ := List.mem_map.1 hv
    exact .inr (hdurations.each r (List.mem_of_mem_filter hr))
  · rw [Group.metrics_sumUp] at hm
    obtain ⟨f, hf, rfl⟩ := List.mem_map.1 hm
    refine Total.isExact_ofList (fun v hv => ?_) (hsums k f hf)
    obtain ⟨r, hr, rfl⟩ := List.mem_map.1 hv
    have hr := List.mem_of_mem_filter (List.mem_of_mem_filter hr)
    have hholds := (h r hr).cellOf_metric hf
    rw [metric_type_startFinish c hc f hf] at hholds
    exact hholds.int

/-- **Of typed records a sum is rounded only where integers leave the range.** -/
theorem exact_of_fits {records : List Record} (h : ∀ r ∈ records, c.schema.Typed r)
    (hsums : c.schema.SumsFit records) (hdurations : c.schema.DurationsFit records) :
    c.schema.Exact records := by
  intro hc p hp
  obtain ⟨-, -, hgroups⟩ := Group.ofRecords_spec c.schema (records.filter c.schema.isComplete)
  rw [hgroups p hp]
  exact exact_sumUp hc h hsums hdurations p.1

/-- **A projection does not depend on the order of the records**, where no sum of it is rounded. -/
theorem project_perm {records records' : List Record} (h : records.Perm records')
    (hu : c.schema.Unique records) (hexact : c.schema.Exact records)
    (hexact' : c.schema.Exact records') (t : Table) :
    c.schema.project records = .ok t ↔ c.schema.project records' = .ok t := by
  unfold project
  cases hc : c.schema.isStartFinish with
  | true =>
    have hgroups := Group.ofRecords_perm (h.filter c.schema.isComplete) (hexact hc) (hexact' hc)
    simp only [↓reduceIte, insertGroups_eq]
    refine Table.insertAll_perm (hgroups.map _) ?_ _ t
    rw [List.map_map]
    exact (Group.ofRecords_spec c.schema (records.filter c.schema.isComplete)).1
  | false =>
    simp only [Bool.false_eq_true, ↓reduceIte, insertSamples_eq]
    refine Table.insertAll_perm (h.map _) ?_ _ t
    rw [List.map_map]
    exact hu.nodup_dimensionKey hc

end Schema

end WindowAlign
