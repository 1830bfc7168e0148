import WindowAlign.Proofs.Store.Coalescing

/-!
# Samples of one identity

A sample replaces the stored one as a whole, unless it is older. So whatever a snapshot holds and
however the rows come, what is stored of an identity is the last of the newest rows, in all of its
columns, empty ones among them (`Schema.Sampled`); nothing of an older sample is left in it. The rows of
one identity are a fold over the stored record, and the argument is an induction over them
(`lastNewest_joinRows`). A column keeps a cell of its type as it is, but for doubles: it keeps no NaN,
and no sign of a zero (`Typed.keep_eq_recorded`).
-/

namespace WindowAlign

/-- A cell as a column of its type keeps it: NaN as nothing, and a zero without its sign. -/
def Cell.recorded : Cell → Cell
  | real x => ofReal (Binary64.dropZeroSign x)
  | v => v

theorem FieldType.store_of_holds {t : FieldType} {v : Cell} (h : t.Holds v) :
    t.store v = v.recorded := by
  cases t <;> cases v <;> first | rfl | exact h.elim

namespace Schema

/-- A record is the last of the newest ones among some that came in order. -/
def LastNewest (s : Schema) (r : Record) (records : List Record) : Prop :=
  ∃ before after, records = before ++ r :: after ∧
    (∀ a ∈ before, (s.lastUpdated a).le (s.lastUpdated r) = true) ∧
    ∀ a ∈ after, (s.lastUpdated r).le (s.lastUpdated a) = false

/-- What rows of samples make of the records of a snapshot. -/
structure Sampled (s : Schema) (rows : List Row) (before after : List Record) : Prop where
  /-- No two records have one identity. -/
  unique : s.Unique after
  /-- What no row is about is as it was. -/
  untouched : ∀ k, s.rowsOf k rows = [] → s.recordOf? k after = s.recordOf? k before
  /-- What some row is about is, in every column, the last of the newest among what was there before and
  the rows. -/
  newest : ∀ k, s.rowsOf k rows ≠ [] → ∃ r, s.recordOf? k after = some r ∧
    s.LastNewest r ((s.recordOf? k before).toList ++
      (s.rowsOf k rows).map (·.cells.map Cell.recorded))

variable {c : Category} {rows : List Row} {stored : Option Record}

/-- **The columns keep the cells of a typed row**, NaN and the signs of zeros apart. -/
theorem Typed.keep_eq_recorded {cells : List Cell} (h : c.schema.Typed cells) :
    c.schema.keep cells = cells.map Cell.recorded := by
  have hall : ∀ {cols : List Column} {cells : List Cell}, List.Forall₂ Column.Admits cols cells →
      List.zipWith (fun col v => col.type.store v) cols cells = cells.map Cell.recorded := by
    intro cols cells h
    induction h with
    | nil => rfl
    | cons hv _ ih => rw [List.zipWith_cons_cons, List.map_cons, FieldType.store_of_holds hv.1, ih]
  exact hall h

/-! ## The rows of one identity -/

section Newest

variable {s : Schema} {a b r : Record} {records : List Record}

theorem LastNewest.cons_of_le (hab : (s.lastUpdated a).le (s.lastUpdated b) = true)
    (h : s.LastNewest r (b :: records)) : s.LastNewest r (a :: b :: records) := by
  obtain ⟨before, after, hsplit, hbefore, hafter⟩ := h
  have hbr : (s.lastUpdated b).le (s.lastUpdated r) = true := by
    cases before with
    | nil =>
      cases hsplit
      exact Cell.le_refl _
    | cons x before =>
      cases hsplit
      exact hbefore _ List.mem_cons_self
  refine ⟨a :: before, after, by rw [hsplit]; rfl, List.forall_mem_cons.2 ⟨?_, hbefore⟩, hafter⟩
  exact Cell.le_trans hab hbr

theorem LastNewest.cons_of_not_le (hab : (s.lastUpdated a).le (s.lastUpdated b) = false)
    (h : s.LastNewest r (a :: records)) : s.LastNewest r (a :: b :: records) := by
  obtain ⟨before, after, hsplit, hbefore, hafter⟩ := h
  cases before with
  | nil =>
    cases hsplit
    exact ⟨[], b :: records, rfl, List.forall_mem_nil _, List.forall_mem_cons.2 ⟨hab, hafter⟩⟩
  | cons x before =>
    cases hsplit
    obtain ⟨har, hbefore⟩ := List.forall_mem_cons.1 hbefore
    have hba := (Cell.le_total (s.lastUpdated a) (s.lastUpdated b)).resolve_left
      (by rw [hab]; decide)
    refine ⟨a :: b :: before, after, rfl, ?_, hafter⟩
    exact List.forall_mem_cons.2 ⟨har, List.forall_mem_cons.2 ⟨Cell.le_trans hba har, hbefore⟩⟩

end Newest

/-- **The last of the newest rows is stored.** -/
theorem lastNewest_joinRows (hc : c.schema.isStartFinish = false) {r : Record}
    (h : c.schema.joinRows rows stored = some r) :
    c.schema.LastNewest r (stored.toList ++ rows.map (c.schema.keep ·.cells)) := by
  induction rows generalizing stored with
  | nil =>
    rw [show stored = some r from h]
    exact ⟨[], [], rfl, List.forall_mem_nil _, List.forall_mem_nil _⟩
  | cons row rows ih =>
    rw [joinRows_cons] at h
    have hrest := ih h
    cases stored with
    | none => exact hrest
    | some a =>
      change c.schema.LastNewest r
        (c.schema.merge a (c.schema.keep row.cells) :: rows.map (c.schema.keep ·.cells)) at hrest
      rw [merge_of_sampled hc] at hrest
      split at hrest
      · rename_i hle
        exact hrest.cons_of_le hle
      · rename_i hle
        exact hrest.cons_of_not_le (Bool.eq_false_iff.2 hle)

/-! ## All rows of a snapshot -/

/-- **Of samples the newest are kept.** -/
theorem upserts_sampled (hc : c.schema.isStartFinish = false)
    (hr : ∀ row ∈ rows, c.schema.Typed row.cells) {l : List Record} (hu : c.schema.Unique l)
    (hs : ∀ a ∈ l, c.schema.Stored a) :
    c.schema.Sampled rows l (c.schema.upserts rows l) := by
  have hjoin := recordOf?_upserts_typed hr hs
  refine ⟨hu.upserts (fun row h => (hr row h).keep.stored) hs, fun k hnone => ?_, fun k hsome => ?_⟩
  · rw [hjoin]
    show c.schema.joinRows (c.schema.rowsOf k rows) _ = _
    rw [hnone]
    rfl
  · obtain ⟨r, h⟩ := exists_joinRows hsome (c.schema.recordOf? k l)
    have hkeep : (c.schema.rowsOf k rows).map (c.schema.keep ·.cells) =
        (c.schema.rowsOf k rows).map (·.cells.map Cell.recorded) :=
      List.map_congr_left fun row hrow => (hr row (List.mem_of_mem_filter hrow)).keep_eq_recorded
    refine ⟨r, (hjoin k).trans h, ?_⟩
    rw [← hkeep]
    exact lastNewest_joinRows hc h

end Schema

namespace Store

variable {s : Store} {c : Category}

/-- **The newest sample wins as a whole, whatever the snapshot holds and however the rows come.** Rows
of the columns' types are never refused; afterwards there is one record an identity, which is, in
every column, the last to come among those with the greatest update time, what was there before being
the first; and an identity that no row has keeps its record. -/
theorem writeAll_sampled (hs : s.Keyed) (hc : c.schema.isStartFinish = false) (w : Int)
    (batches : List (List Row))
    (h : ∀ rows ∈ batches, ∀ row ∈ rows, c.schema.Typed row.cells) :
    ∃ s', s.writeAll c w batches = .ok s' ∧
      c.schema.Sampled batches.flatten (s.records c w) (s'.records c w) := by
  obtain ⟨s', hok, hrecords⟩ := s.writeAll_typed c w h
  have hrows : ∀ row ∈ batches.flatten, c.schema.Typed row.cells := by
    intro row hrow
    obtain ⟨rows, hmem, hrow⟩ := List.mem_flatten.1 hrow
    exact h rows hmem row hrow
  refine ⟨s', hok, ?_⟩
  obtain ⟨hunique, hstored⟩ := hs.getD c w
  rw [hrecords, records_eq]
  exact Schema.upserts_sampled hc hrows hunique hstored

def threadRow (id : String) (name use : Cell) (taken : Int) : Row where
  cells := [.text id, name, use] ++ List.replicate 11 .null ++ [.int taken]
  observedAt := taken

/-- A thread of which an older sample comes late, and two of one time come after it, the last of which
has no name. -/
theorem writeAll_sampled_lateSample : ∃ s',
    ((after 5000 [.write .osMetrics 5000 [threadRow "7" (.text "main") (.real 40) 5200]]).writeAll
      .osMetrics 5000 [[threadRow "7" (.text "main") (.real 10) 5100, threadRow "8" .null .null 5150],
        [], [threadRow "7" (.text "main") (.real 55) 5300, threadRow "7" .null (.real 60) 5300]]) =
      .ok s' ∧
    Category.osMetrics.schema.Sampled
      [threadRow "7" (.text "main") (.real 10) 5100, threadRow "8" .null .null 5150,
        threadRow "7" (.text "main") (.real 55) 5300, threadRow "7" .null (.real 60) 5300]
      ((after 5000 [.write .osMetrics 5000
        [threadRow "7" (.text "main") (.real 40) 5200]]).records .osMetrics 5000)
      (s'.records .osMetrics 5000) :=
  writeAll_sampled (keyed_after 5000 _) (by decide) 5000 _ (by decide)

end Store

end WindowAlign
