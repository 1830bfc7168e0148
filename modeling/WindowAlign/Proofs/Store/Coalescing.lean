import WindowAlign.Proofs.Store.Merging

/-!
# Halves of operations

The rows of an operation may come in any order, in any batches, and more than once, to a snapshot that
may hold the operation already. `Schema.Coalesced` says what the records are afterwards: one record an
identity; in each column the last cell that was not empty, else what was there before; the greatest of
the update times; and what no row is about is as it was. The rows of one identity are a fold over the
stored record (`Schema.joinRows`), so each column and the update time is an induction over the rows
(`getD_joinRows`, `lastUpdated_joinRows`), and what is said of all identities follows from
`recordOf?_upserts_typed`. Batches make no difference: `Store.writeAll_typed` writes them as one list.
-/

namespace WindowAlign

namespace Cell

/-- The last of some cells that holds something. -/
def lastHeld? (cells : List Cell) : Option Cell :=
  cells.reverse.find? (!·.isNull)

/-- A cell of a list that no other is greater than. -/
def IsGreatest (a : Cell) (cells : List Cell) : Prop :=
  a ∈ cells ∧ ∀ b ∈ cells, b.le a = true

theorem getD_lastHeld?_cons (a : Cell) (cells : List Cell) (initial : Cell) :
    (lastHeld? (a :: cells)).getD initial = (lastHeld? cells).getD (a.orElse initial) := by
  unfold lastHeld?
  rw [List.reverse_cons, List.find?_append]
  cases List.find? (!·.isNull) cells.reverse with
  | some b => rfl
  | none => cases a <;> rfl

theorem IsGreatest.of_greater {a b t : Cell} {cells : List Cell}
    (h : IsGreatest t (b.greater a :: cells)) : IsGreatest t (a :: b :: cells) := by
  obtain ⟨hmem, hle⟩ := h
  have hboth : a.le (b.greater a) = true ∧ b.le (b.greater a) = true := by
    unfold greater
    cases hab : a.le b with
    | true => exact ⟨hab, le_refl b⟩
    | false => exact ⟨le_refl a, (le_total a b).resolve_left (by rw [hab]; decide)⟩
  have htop := hle _ List.mem_cons_self
  constructor
  · rcases List.mem_cons.1 hmem with rfl | hmem
    · rcases greater_eq b a with e | e <;> rw [e] <;> simp
    · simp [hmem]
  · intro c hc
    rcases List.mem_cons.1 hc with rfl | hc
    · exact le_trans hboth.1 htop
    rcases List.mem_cons.1 hc with rfl | hc
    · exact le_trans hboth.2 htop
    · exact hle c (List.mem_cons_of_mem _ hc)

end Cell

namespace Schema

/-- The rows of one identity, in the order in which they came. -/
def rowsOf (s : Schema) (k : List String) (rows : List Row) : List Row :=
  rows.filter (s.identity ·.cells = k)

/-- The cell of a column, or nothing where no record is stored. -/
def storedCell (i : Nat) (stored : Option Record) : Cell :=
  (stored.map (·.getD i .null)).getD .null

/-- What rows of operations make of the records of a snapshot. -/
structure Coalesced (s : Schema) (rows : List Row) (before after : List Record) : Prop where
  /-- No two records have one identity. -/
  unique : s.Unique after
  /-- What no row is about is as it was. -/
  untouched : ∀ k, s.rowsOf k rows = [] → s.recordOf? k after = s.recordOf? k before
  /-- What some row is about has a record. In a column that is neither part of the key nor the update
  time it has the last cell that a row held something in, and without one what was there before. Its
  update time is the greatest of what was there before and of what the rows have. -/
  merged : ∀ k, s.rowsOf k rows ≠ [] → ∃ r, s.recordOf? k after = some r ∧
    (∀ i col, s.columns[i]? = some col → col.isKey = false → col.source ≠ .lastUpdated →
      r.getD i .null = (Cell.lastHeld? ((s.rowsOf k rows).map (·.cells.getD i .null))).getD
        (storedCell i (s.recordOf? k before))) ∧
    (s.lastUpdated r).IsGreatest (((s.recordOf? k before).map s.lastUpdated).toList ++
      (s.rowsOf k rows).map (s.lastUpdated ·.cells))

variable {c : Category} {rows : List Row} {stored : Option Record}

/-! ## The rows of one identity -/

theorem joinOption_stored (hs : ∀ a, stored = some a → c.schema.Stored a) {b : Record}
    (hb : c.schema.Stored b) :
    ∀ a, c.schema.joinOption stored (some b) = some a → c.schema.Stored a := by
  intro a h
  cases stored with
  | none => cases h; exact hb
  | some z => cases h; exact (hs z rfl).merge hb

theorem storedCell_joinOption (hc : c.schema.isStartFinish = true)
    (hs : ∀ a, stored = some a → c.schema.Stored a) {b : Record} (hb : c.schema.Stored b) {i : Nat}
    {col : Column} (hi : c.schema.columns[i]? = some col) (hk : col.isKey = false)
    (hu : col.source ≠ .lastUpdated) :
    storedCell i (c.schema.joinOption stored (some b)) =
      (b.getD i .null).orElse (storedCell i stored) := by
  cases stored with
  | none =>
    show b.getD i .null = (b.getD i .null).orElse .null
    cases b.getD i .null <;> rfl
  | some a =>
    show (c.schema.merge a b).getD i .null = (b.getD i .null).orElse (a.getD i .null)
    simp only [List.getD_eq_getElem?_getD]
    exact merge_getD hc (hs a rfl) hb hi hk hu

/-- **The last cell that holds something counts**, and without one what is stored. -/
theorem getD_joinRows (hc : c.schema.isStartFinish = true)
    (hr : ∀ row ∈ rows, c.schema.Typed row.cells) (hs : ∀ a, stored = some a → c.schema.Stored a)
    {i : Nat} {col : Column} (hi : c.schema.columns[i]? = some col) (hk : col.isKey = false)
    (hu : col.source ≠ .lastUpdated) {r : Record} (h : c.schema.joinRows rows stored = some r) :
    r.getD i .null =
      (Cell.lastHeld? (rows.map (·.cells.getD i .null))).getD (storedCell i stored) := by
  induction rows generalizing stored with
  | nil =>
    rw [show stored = some r from h]
    rfl
  | cons row rows ih =>
    have hrow := hr row List.mem_cons_self
    rw [joinRows_cons, hrow.keep_eq hc] at h
    rw [ih (fun row h => hr row (List.mem_cons_of_mem _ h)) (joinOption_stored hs hrow.stored) h,
      storedCell_joinOption hc hs hrow.stored hi hk hu, List.map_cons, Cell.getD_lastHeld?_cons]

/-- **The greatest update time counts.** -/
theorem lastUpdated_joinRows (hc : c.schema.isStartFinish = true)
    (hr : ∀ row ∈ rows, c.schema.Typed row.cells) (hs : ∀ a, stored = some a → c.schema.Stored a)
    {r : Record} (h : c.schema.joinRows rows stored = some r) :
    (c.schema.lastUpdated r).IsGreatest
      ((stored.map c.schema.lastUpdated).toList ++ rows.map (c.schema.lastUpdated ·.cells)) := by
  induction rows generalizing stored with
  | nil =>
    rw [show stored = some r from h]
    exact ⟨List.mem_singleton.2 rfl, fun b hb => by
      rw [List.mem_singleton.1 hb]; exact Cell.le_refl _⟩
  | cons row rows ih =>
    have hrow := hr row List.mem_cons_self
    rw [joinRows_cons, hrow.keep_eq hc] at h
    have hrest := ih (fun row h => hr row (List.mem_cons_of_mem _ h))
      (joinOption_stored hs hrow.stored) h
    cases stored with
    | none => exact hrest
    | some a =>
      have htime := lastUpdated_merge hc (hs a rfl) hrow.stored
      apply Cell.IsGreatest.of_greater
      rw [← htime]
      exact hrest

theorem exists_joinRows (hne : rows ≠ []) (stored : Option Record) :
    ∃ r, c.schema.joinRows rows stored = some r := by
  induction rows generalizing stored with
  | nil => exact absurd rfl hne
  | cons row rows ih =>
    rw [joinRows_cons]
    by_cases hrest : rows = []
    · subst hrest
      cases stored with
      | none => exact ⟨_, rfl⟩
      | some a => exact ⟨_, rfl⟩
    · exact ih hrest _

/-! ## All rows of a snapshot -/

/-- **Rows of operations are coalesced.** -/
theorem upserts_coalesced (hc : c.schema.isStartFinish = true)
    (hr : ∀ row ∈ rows, c.schema.Typed row.cells) {l : List Record} (hu : c.schema.Unique l)
    (hs : ∀ a ∈ l, c.schema.Stored a) :
    c.schema.Coalesced rows l (c.schema.upserts rows l) := by
  have hjoin := recordOf?_upserts_typed hr hs
  have hold : ∀ k a, c.schema.recordOf? k l = some a → c.schema.Stored a :=
    fun k a ha => hs a (List.mem_of_find?_eq_some ha)
  have hrow : ∀ k, ∀ row ∈ c.schema.rowsOf k rows, c.schema.Typed row.cells :=
    fun k row h => hr row (List.mem_of_mem_filter h)
  refine ⟨hu.upserts (fun row h => (hr row h).keep.stored) hs, fun k hnone => ?_, fun k hsome => ?_⟩
  · rw [hjoin]
    show c.schema.joinRows (c.schema.rowsOf k rows) _ = _
    rw [hnone]
    rfl
  · obtain ⟨r, h⟩ := exists_joinRows hsome (c.schema.recordOf? k l)
    refine ⟨r, (hjoin k).trans h, fun i col hi hk hsource => ?_, ?_⟩
    · exact getD_joinRows hc (hrow k) (hold k) hi hk hsource h
    · exact lastUpdated_joinRows hc (hrow k) (hold k) h

end Schema

namespace Store

variable {s : Store} {c : Category}

/-- The store after some batches are written into a snapshot, unless one of them is refused. -/
def writeAll (s : Store) (c : Category) (w : Int) : List (List Row) → Except StorageFault Store
  | [] => .ok s
  | rows :: batches =>
    match s.write c w rows with
    | (.error e, _) => .error e
    | (.ok _, s') => s'.writeAll c w batches

/-- **Typed rows are never refused**, and are written into the records in order. -/
theorem write_typed (s : Store) (c : Category) (w : Int) {rows : List Row}
    (h : ∀ row ∈ rows, c.schema.Typed row.cells) :
    (s.write c w rows).1 = .ok rows.length ∧
      (s.write c w rows).2.records c w = c.schema.upserts rows (s.records c w) := by
  by_cases hempty : rows = []
  · subst hempty
    exact ⟨rfl, rfl⟩
  have hok : (s.write c w rows).1 = .ok rows.length := by
    rw [write_answer s c w hempty, Schema.upsertAll_typed _ h]
    rfl
  rcases write_cases s c w hempty with ⟨e, he⟩ | ⟨-, hwrite⟩
  · rw [he] at hok
    cases hok
  · refine ⟨hok, ?_⟩
    rw [hwrite, records_eq, snapshot?_setSnapshots, if_pos rfl, Series.at?_replaceSnapshot,
      Series.load_windowStart, windowStart_getD, if_pos rfl, ← snapshot?_eq, snapshot?_openWindow,
      if_pos ⟨rfl, rfl⟩, records_eq]
    rfl

/-- **Batches of typed rows are written as one list of rows.** -/
theorem writeAll_typed (s : Store) (c : Category) (w : Int) {batches : List (List Row)}
    (h : ∀ rows ∈ batches, ∀ row ∈ rows, c.schema.Typed row.cells) :
    ∃ s', s.writeAll c w batches = .ok s' ∧
      s'.records c w = c.schema.upserts batches.flatten (s.records c w) := by
  induction batches generalizing s with
  | nil => exact ⟨s, rfl, rfl⟩
  | cons rows batches ih =>
    obtain ⟨hok, hrecords⟩ := s.write_typed c w (h rows List.mem_cons_self)
    obtain ⟨s', hrest, hafter⟩ :=
      ih (s.write c w rows).2 fun rows hr => h rows (List.mem_cons_of_mem _ hr)
    refine ⟨s', ?_, ?_⟩
    · unfold writeAll
      generalize s.write c w rows = answer at hok hrest
      obtain ⟨result, after⟩ := answer
      subst hok
      exact hrest
    · rw [hafter, hrecords, List.flatten_cons, Schema.upserts_append]

/-- **Halves of operations are coalesced, whatever the snapshot holds and however the rows come.** Rows
of the columns' types are never refused; afterwards there is one record an identity; in each column that
is neither part of the key nor the update time it has the last cell that a row of the identity held
something in, or what was there before where no row held anything; its update time is the greatest of
those before and those written; and an identity that no row has keeps its record. -/
theorem writeAll_coalesced (hs : s.Keyed) (hc : c.schema.isStartFinish = true) (w : Int)
    (batches : List (List Row))
    (h : ∀ rows ∈ batches, ∀ row ∈ rows, c.schema.Typed row.cells) :
    ∃ s', s.writeAll c w batches = .ok s' ∧
      c.schema.Coalesced batches.flatten (s.records c w) (s'.records c w) := by
  obtain ⟨s', hok, hrecords⟩ := s.writeAll_typed c w h
  have hrows : ∀ row ∈ batches.flatten, c.schema.Typed row.cells := by
    intro row hrow
    obtain ⟨rows, hmem, hrow⟩ := List.mem_flatten.1 hrow
    exact h rows hmem row hrow
  refine ⟨s', hok, ?_⟩
  obtain ⟨hunique, hstored⟩ := hs.getD c w
  rw [hrecords, records_eq]
  exact Schema.upserts_coalesced hc hrows hunique hstored

/-- The row of a task: the kind of task, when it started and ended, and when the row was written. -/
def taskRow (kind start finish : Cell) (updated : Int) : Row where
  cells := [.text "7", .text "12", kind, .null, .null, .int updated, start, finish]
  observedAt := updated

theorem typed_taskRow {kind start finish : Cell} {updated : Int} (hk : FieldType.text.Holds kind)
    (hs : FieldType.int.Holds start) (hf : FieldType.int.Holds finish)
    (hu : Signed64.fits updated = true) :
    Category.clusterManagerTasks.schema.Typed (taskRow kind start finish updated).cells := by
  -- the key and the update time hold something, and no other column has to
  refine .cons ⟨trivial, fun _ => rfl⟩ (.cons ⟨trivial, fun _ => rfl⟩ ?_)
  refine .cons ⟨hk, fun h => absurd h (by decide)⟩ (.cons ⟨trivial, fun h => absurd h (by decide)⟩ ?_)
  refine .cons ⟨trivial, fun h => absurd h (by decide)⟩ (.cons ⟨hu, fun _ => rfl⟩ ?_)
  exact .cons ⟨hs, fun h => absurd h (by decide)⟩ (.cons ⟨hf, fun h => absurd h (by decide)⟩ .nil)

/-- A task of which the end is written before the start, over a record that has its kind. -/
theorem writeAll_coalesced_lateStart : ∃ s',
    ((after 5000 [.write .clusterManagerTasks 5000
      [taskRow (.text "create-index") .null .null 5100]]).writeAll .clusterManagerTasks 5000
      [[taskRow .null .null (.int 5900) 6000], [], [taskRow .null (.int 5200) .null 5300]]) = .ok s' ∧
    Category.clusterManagerTasks.schema.Coalesced
      [taskRow .null .null (.int 5900) 6000, taskRow .null (.int 5200) .null 5300]
      ((after 5000 [.write .clusterManagerTasks 5000
        [taskRow (.text "create-index") .null .null 5100]]).records .clusterManagerTasks 5000)
      (s'.records .clusterManagerTasks 5000) := by
  refine writeAll_coalesced (keyed_after 5000 _) (by decide) 5000 _ ?_
  intro rows hrows row hrow
  simp only [List.mem_cons, List.not_mem_nil, or_false] at hrows
  rcases hrows with rfl | rfl | rfl
  · rw [List.mem_singleton.1 hrow]
    exact typed_taskRow trivial trivial (show Signed64.fits 5900 = true by decide) (by decide)
  · cases hrow
  · rw [List.mem_singleton.1 hrow]
    exact typed_taskRow trivial (show Signed64.fits 5200 = true by decide) trivial (by decide)

end Store

end WindowAlign
