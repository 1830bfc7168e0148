import WindowAlign.Proofs.Store.Coalescing

/-!
# Rows that a snapshot refuses

A row is refused when it has another number of cells than there are columns, or nothing where a part of
the key or the update time belongs (`Schema.Refuses`); a column keeps NaN as nothing, so NaN counts as
nothing here. Nothing else is refused (`record?_of_not_refuses`). One row that is refused, wherever it
stands, has the whole call refused with the fault of the first such row (`upsertAll_refused`), and what
is left of the call is the snapshot of its window, opened if it was not there. Where no row is refused,
a call after another writes what one call with the rows of both does (`write_append`), and so does any
number of them (`writeAll_taken`).
-/

namespace WindowAlign

/-- Whether a column takes a cell for nothing. -/
def Cell.isMissing : Cell → Bool
  | null => true
  | real x => x.isNaN
  | _ => false

/-- Whether a snapshot refuses a row: it has too many cells or too few, or one of the key or the update
time is missing. -/
def Schema.Refuses (s : Schema) (cells : List Cell) : Prop :=
  cells.length ≠ s.width ∨
    ∃ i ∈ s.lastUpdatedColumn :: s.keyColumns, (cells.getD i .null).isMissing = true

instance (s : Schema) (cells : List Cell) : Decidable (s.Refuses cells) :=
  inferInstanceAs (Decidable (_ ∨ _))

/-- The fault of a list of rows: that of the first one that is refused. -/
def Schema.FaultOf (s : Schema) (table : String) (rows : List Row) (e : StorageFault) : Prop :=
  ∃ before row after, rows = before ++ row :: after ∧ (∀ r ∈ before, ¬ s.Refuses r.cells) ∧
    s.record? table row.cells = .error e

/-! ## Cells that are missing -/

theorem Cell.isNull_ofWhole (x : Float) : (Cell.ofWhole x).isNull = false := by
  unfold Cell.ofWhole
  split
  · split <;> rfl
  · rfl

/-- Of texts and integers a column keeps nothing exactly where it was given nothing. -/
theorem FieldType.isNull_store {t : FieldType} (ht : t ≠ .float) (v : Cell) :
    (t.store v).isNull = v.isMissing := by
  cases t with
  | float => exact absurd rfl ht
  | text =>
    cases v with
    | real x =>
      show (if x.isNaN then Cell.null else .text (Cell.realText x)).isNull = x.isNaN
      cases x.isNaN <;> rfl
    | _ => rfl
  | int =>
    cases v with
    | null => rfl
    | int n => rfl
    | real x =>
      show (if x.isNaN then Cell.null else Cell.ofWhole x).isNull = x.isNaN
      cases x.isNaN with
      | true => rfl
      | false => exact Cell.isNull_ofWhole x
    | text t =>
      simp only [FieldType.store]
      split
      · rfl
      · exact Cell.isNull_ofWhole _
      · rfl

namespace Schema

variable {c : Category}

/-! ## Rows that are refused -/

theorem mem_required_iff {i : Nat} {col : Column} (hcol : c.schema.columns[i]? = some col) :
    i ∈ c.schema.lastUpdatedColumn :: c.schema.keyColumns ↔ col.isRequired = true := by
  have hi : i < c.schema.columns.length := (List.getElem?_eq_some_iff.1 hcol).1
  constructor
  · intro h
    rcases List.mem_cons.1 h with rfl | h
    · rw [lastUpdatedColumn_eq] at hcol
      cases hcol
      rfl
    · have hkey := isKey_of_mem_keyColumns i h
      rw [hcol, Option.any_some] at hkey
      rw [Column.isRequired, hkey, Bool.true_or]
  · intro h
    rw [Column.isRequired, Bool.or_eq_true] at h
    rcases h with h | h
    · exact List.mem_cons_of_mem _ (mem_keyColumns_of_isKey i hi (by rwa [hcol, Option.any_some]))
    · rw [eq_lastUpdatedColumn i hi (by rw [hcol, Option.any_some]; exact decide_eq_true (eq_of_beq h))]
      exact List.mem_cons_self

theorem missing?_keep_eq_none_iff {cols : List Column} :
    ∀ {cells : List Cell}, cells.length = cols.length →
      (missing? cols (List.zipWith (fun col v => col.type.store v) cols cells) = none ↔
        ∀ (i : Nat) (col : Column), cols[i]? = some col → col.isRequired = true →
          (col.type.store (cells.getD i .null)).isNull = false) := by
  induction cols with
  | nil => intro cells _; simp [missing?]
  | cons first cols ih =>
    intro cells hlen
    cases cells with
    | nil => cases hlen
    | cons v cells =>
      have hrest := ih (Nat.succ.inj hlen)
      rw [List.zipWith_cons_cons, missing?]
      constructor
      · intro h i col hcol hreq
        split at h
        · cases h
        rename_i hfirst
        cases i with
        | zero =>
          cases hcol
          simpa [hreq] using hfirst
        | succ i => exact hrest.1 h i col hcol hreq
      · intro h
        have hfirst : (first.isRequired && (first.type.store v).isNull) = false := by
          cases hreq : first.isRequired with
          | false => rfl
          | true => exact h 0 first rfl hreq
        rw [hfirst, if_neg (by decide)]
        exact hrest.2 fun i col => h (i + 1) col

theorem not_refuses_iff {cells : List Cell} : ¬ c.schema.Refuses cells ↔
    cells.length = c.schema.columns.length ∧
      missing? c.schema.columns (c.schema.keep cells) = none := by
  have hcell : ∀ (i : Nat) (col : Column), c.schema.columns[i]? = some col → col.isRequired = true →
      (col.type.store (cells.getD i .null)).isNull = (cells.getD i .null).isMissing :=
    fun i col hcol hreq => FieldType.isNull_store
      (type_ne_float_of_required c col (List.mem_of_getElem? hcol) hreq) _
  have hcolumn : ∀ i ∈ c.schema.lastUpdatedColumn :: c.schema.keyColumns,
      ∃ col, c.schema.columns[i]? = some col := by
    intro i hi
    rcases List.mem_cons.1 hi with rfl | hi
    · exact ⟨_, lastUpdatedColumn_eq⟩
    · have hkey := isKey_of_mem_keyColumns i hi
      cases hcol : c.schema.columns[i]? with
      | none => rw [hcol] at hkey; cases hkey
      | some col => exact ⟨col, rfl⟩
  rw [Refuses, not_or, not_not]
  refine and_congr_right fun hlen => ?_
  rw [keep, missing?_keep_eq_none_iff hlen]
  constructor
  · intro h i col hcol hreq
    rw [hcell i col hcol hreq]
    exact Bool.eq_false_iff.2 fun hmissing => h ⟨i, (mem_required_iff hcol).2 hreq, hmissing⟩
  · rintro h ⟨i, hi, hmissing⟩
    obtain ⟨col, hcol⟩ := hcolumn i hi
    have hreq := (mem_required_iff hcol).1 hi
    rw [← hcell i col hcol hreq, h i col hcol hreq] at hmissing
    cases hmissing

/-- **What is not refused is kept.** -/
theorem record?_of_not_refuses (table : String) {cells : List Cell}
    (h : ¬ c.schema.Refuses cells) : c.schema.record? table cells = .ok (c.schema.keep cells) := by
  obtain ⟨hlen, hmissing⟩ := not_refuses_iff.1 h
  unfold keep at hmissing ⊢
  unfold record?
  rw [if_neg (show ¬ cells.length ≠ c.schema.width from not_not.2 hlen)]
  simp only [hmissing]

/-- **What is refused is a fault.** -/
theorem record?_of_refuses (table : String) {cells : List Cell} (h : c.schema.Refuses cells) :
    ∃ e, c.schema.record? table cells = .error e := by
  unfold record?
  split
  · exact ⟨_, rfl⟩
  rename_i hlen
  dsimp only
  split
  · exact ⟨_, rfl⟩
  rename_i hmissing
  exact absurd h (not_refuses_iff.2 ⟨not_not.1 hlen, hmissing⟩)

theorem upsertAll_taken (table : String) {rows : List Row}
    (h : ∀ row ∈ rows, ¬ c.schema.Refuses row.cells) (records : List Record) :
    c.schema.upsertAll table rows records = .ok (c.schema.upserts rows records) := by
  induction rows generalizing records with
  | nil => rfl
  | cons row rows ih =>
    obtain ⟨hrow, hrows⟩ := List.forall_mem_cons.1 h
    rw [upsertAll, record?_of_not_refuses table hrow]
    exact ih hrows _

/-- **One row that is refused has all refused**, whatever was written before it. -/
theorem upsertAll_refused (table : String) {rows : List Row}
    (h : ∃ row ∈ rows, c.schema.Refuses row.cells) (records : List Record) :
    ∃ e, c.schema.FaultOf table rows e ∧ c.schema.upsertAll table rows records = .error e := by
  induction rows generalizing records with
  | nil =>
    obtain ⟨row, hrow, -⟩ := h
    cases hrow
  | cons row rows ih =>
    by_cases hrow : c.schema.Refuses row.cells
    · obtain ⟨e, he⟩ := record?_of_refuses table hrow
      refine ⟨e, ⟨[], row, rows, rfl, List.forall_mem_nil _, he⟩, ?_⟩
      rw [upsertAll, he]
    · have hrest : ∃ row ∈ rows, c.schema.Refuses row.cells := by
        obtain ⟨r, hr, hrefuses⟩ := h
        rcases List.mem_cons.1 hr with rfl | hr
        · exact absurd hrefuses hrow
        · exact ⟨r, hr, hrefuses⟩
      obtain ⟨e, ⟨before, first, after, hsplit, hbefore, hfault⟩, he⟩ :=
        ih hrest (c.schema.upsert (c.schema.keep row.cells) records)
      refine ⟨e, ⟨row :: before, first, after, by rw [hsplit]; rfl,
        List.forall_mem_cons.2 ⟨hrow, hbefore⟩, hfault⟩, ?_⟩
      rw [upsertAll, record?_of_not_refuses table hrow]
      exact he

end Schema

/-! ## Calls that write -/

theorem Snapshot.load_append (c : Category) (a b : List Row) (n : Snapshot) :
    n.load c (a ++ b) = (n.load c a).load c b := by
  simp only [Snapshot.load, latestObserved_append, Schema.upserts_append]

theorem Series.replaceSnapshot_replaceSnapshot {m n : Snapshot} (h : m.windowStart = n.windowStart)
    (l : List Snapshot) :
    Store.replaceSnapshot n (Store.replaceSnapshot m l) = Store.replaceSnapshot n l := by
  unfold Store.replaceSnapshot
  rw [List.map_map]
  refine List.map_congr_left fun k _ => ?_
  rw [Function.comp_apply]
  by_cases hk : k.windowStart = n.windowStart
  · rw [if_pos (hk.trans h.symm), if_pos h, if_pos hk]
  · rw [h, if_neg hk, if_neg hk]

namespace Store

variable {s : Store} {c : Category} {w : Int}

/-- What a call leaves that only opened a window: a store that had the snapshot is as it was, and one
that did not has it without records and without an end. -/
structure OnlyOpened (s : Store) (c : Category) (w : Int) (s' : Store) : Prop where
  opened : s' = (s.openWindow c w).2
  present : ∀ n, s.snapshot? c w = some n → s' = s
  absent : s.snapshot? c w = none → s'.snapshot? c w = some ⟨w, none, []⟩
  others : ∀ d v, ¬(c = d ∧ w = v) → s'.snapshot? d v = s.snapshot? d v

theorem openWindow_present {n : Snapshot} (h : s.snapshot? c w = some n) :
    s.openWindow c w = ((n, false), s) := by
  rw [openWindow, h]

theorem onlyOpened (s : Store) (c : Category) (w : Int) :
    s.OnlyOpened c w (s.openWindow c w).2 where
  opened := rfl
  present n hn := by rw [openWindow_present hn]
  absent hnone := by
    rw [snapshot?_openWindow, if_pos ⟨rfl, rfl⟩, hnone]
    rfl
  others d v hother := by rw [snapshot?_openWindow, if_neg hother]

/-- The store after rows none of which is refused were written. -/
def written (s : Store) (c : Category) (w : Int) (rows : List Row) : Store :=
  (s.openWindow c w).2.setSnapshots c
    (replaceSnapshot (((s.snapshot? c w).getD (.fresh w)).load c rows)
      ((s.openWindow c w).2.snapshots c))

theorem write_taken {rows : List Row} (hne : rows ≠ [])
    (h : ∀ row ∈ rows, ¬ c.schema.Refuses row.cells) :
    s.write c w rows = (.ok rows.length, s.written c w rows) := by
  have hanswer := write_answer s c w hne
  rw [Schema.upsertAll_taken _ h] at hanswer
  rcases write_cases s c w hne with ⟨e, he⟩ | ⟨-, hok⟩
  · rw [he] at hanswer
    cases hanswer
  · exact hok

theorem write_refused {rows : List Row} (h : ∃ row ∈ rows, c.schema.Refuses row.cells) :
    ∃ e, c.schema.FaultOf (Snapshot.tableName c w) rows e ∧
      s.write c w rows = (.error e, (s.openWindow c w).2) := by
  have hne : rows ≠ [] := by
    obtain ⟨row, hrow, -⟩ := h
    exact List.ne_nil_of_mem hrow
  obtain ⟨e, hfault, he⟩ := Schema.upsertAll_refused (Snapshot.tableName c w) h
    ((s.snapshot? c w).getD (.fresh w)).records
  have hanswer := write_answer s c w hne
  rw [he] at hanswer
  refine ⟨e, hfault, ?_⟩
  rcases write_cases s c w hne with ⟨e', he'⟩ | ⟨-, hok⟩
  · rw [he'] at hanswer ⊢
    cases hanswer
    rfl
  · rw [hok] at hanswer
    cases hanswer

theorem snapshot?_written (s : Store) (c : Category) (w : Int) (rows : List Row) :
    (s.written c w rows).snapshot? c w =
      some (((s.snapshot? c w).getD (.fresh w)).load c rows) := by
  rw [written, snapshot?_setSnapshots, if_pos rfl, Series.at?_replaceSnapshot,
    Series.load_windowStart, windowStart_getD, if_pos rfl, ← snapshot?_eq, snapshot?_openWindow,
    if_pos ⟨rfl, rfl⟩]
  rfl

theorem written_written (s : Store) (c : Category) (w : Int) (a b : List Row) :
    (s.written c w a).written c w b = s.written c w (a ++ b) := by
  have hat := snapshot?_written s c w a
  have hstart : ∀ rows, (((s.snapshot? c w).getD (.fresh w)).load c rows).windowStart = w := by
    intro rows
    rw [Series.load_windowStart, windowStart_getD]
  conv_lhs => rw [written, openWindow_present hat, hat]
  rw [Option.getD_some, ← Snapshot.load_append, written, snapshots_setSnapshots_self,
    setSnapshots_setSnapshots, Series.replaceSnapshot_replaceSnapshot ((hstart a).trans (hstart _).symm)]
  rfl

/-- **Two calls write what one call with the rows of both does.** -/
theorem write_append {a b : List Row} (ha : ∀ row ∈ a, ¬ c.schema.Refuses row.cells)
    (hb : ∀ row ∈ b, ¬ c.schema.Refuses row.cells) :
    ((s.write c w a).2.write c w b).2 = (s.write c w (a ++ b)).2 := by
  by_cases hna : a = []
  · rw [hna, write_nil, List.nil_append]
  by_cases hnb : b = []
  · rw [hnb, write_nil, List.append_nil]
  rw [write_taken hna ha, write_taken hnb hb, write_taken (List.append_ne_nil_of_left_ne_nil hna b)
    (List.forall_mem_append.2 ⟨ha, hb⟩)]
  exact written_written s c w a b

/-- **So do any number of calls.** -/
theorem writeAll_taken {batches : List (List Row)}
    (h : ∀ row ∈ batches.flatten, ¬ c.schema.Refuses row.cells) :
    s.writeAll c w batches = .ok (s.write c w batches.flatten).2 := by
  induction batches generalizing s with
  | nil => rfl
  | cons rows batches ih =>
    rw [List.flatten_cons, List.forall_mem_append] at h
    rw [List.flatten_cons, ← write_append h.1 h.2, ← ih h.2, writeAll]
    by_cases hempty : rows = []
    · rw [hempty, write_nil]
    · rw [write_taken hempty h.1]

/-- **Rows are written all of them or none, whatever the snapshot holds.** A row that is refused, at any
place, has the call fail with the fault of the first such row, and nothing differs afterwards but that
the window has a snapshot. Where no row is refused the call answers with their number, and any cut of
the rows into calls leaves the same store. -/
theorem write_all_or_none (s : Store) (c : Category) (w : Int) (rows : List Row) :
    ((∃ row ∈ rows, c.schema.Refuses row.cells) →
      (∃ e, c.schema.FaultOf (Snapshot.tableName c w) rows e ∧ (s.write c w rows).1 = .error e) ∧
        s.OnlyOpened c w (s.write c w rows).2) ∧
    ((∀ row ∈ rows, ¬ c.schema.Refuses row.cells) →
      (s.write c w rows).1 = .ok rows.length ∧
        ∀ batches : List (List Row), batches.flatten = rows →
          s.writeAll c w batches = .ok (s.write c w rows).2) := by
  constructor
  · intro h
    obtain ⟨e, hfault, he⟩ := write_refused (s := s) (w := w) h
    rw [he]
    exact ⟨⟨e, hfault, rfl⟩, s.onlyOpened c w⟩
  · intro h
    refine ⟨?_, fun batches hcut => ?_⟩
    · by_cases hempty : rows = []
      · rw [hempty, write_nil]; rfl
      · rw [write_taken hempty h]
    · subst hcut
      exact writeAll_taken h

/-- The row of a task that was written at no time: where its update time belongs there is NaN. -/
def timelessRow : Row where
  cells := [.text "7", .text "12", .null, .null, .null, .real (0.0 / 0.0), .null, .null]
  observedAt := 6100

/-- Over the start of a task: its end with a row that is refused after it, which leaves the end
unwritten as well; and its end alone with its kind, in one call or in three. -/
theorem write_all_or_none_timelessTask :
    ((∃ e, Category.clusterManagerTasks.schema.FaultOf "cluster_manager_tasks_5000"
          [taskRow .null .null (.int 5900) 6000, timelessRow] e ∧
        ((after 5000 [.write .clusterManagerTasks 5000 [taskRow .null (.int 5200) .null 5300]]).write
          .clusterManagerTasks 5000 [taskRow .null .null (.int 5900) 6000, timelessRow]).1 = .error e) ∧
      (after 5000 [.write .clusterManagerTasks 5000 [taskRow .null (.int 5200) .null 5300]]).OnlyOpened
        .clusterManagerTasks 5000
        ((after 5000 [.write .clusterManagerTasks 5000 [taskRow .null (.int 5200) .null 5300]]).write
          .clusterManagerTasks 5000 [taskRow .null .null (.int 5900) 6000, timelessRow]).2) ∧
    (after 5000 [.write .clusterManagerTasks 5000 [taskRow .null (.int 5200) .null 5300]]).writeAll
        .clusterManagerTasks 5000
        [[taskRow .null .null (.int 5900) 6000], [], [taskRow (.text "create-index") .null .null 5950]] =
      .ok ((after 5000 [.write .clusterManagerTasks 5000 [taskRow .null (.int 5200) .null 5300]]).write
        .clusterManagerTasks 5000 [taskRow .null .null (.int 5900) 6000,
          taskRow (.text "create-index") .null .null 5950]).2 :=
  ⟨(write_all_or_none _ .clusterManagerTasks 5000 _).1 (by decide +kernel),
    ((write_all_or_none _ .clusterManagerTasks 5000 _).2 (by decide +kernel)).2 _ rfl⟩

end Store

end WindowAlign
