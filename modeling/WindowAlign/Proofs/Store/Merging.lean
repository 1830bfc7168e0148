import WindowAlign.Proofs.Cell.Order
import WindowAlign.Proofs.Store.Calls

/-!
# Merging again, and in another order

Merging is associative, whatever the records are, and merging a record with what was merged already
changes nothing (`merge_assoc`, `merge_self`). So the rows of one identity come to one record that is
merged with the stored one (`joinRows_eq`), and writing a list of rows once more leaves everything as
it is: the records and their order (`upserts_again`), the end of the snapshot
(`latestObserved_again`), and hence the series (`Series.load_again`). Two records may be merged in
either order if they are samples of different times (`merge_comm_of_ne`) or blocks of an operation that
do not contradict each other (`merge_comm_of_agree`). Unique records are determined by the record of
each identity: up to their order (`Unique.perm`), and wholly where the identities stand in the same
order (`Unique.ext`).
-/

namespace WindowAlign

namespace Schema

variable {s : Schema}

/-! ## Two records -/

theorem joinCell_assoc (col : Column) (z a b : Cell) :
    joinCell col (joinCell col z a) b = joinCell col z (joinCell col a b) := by
  unfold joinCell
  split
  · rfl
  split
  · exact (Cell.greater_assoc b a z).symm
  · exact (Cell.orElse_assoc b a z).symm

theorem joinCell_self (col : Column) (a : Cell) : joinCell col a a = a := by
  unfold joinCell
  split
  · rfl
  split
  · exact Cell.greater_self a
  · exact Cell.orElse_self a

theorem joinCells_assoc (cols : List Column) (z a b : Record) :
    joinCells cols (joinCells cols z a) b = joinCells cols z (joinCells cols a b) := by
  induction cols generalizing z a b with
  | nil => rfl
  | cons col cols ih =>
    cases z with
    | nil => rfl
    | cons x z =>
      cases a with
      | nil => rfl
      | cons y a =>
        cases b with
        | nil => rfl
        | cons v b => simp only [joinCells, joinCell_assoc, ih]

theorem joinCells_self {cols : List Column} {a : Record} (h : a.length = cols.length) :
    joinCells cols a a = a := by
  induction cols generalizing a with
  | nil => exact (List.eq_nil_of_length_eq_zero h).symm
  | cons col cols ih =>
    cases a with
    | nil => cases h
    | cons x a => rw [joinCells, joinCell_self, ih (Nat.succ.inj h)]

theorem merge_assoc (s : Schema) (z a b : Record) :
    s.merge (s.merge z a) b = s.merge z (s.merge a b) := by
  unfold merge
  split
  · exact joinCells_assoc ..
  all_goals
    cases hza : (s.lastUpdated z).le (s.lastUpdated a) with
    | true =>
      cases hab : (s.lastUpdated a).le (s.lastUpdated b) with
      | true => simp [hab, Cell.le_trans hza hab]
      | false => simp [hza, hab]
    | false =>
      have haz := (Cell.le_total (s.lastUpdated z) (s.lastUpdated a)).resolve_left
        (by rw [hza]; decide)
      cases hab : (s.lastUpdated a).le (s.lastUpdated b) with
      | true => simp
      | false =>
        have hzb : (s.lastUpdated z).le (s.lastUpdated b) = false :=
          Bool.eq_false_iff.2 fun h => by
            rw [Cell.le_trans haz h] at hab
            cases hab
        simp [hza, hzb]

theorem merge_self {a : Record} (h : a.length = s.columns.length) : s.merge a a = a := by
  unfold merge
  split
  · exact joinCells_self h
  all_goals rw [ite_self]

/-! ## Either record first -/

section Comm

variable {c : Category} {a b : Record} {x y : Int}

/-- A sample that is not older replaces the stored one. -/
theorem merge_of_sampled (hc : c.schema.isStartFinish = false) (a b : Record) :
    c.schema.merge a b =
      if (c.schema.lastUpdated a).le (c.schema.lastUpdated b) then b else a := by
  unfold merge
  unfold isStartFinish at hc
  cases hl : c.schema.lifecycle with
  | startFinish => rw [hl] at hc; cases hc
  | _ => rfl

/-- Of two samples with different times the newer counts, whichever comes first. -/
theorem merge_comm_of_ne (hc : c.schema.isStartFinish = false)
    (hx : c.schema.lastUpdated a = .int x) (hy : c.schema.lastUpdated b = .int y) (h : x ≠ y) :
    c.schema.merge a b = c.schema.merge b a := by
  rw [merge_of_sampled hc, merge_of_sampled hc, hx, hy]
  unfold Cell.le
  rcases Int.lt_or_gt_of_ne h with h | h
  · simp [Int.le_of_lt h, Int.not_le.2 h]
  · simp [Int.le_of_lt h, Int.not_le.2 h]

/-- **The halves of an operation may come in either order** where they do not contradict each other. -/
theorem merge_comm_of_agree (hc : c.schema.isStartFinish = true) (ha : c.schema.Stored a)
    (hb : c.schema.Stored b) (hid : c.schema.identity a = c.schema.identity b)
    (hx : c.schema.lastUpdated a = .int x) (hy : c.schema.lastUpdated b = .int y)
    (h : ∀ i, i ≠ c.schema.lastUpdatedColumn → (a.getD i .null).isNull = false →
      (b.getD i .null).isNull = false → a.getD i .null = b.getD i .null) :
    c.schema.merge a b = c.schema.merge b a := by
  rw [merge_eq hc, merge_eq hc]
  have hjoined : ∀ {r r' : Record}, c.schema.Stored r → c.schema.Stored r' →
      (joinCells c.schema.columns r r').length = c.schema.columns.length := fun hr hr' =>
    (List.Forall₂.length_eq (joinCells_forall₂ (fun _ _ _ => Column.Keeps.joinCell) hr hr')).symm
  apply List.ext_getElem?
  intro i
  cases hi : c.schema.columns[i]? with
  | none =>
    have hlen := List.getElem?_eq_none_iff.1 hi
    rw [List.getElem?_eq_none (by rw [hjoined ha hb]; exact hlen),
      List.getElem?_eq_none (by rw [hjoined hb ha]; exact hlen)]
  | some col =>
    obtain ⟨u, hu, -⟩ := ha.keeps hi
    obtain ⟨v, hv, -⟩ := hb.keeps hi
    rw [getElem?_joinCells hi hu hv, getElem?_joinCells hi hv hu]
    refine congrArg some ?_
    unfold joinCell
    split
    · rename_i hk
      have hkey := key_cells_eq ha hb hid hi hk
      rw [hu, hv] at hkey
      exact Option.some.inj hkey
    split
    · rename_i hs
      have hlt : i < c.schema.columns.length := (List.getElem?_eq_some_iff.1 hi).1
      have he : i = c.schema.lastUpdatedColumn :=
        eq_lastUpdatedColumn i hlt (by rw [hi, Option.any_some]; exact decide_eq_true hs)
      simp only [lastUpdated, List.getD_eq_getElem?_getD, ← he, hu, hv, Option.getD_some] at hx hy
      rw [hx, hy]
      exact Cell.greater_int_comm y x
    · rename_i hs
      have hne : i ≠ c.schema.lastUpdatedColumn := by
        rintro rfl
        rw [lastUpdatedColumn_eq] at hi
        cases hi
        exact hs rfl
      have hagree := h i hne
      simp only [List.getD_eq_getElem?_getD, hu, hv, Option.getD_some] at hagree
      exact Cell.orElse_comm fun hv' hu' => (hagree hu' hv').symm

end Comm

/-! ## The rows of one identity -/

/-- What is stored of an identity after a record comes. -/
def joinOption (s : Schema) : Option Record → Option Record → Option Record
  | stored, none => stored
  | none, some r => some r
  | some a, some r => some (s.merge a r)

theorem joinOption_assoc (s : Schema) (z a b : Option Record) :
    s.joinOption (s.joinOption z a) b = s.joinOption z (s.joinOption a b) := by
  cases z <;> cases a <;> cases b <;> first | rfl | exact congrArg some (merge_assoc s _ _ _)

theorem joinRows_cons (s : Schema) (row : Row) (rows : List Row) (stored : Option Record) :
    s.joinRows (row :: rows) stored =
      s.joinRows rows (s.joinOption stored (some (s.keep row.cells))) := by
  cases stored <;> rfl

/-- **The rows of one identity come to one record.** -/
theorem joinRows_eq (s : Schema) (rows : List Row) (stored : Option Record) :
    s.joinRows rows stored = s.joinOption stored (s.joinRows rows none) := by
  induction rows generalizing stored with
  | nil => rfl
  | cons row rows ih =>
    rw [joinRows_cons, ih, joinRows_cons, ih (s.joinOption none _), ← joinOption_assoc,
      ← joinOption_assoc]
    rfl

theorem joinRows_stored {rows : List Row} (h : ∀ row ∈ rows, s.Stored (s.keep row.cells))
    {stored : Option Record} (hs : ∀ r, stored = some r → s.Stored r) :
    ∀ r, s.joinRows rows stored = some r → s.Stored r := by
  induction rows generalizing stored with
  | nil => exact hs
  | cons row rows ih =>
    rw [joinRows_cons]
    refine ih (fun row hr => h row (List.mem_cons_of_mem _ hr)) fun r hr => ?_
    have hrow := h row List.mem_cons_self
    cases stored with
    | none => cases hr; exact hrow
    | some a => cases hr; exact (hs a rfl).merge hrow

theorem joinRows_again {rows : List Row} (h : ∀ row ∈ rows, s.Stored (s.keep row.cells))
    (stored : Option Record) : s.joinRows rows (s.joinRows rows stored) = s.joinRows rows stored := by
  have hself : s.joinOption (s.joinRows rows none) (s.joinRows rows none) = s.joinRows rows none := by
    cases hr : s.joinRows rows none with
    | none => rfl
    | some r =>
      have hnone : ∀ r, (none : Option Record) = some r → s.Stored r := fun r h => by cases h
      have hstored := joinRows_stored h hnone r hr
      exact congrArg some (merge_self (List.Forall₂.length_eq hstored).symm)
  rw [joinRows_eq, joinRows_eq s rows stored, joinOption_assoc, hself]

/-! ## Whole snapshots -/

/-- **Unique records are determined by their identities and the record of each.** -/
theorem Unique.ext {l l' : List Record} (hu : s.Unique l)
    (hid : l.map s.identity = l'.map s.identity)
    (h : ∀ k, s.recordOf? k l = s.recordOf? k l') : l = l' := by
  induction l generalizing l' with
  | nil => exact (List.map_eq_nil_iff.1 hid.symm).symm
  | cons a l ih =>
    cases l' with
    | nil => cases hid
    | cons b l' =>
      obtain ⟨hab, htail⟩ := List.cons.inj hid
      unfold Unique at hu
      rw [List.map_cons, List.nodup_cons] at hu
      have heq : a = b := by
        have := h (s.identity a)
        simpa [recordOf?, hab] using this
      subst heq
      rw [ih hu.2 htail fun k => ?_]
      by_cases hk : s.identity a = k
      · subst hk
        have hnone : ∀ m : List Record, m.map s.identity = l.map s.identity →
            s.recordOf? (s.identity a) m = none := fun m hm =>
          recordOf?_eq_none.2 fun r hr e => hu.1 (hm ▸ List.mem_map.2 ⟨r, hr, e⟩)
        rw [hnone l rfl, hnone l' htail.symm]
      · have := h k
        simpa [recordOf?, hk] using this

/-- Unique records that are the same for each identity are the same but for their order. -/
theorem Unique.perm {l l' : List Record} (hu : s.Unique l) (hu' : s.Unique l')
    (h : ∀ k, s.recordOf? k l = s.recordOf? k l') : l.Perm l' := by
  refine (List.perm_ext_iff_of_nodup hu.of_map hu'.of_map).2 fun r => ?_
  have hl := recordOf?_eq_some hu (k := s.identity r) (r := r)
  have hl' := recordOf?_eq_some hu' (k := s.identity r) (r := r)
  rw [h] at hl
  simpa using hl.symm.trans hl'

variable {c : Category}

theorem identity_upserts {rows : List Row}
    (hr : ∀ row ∈ rows, c.schema.Stored (c.schema.keep row.cells)) {l : List Record}
    (h : ∀ a ∈ l, c.schema.Stored a) :
    l.map c.schema.identity ⊆ (c.schema.upserts rows l).map c.schema.identity ∧
      ∀ row ∈ rows, c.schema.rowIdentity row ∈ (c.schema.upserts rows l).map c.schema.identity := by
  induction rows generalizing l with
  | nil => exact ⟨fun _ hk => hk, fun row hrow => by cases hrow⟩
  | cons row rows ih =>
    have hrow := hr row List.mem_cons_self
    obtain ⟨h1, h2⟩ := ih (fun row h => hr row (List.mem_cons_of_mem _ h)) (upsert_stored hrow h)
    have hstep := map_identity_upsert hrow h
    rw [upserts_cons]
    refine ⟨fun k hk => h1 ?_, fun q hq => ?_⟩
    · rw [hstep]
      split
      · exact hk
      · exact List.mem_append_left _ hk
    · rcases List.mem_cons.1 hq with rfl | hq
      · refine h1 ?_
        rw [hstep]
        split
        · assumption
        · exact List.mem_append_right _ (List.mem_singleton.2 rfl)
      · exact h2 q hq

theorem map_identity_upserts_of_present {rows : List Row}
    (hr : ∀ row ∈ rows, c.schema.Stored (c.schema.keep row.cells)) {l : List Record}
    (h : ∀ a ∈ l, c.schema.Stored a)
    (hall : ∀ row ∈ rows, c.schema.rowIdentity row ∈ l.map c.schema.identity) :
    (c.schema.upserts rows l).map c.schema.identity = l.map c.schema.identity := by
  induction rows generalizing l with
  | nil => rfl
  | cons row rows ih =>
    have hrow := hr row List.mem_cons_self
    have hstep : (c.schema.upsert (c.schema.keep row.cells) l).map c.schema.identity =
        l.map c.schema.identity := by
      rw [map_identity_upsert hrow h]
      exact if_pos (hall row List.mem_cons_self)
    rw [upserts_cons, ih (fun row h => hr row (List.mem_cons_of_mem _ h)) (upsert_stored hrow h)
      (fun q hq => hstep ▸ hall q (List.mem_cons_of_mem _ hq)), hstep]

/-- **Rows that were written already change nothing.** -/
theorem upserts_again {rows : List Row}
    (hr : ∀ row ∈ rows, c.schema.Stored (c.schema.keep row.cells)) {l : List Record}
    (h : ∀ a ∈ l, c.schema.Stored a) (hu : c.schema.Unique l) :
    c.schema.upserts rows (c.schema.upserts rows l) = c.schema.upserts rows l := by
  have hstored := upserts_stored hr h
  refine Unique.ext ((hu.upserts hr h).upserts hr hstored)
    (map_identity_upserts_of_present hr hstored (identity_upserts hr h).2) fun k => ?_
  rw [recordOf?_upserts hr hstored, recordOf?_upserts hr h,
    joinRows_again fun row hrow => hr row (List.mem_of_mem_filter hrow)]

end Schema

/-! ## Ends and series -/

theorem latestObserved_of_le {t : Int} {rows : List Row} (h : ∀ row ∈ rows, row.observedAt ≤ t) :
    latestObserved (some t) rows = some t := by
  induction rows with
  | nil => rfl
  | cons row rows ih =>
    have hrow := h row List.mem_cons_self
    show latestObserved (some (max t row.observedAt)) rows = some t
    rw [Int.max_eq_left hrow, ih fun row hr => h row (List.mem_cons_of_mem _ hr)]

theorem le_latestObserved {known : Option Int} {rows : List Row} {t : Int}
    (h : latestObserved known rows = some t) :
    (∀ k, known = some k → k ≤ t) ∧ ∀ row ∈ rows, row.observedAt ≤ t := by
  induction rows generalizing known with
  | nil =>
    exact ⟨fun k hk => Int.le_of_eq (Option.some.inj (hk.symm.trans h)), List.forall_mem_nil _⟩
  | cons row rows ih =>
    obtain ⟨hlatest, hall⟩ := ih h
    have hle := hlatest _ rfl
    cases known with
    | none => exact ⟨fun k hk => (by cases hk), List.forall_mem_cons.2 ⟨hle, hall⟩⟩
    | some k =>
      refine ⟨fun j hj => ?_, List.forall_mem_cons.2 ⟨?_, hall⟩⟩
      · cases hj; exact Int.le_trans (Int.le_max_left ..) hle
      · exact Int.le_trans (Int.le_max_right ..) hle

theorem latestObserved_again (known : Option Int) (rows : List Row) :
    latestObserved (latestObserved known rows) rows = latestObserved known rows := by
  cases rows with
  | nil => rfl
  | cons row rows =>
    obtain ⟨t, ht⟩ : ∃ t, latestObserved known (row :: rows) = some t :=
      ⟨_, latestObserved_some _ rows⟩
    rw [ht, latestObserved_of_le (le_latestObserved ht).2]

namespace Series

variable {c : Category}

/-- **A series that rows were written into is not changed by writing them again.** -/
theorem load_again {w : Int} {rows : List Row}
    (hr : ∀ row ∈ rows, c.schema.Stored (c.schema.keep row.cells)) {l : List Snapshot}
    (h : Keyed c l) : load c w rows (load c w rows l) = load c w rows l := by
  unfold load
  rw [List.map_map]
  refine List.map_congr_left fun n hn => ?_
  rw [Function.comp_apply]
  by_cases hw : n.windowStart = w
  · rw [if_pos hw, load_windowStart, if_pos hw]
    simp only [Snapshot.load, latestObserved_again, Schema.upserts_again hr (h.stored n hn)
      (h.unique n hn)]
  · rw [if_neg hw, if_neg hw]

end Series

end WindowAlign
