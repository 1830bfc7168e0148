import WindowAlign.Proofs.Store.Operations

/-!
# Series of snapshots

What the store does to the snapshots of one category, as functions of the list: `opened` sees to it
that a window has a snapshot, which takes over the open operations of the one before when it is
created, and `load` writes rows into the snapshot of a window. Both keep a series `Keyed`: window
starts ascend, and records are stored under identities of their own. With rows of events it is also
`Sound`: records are typed, and those of operations are timed. `Store.write_eq` and
`Processor.bindTo_eq` say that the operations of the store are these functions on the series of their
category and leave the other series alone.
-/

namespace WindowAlign

def Snapshot.load (c : Category) (rows : List Row) (n : Snapshot) : Snapshot :=
  ⟨n.windowStart, latestObserved n.writerEnd rows, c.schema.upserts rows n.records⟩

namespace Series

def Ascending (l : List Snapshot) : Prop :=
  l.Pairwise (·.windowStart < ·.windowStart)

/-- The snapshot of a window. -/
def at? (w : Int) (l : List Snapshot) : Option Snapshot :=
  l.find? (·.windowStart = w)

/-- The closest snapshot before a window. -/
def before? (w : Int) (l : List Snapshot) : Option Snapshot :=
  (l.filter (·.windowStart < w)).getLast?

/-- The records that a snapshot created for the window `w` takes over. -/
def inherited (c : Category) (maxAge w : Int) (l : List Snapshot) : List Record :=
  match before? w l with
  | none => []
  | some p => if c.schema.isStartFinish then c.schema.carriable (w - maxAge) p.records else []

/-- The series with a snapshot for the window `w`. -/
def opened (c : Category) (maxAge w : Int) (l : List Snapshot) : List Snapshot :=
  match at? w l with
  | some _ => l
  | none => Store.insertSnapshot ⟨w, none, inherited c maxAge w l⟩ l

def load (c : Category) (w : Int) (rows : List Row) (l : List Snapshot) : List Snapshot :=
  l.map fun n => if n.windowStart = w then n.load c rows else n

/-- What holds of the series of a category at all times. -/
structure Keyed (c : Category) (l : List Snapshot) : Prop where
  ascending : Ascending l
  unique : ∀ n ∈ l, c.schema.Unique n.records
  stored : ∀ n ∈ l, ∀ r ∈ n.records, c.schema.Stored r

/-- What holds of it besides while only rows of events are written. -/
structure Sound (c : Category) (l : List Snapshot) : Prop extends Keyed c l where
  typed : ∀ n ∈ l, ∀ r ∈ n.records, c.schema.Typed r
  timed : c.schema.isStartFinish = true → ∀ n ∈ l, ∀ r ∈ n.records, c.schema.Timed r

/-! ## Looking up -/

theorem at?_eq_some {l : List Snapshot} (h : Ascending l) {w : Int} {n : Snapshot} :
    at? w l = some n ↔ n ∈ l ∧ n.windowStart = w := by
  constructor
  · intro hn
    exact ⟨List.mem_of_find?_eq_some hn, by simpa using List.find?_some hn⟩
  · rintro ⟨hn, rfl⟩
    induction l with
    | nil => simp at hn
    | cons a l ih =>
      obtain ⟨ha, hl⟩ := List.pairwise_cons.1 h
      rcases List.mem_cons.1 hn with rfl | hn
      · simp [at?]
      · have hne : ¬ a.windowStart = n.windowStart := by have := ha n hn; omega
        unfold at? at ih ⊢
        rw [List.find?_cons_of_neg (by simpa using hne)]
        exact ih hl hn

theorem at?_eq_none {l : List Snapshot} {w : Int} :
    at? w l = none ↔ ∀ n ∈ l, n.windowStart ≠ w := by
  simp [at?]

theorem eq_of_windowStart {l : List Snapshot} (h : Ascending l) {m n : Snapshot} (hm : m ∈ l)
    (hn : n ∈ l) (e : m.windowStart = n.windowStart) : m = n := by
  have h1 := (at?_eq_some h).2 ⟨hm, e⟩
  have h2 := (at?_eq_some h).2 ⟨hn, rfl⟩
  exact Option.some.inj (h1.symm.trans h2)

theorem Ascending.split {l : List Snapshot} (h : Ascending l) {n : Snapshot} (hn : n ∈ l) :
    ∃ before after, l = before ++ n :: after ∧ (∀ m ∈ before, m.windowStart < n.windowStart) ∧
      ∀ m ∈ after, n.windowStart < m.windowStart := by
  obtain ⟨before, after, rfl⟩ := List.append_of_mem hn
  obtain ⟨-, h2, h3⟩ := List.pairwise_append.1 h
  exact ⟨before, after, rfl, fun m hm => h3 m hm n List.mem_cons_self,
    (List.pairwise_cons.1 h2).1⟩

theorem before?_mem {l : List Snapshot} {w : Int} {p : Snapshot} (h : before? w l = some p) :
    p ∈ l ∧ p.windowStart < w := by
  have := List.mem_of_getLast? h
  simpa using this

/-! ## Opening a window -/

theorem mem_insertSnapshot {n m : Snapshot} {l : List Snapshot} :
    m ∈ Store.insertSnapshot n l ↔ m = n ∨ m ∈ l := by
  induction l with
  | nil => simp [Store.insertSnapshot]
  | cons a l ih =>
    unfold Store.insertSnapshot
    split
    · exact List.mem_cons
    · rw [List.mem_cons, ih, List.mem_cons]
      exact or_left_comm

theorem Ascending.insertSnapshot {n : Snapshot} {l : List Snapshot} (h : Ascending l)
    (hn : ∀ m ∈ l, m.windowStart ≠ n.windowStart) : Ascending (Store.insertSnapshot n l) := by
  induction l with
  | nil => exact List.pairwise_singleton ..
  | cons a l ih =>
    obtain ⟨ha, hl⟩ := List.pairwise_cons.1 h
    unfold Store.insertSnapshot
    split
    · rename_i hlt
      refine List.pairwise_cons.2 ⟨fun m hm => ?_, h⟩
      rcases List.mem_cons.1 hm with rfl | hm
      · exact hlt
      · exact Int.lt_trans hlt (ha m hm)
    · rename_i hlt
      refine List.pairwise_cons.2 ⟨fun m hm => ?_, ih hl fun m hm => hn m (List.mem_cons_of_mem _ hm)⟩
      rcases mem_insertSnapshot.1 hm with rfl | hm
      · have := hn a List.mem_cons_self; omega
      · exact ha m hm

theorem insertSnapshot_append {n : Snapshot} {l : List Snapshot}
    (h : ∀ m ∈ l, m.windowStart < n.windowStart) : Store.insertSnapshot n l = l ++ [n] := by
  induction l with
  | nil => rfl
  | cons a l ih =>
    have ha := h a List.mem_cons_self
    rw [Store.insertSnapshot, if_neg (by omega), ih fun m hm => h m (List.mem_cons_of_mem _ hm),
      List.cons_append]

theorem replaceSnapshot_eq_self {n : Snapshot} {l : List Snapshot}
    (h : ∀ s ∈ l, s.windowStart = n.windowStart → s = n) : Store.replaceSnapshot n l = l := by
  unfold Store.replaceSnapshot
  conv_rhs => rw [← List.map_id l]
  refine List.map_congr_left fun s hs => ?_
  split
  · rename_i hw
    exact (h s hs hw).symm
  · rfl

theorem replaceSnapshot_insertSnapshot {m n : Snapshot} (e : m.windowStart = n.windowStart)
    {l : List Snapshot} (h : ∀ s ∈ l, s.windowStart ≠ n.windowStart) :
    Store.replaceSnapshot n (Store.insertSnapshot m l) = Store.insertSnapshot n l := by
  induction l with
  | nil => simp [Store.insertSnapshot, Store.replaceSnapshot, e]
  | cons a l ih =>
    have ha := h a List.mem_cons_self
    have hl := fun s hs => h s (List.mem_cons_of_mem a hs)
    unfold Store.insertSnapshot
    rw [e]
    split
    · have := replaceSnapshot_eq_self fun s hs hw => absurd hw (h s hs)
      unfold Store.replaceSnapshot at this ⊢
      rw [List.map_cons, if_pos e, this]
    · have := ih hl
      unfold Store.replaceSnapshot at this ⊢
      rw [List.map_cons, if_neg ha, this]

theorem before?_insertSnapshot {w : Int} {n : Snapshot} (hn : n.windowStart = w)
    {l : List Snapshot} : before? w (Store.insertSnapshot n l) = before? w l := by
  have : (Store.insertSnapshot n l).filter (·.windowStart < w) = l.filter (·.windowStart < w) := by
    induction l with
    | nil => simp [Store.insertSnapshot, hn]
    | cons a l ih =>
      unfold Store.insertSnapshot
      split
      · simp [hn]
      · simp only [List.filter_cons, ih]
  rw [before?, this, before?]

theorem inherited_subset {c : Category} {maxAge w : Int} {l : List Snapshot} {r : Record}
    (h : r ∈ inherited c maxAge w l) :
    ∃ p ∈ l, r ∈ p.records ∧ c.schema.isOpen r = true := by
  unfold inherited at h
  split at h
  · simp at h
  rename_i p hp
  split at h
  · have hr := Schema.mem_carriable.1 h
    exact ⟨p, (before?_mem hp).1, hr.1, hr.2.1⟩
  · simp at h

theorem inherited_unique {c : Category} {maxAge w : Int} {l : List Snapshot} (h : Keyed c l) :
    c.schema.Unique (inherited c maxAge w l) := by
  unfold inherited
  split
  · exact List.nodup_nil
  rename_i p hp
  split
  · exact (h.unique p (before?_mem hp).1).carriable _
  · exact List.nodup_nil

theorem mem_opened {c : Category} {maxAge w : Int} {l : List Snapshot} {n : Snapshot} :
    n ∈ opened c maxAge w l ↔
      n ∈ l ∨ at? w l = none ∧ n = ⟨w, none, inherited c maxAge w l⟩ := by
  unfold opened
  split
  · rename_i h; simp [h]
  · rename_i h; rw [mem_insertSnapshot]; simp [h, or_comm]

theorem Keyed.insertSnapshot {c : Category} {l : List Snapshot} (h : Keyed c l) {n : Snapshot}
    (habsent : ∀ m ∈ l, m.windowStart ≠ n.windowStart) (hu : c.schema.Unique n.records)
    (hs : ∀ r ∈ n.records, c.schema.Stored r) : Keyed c (Store.insertSnapshot n l) where
  ascending := h.ascending.insertSnapshot habsent
  unique m hm := by
    rcases mem_insertSnapshot.1 hm with rfl | hm
    · exact hu
    · exact h.unique m hm
  stored m hm := by
    rcases mem_insertSnapshot.1 hm with rfl | hm
    · exact hs
    · exact h.stored m hm

theorem Keyed.opened {c : Category} {maxAge w : Int} {l : List Snapshot} (h : Keyed c l) :
    Keyed c (opened c maxAge w l) := by
  unfold Series.opened
  split
  · exact h
  · rename_i hw
    refine h.insertSnapshot (at?_eq_none.1 hw) (inherited_unique h) fun r hr => ?_
    obtain ⟨p, hp, hrp, -⟩ := inherited_subset hr
    exact h.stored p hp r hrp

theorem Sound.opened {c : Category} {maxAge w : Int} {l : List Snapshot} (h : Sound c l) :
    Sound c (opened c maxAge w l) where
  toKeyed := h.toKeyed.opened
  typed n hn r hr := by
    rcases mem_opened.1 hn with hn | ⟨-, rfl⟩
    · exact h.typed n hn r hr
    · obtain ⟨p, hp, hrp, -⟩ := inherited_subset hr
      exact h.typed p hp r hrp
  timed hc n hn r hr := by
    rcases mem_opened.1 hn with hn | ⟨-, rfl⟩
    · exact h.timed hc n hn r hr
    · obtain ⟨p, -, -, ho⟩ := inherited_subset hr
      exact Schema.timed_of_isOpen ho

theorem exists_mem_opened (c : Category) (maxAge w : Int) (l : List Snapshot) :
    ∃ n ∈ opened c maxAge w l, n.windowStart = w := by
  cases h : at? w l with
  | some n =>
    exact ⟨n, mem_opened.2 (.inl (List.mem_of_find?_eq_some h)), by simpa using List.find?_some h⟩
  | none => exact ⟨_, mem_opened.2 (.inr ⟨h, rfl⟩), rfl⟩

/-! ## Writing rows -/

@[simp] theorem load_windowStart (c : Category) (rows : List Row) (n : Snapshot) :
    (n.load c rows).windowStart = n.windowStart := rfl

@[simp] theorem load_nil (c : Category) (w : Int) (l : List Snapshot) : load c w [] l = l := by
  unfold load
  conv_rhs => rw [← List.map_id l]
  refine List.map_congr_left fun n _ => ?_
  split <;> rfl

theorem load_append (c : Category) (w : Int) (a b : List Row) (l : List Snapshot) :
    load c w (a ++ b) l = load c w b (load c w a l) := by
  unfold load
  rw [List.map_map]
  refine List.map_congr_left fun n _ => ?_
  rw [Function.comp_apply]
  by_cases hn : n.windowStart = w
  · simp [hn, Snapshot.load, latestObserved, Schema.upserts_append]
  · simp [hn]

theorem windowStart_load (c : Category) (w : Int) (rows : List Row) (l : List Snapshot) :
    (load c w rows l).map (·.windowStart) = l.map (·.windowStart) := by
  unfold load
  rw [List.map_map]
  refine List.map_congr_left fun n _ => ?_
  rw [Function.comp_apply]
  split <;> rfl

theorem mem_load {c : Category} {w : Int} {rows : List Row} {l : List Snapshot} {m : Snapshot} :
    m ∈ load c w rows l ↔
      (m ∈ l ∧ m.windowStart ≠ w) ∨ ∃ n ∈ l, n.windowStart = w ∧ m = n.load c rows := by
  unfold load
  rw [List.mem_map]
  constructor
  · rintro ⟨n, hn, rfl⟩
    by_cases hw : n.windowStart = w
    · exact .inr ⟨n, hn, hw, if_pos hw⟩
    · rw [if_neg hw]; exact .inl ⟨hn, hw⟩
  · rintro (⟨hm, hw⟩ | ⟨n, hn, hw, rfl⟩)
    · exact ⟨m, hm, if_neg hw⟩
    · exact ⟨n, hn, if_pos hw⟩

/-- What the records that a row gives have to satisfy. -/
structure Fits (c : Category) (row : Row) : Prop where
  typed : c.schema.Typed row.cells
  updated : c.schema.lastUpdated row.cells = .int row.observedAt
  timed : c.schema.isStartFinish = true → c.schema.Timed row.cells

theorem Fits.keep_eq {c : Category} (hc : c.schema.isStartFinish = true) {row : Row}
    (h : Fits c row) : c.schema.keep row.cells = row.cells :=
  h.typed.keep_eq hc

theorem upserts_timed {c : Category} (hc : c.schema.isStartFinish = true) {rows : List Row}
    (hr : ∀ row ∈ rows, Fits c row) {l : List Record} (hl : ∀ a ∈ l, c.schema.Typed a)
    (h : ∀ a ∈ l, c.schema.Timed a) : ∀ a ∈ c.schema.upserts rows l, c.schema.Timed a := by
  intro a ha
  refine (Schema.upserts_forall (P := fun a => c.schema.Typed a ∧ c.schema.Timed a) ?_ ?_ ?_ a ha).2
  · exact fun a b ha hb => ⟨ha.1.merge hb.1, hb.2.merge hc ha.1 hb.1⟩
  · intro row hrow
    rw [(hr row hrow).keep_eq hc]
    exact ⟨(hr row hrow).typed, (hr row hrow).timed hc⟩
  · exact fun a ha => ⟨hl a ha, h a ha⟩

theorem Fits.stored {c : Category} {row : Row} (h : Fits c row) :
    c.schema.Stored (c.schema.keep row.cells) :=
  h.typed.keep.stored

theorem Fits.lastUpdated_keep {c : Category} {row : Row} (h : Fits c row) :
    c.schema.lastUpdated (c.schema.keep row.cells) = .int row.observedAt := by
  have hu := h.updated
  obtain ⟨v, hv, -⟩ := h.typed.admits Schema.lastUpdatedColumn_eq
  rw [Schema.lastUpdated, List.getD_eq_getElem?_getD, hv, Option.getD_some] at hu
  rw [Schema.lastUpdated, List.getD_eq_getElem?_getD,
    Schema.getElem?_keep Schema.lastUpdatedColumn_eq hv, hu]
  rfl

theorem Ascending.load {l : List Snapshot} (h : Ascending l) (c : Category) (w : Int)
    (rows : List Row) : Ascending (load c w rows l) := by
  have := List.pairwise_map.2 h
  rw [← windowStart_load c w rows l] at this
  exact List.pairwise_map.1 this

theorem Keyed.load {c : Category} {w : Int} {rows : List Row}
    (hr : ∀ row ∈ rows, c.schema.Stored (c.schema.keep row.cells)) {l : List Snapshot}
    (h : Keyed c l) : Keyed c (load c w rows l) where
  ascending := h.ascending.load c w rows
  unique m hm := by
    rcases mem_load.1 hm with ⟨hm, -⟩ | ⟨n, hn, -, rfl⟩
    · exact h.unique m hm
    · exact (h.unique n hn).upserts hr (h.stored n hn)
  stored m hm := by
    rcases mem_load.1 hm with ⟨hm, -⟩ | ⟨n, hn, -, rfl⟩
    · exact h.stored m hm
    · exact Schema.upserts_stored hr (h.stored n hn)

theorem Sound.load {c : Category} {w : Int} {rows : List Row} (hr : ∀ row ∈ rows, Fits c row)
    {l : List Snapshot} (h : Sound c l) : Sound c (load c w rows l) where
  toKeyed := h.toKeyed.load fun row hrow => (hr row hrow).stored
  typed m hm := by
    rcases mem_load.1 hm with ⟨hm, -⟩ | ⟨n, hn, -, rfl⟩
    · exact h.typed m hm
    · exact Schema.upserts_typed (fun row h => (hr row h).typed) (h.typed n hn)
  timed hc m hm := by
    rcases mem_load.1 hm with ⟨hm, -⟩ | ⟨n, hn, -, rfl⟩
    · exact h.timed hc m hm
    · exact upserts_timed hc hr (h.typed n hn) (h.timed hc n hn)

theorem Keyed.drop {c : Category} {l : List Snapshot} (h : Keyed c l) (k : Nat) :
    Keyed c (l.drop k) where
  ascending := h.ascending.sublist (List.drop_sublist k l)
  unique n hn := h.unique n (List.mem_of_mem_drop hn)
  stored n hn := h.stored n (List.mem_of_mem_drop hn)

theorem Sound.drop {c : Category} {l : List Snapshot} (h : Sound c l) (k : Nat) :
    Sound c (l.drop k) where
  toKeyed := h.toKeyed.drop k
  typed n hn := h.typed n (List.mem_of_mem_drop hn)
  timed hc n hn := h.timed hc n (List.mem_of_mem_drop hn)

theorem Keyed.nil (c : Category) : Keyed c [] := by
  constructor <;> simp [Ascending]

theorem Sound.nil (c : Category) : Sound c [] :=
  ⟨.nil c, by simp, by simp⟩

end Series

end WindowAlign
