import WindowAlign.Ingest.Processor
import WindowAlign.Proofs.Store.Series

/-!
# Effects on a series

A store is its interval and a series for each category. Writing rows and binding a processor to a
window change the series of one category, as `Series.load` and `Series.opened` do, and leave the
others alone. On typed rows writing never fails.
-/

namespace WindowAlign

namespace Store

theorem ext_snapshots {s t : Store} (hi : s.interval = t.interval)
    (h : ∀ c, s.snapshots c = t.snapshots c) : s = t := by
  obtain ⟨i, a⟩ := s
  obtain ⟨j, b⟩ := t
  have hab : a = b := by
    apply Vector.ext
    intro k hk
    obtain ⟨c, hc⟩ := Category.exists_index ⟨k, hk⟩
    obtain rfl : (c.index : Nat) = k := congrArg Fin.val hc
    exact h c
  cases hi
  rw [hab]

theorem setSnapshots_self (s : Store) (c : Category) : s.setSnapshots c (s.snapshots c) = s := by
  refine ext_snapshots rfl fun d => ?_
  by_cases h : c = d
  · subst h; exact snapshots_setSnapshots_self ..
  · exact snapshots_setSnapshots_of_ne s h _

theorem setSnapshots_setSnapshots (s : Store) (c : Category) (a b : List Snapshot) :
    (s.setSnapshots c a).setSnapshots c b = s.setSnapshots c b := by
  refine ext_snapshots rfl fun d => ?_
  by_cases h : c = d
  · subst h; rw [snapshots_setSnapshots_self, snapshots_setSnapshots_self]
  · simp only [snapshots_setSnapshots_of_ne _ h]

/-- What holds of every store: the series of each category is keyed. -/
def Keyed (s : Store) : Prop :=
  ∀ c, Series.Keyed c (s.snapshots c)

theorem Keyed.empty (interval : Int) : (Store.empty interval).Keyed := by
  intro c
  have hnil : (Store.empty interval).snapshots c = [] := by simp [Store.empty, snapshots]
  rw [hnil]
  exact .nil c

theorem Keyed.setSnapshots {s : Store} (h : s.Keyed) {c : Category} {l : List Snapshot}
    (hl : Series.Keyed c l) : (s.setSnapshots c l).Keyed := by
  intro d
  by_cases hd : c = d
  · subst hd; rw [snapshots_setSnapshots_self]; exact hl
  · rw [snapshots_setSnapshots_of_ne s hd]; exact h d

theorem snapshot?_eq (s : Store) (c : Category) (w : Int) :
    s.snapshot? c w = Series.at? w (s.snapshots c) := rfl

theorem previous?_eq (s : Store) (c : Category) (w : Int) :
    s.previous? c w = Series.before? w (s.snapshots c) := rfl

theorem records_of_mem {s : Store} {c : Category} (h : Series.Ascending (s.snapshots c))
    {n : Snapshot} (hn : n ∈ s.snapshots c) : s.records c n.windowStart = n.records := by
  rw [records, snapshot?_eq, (Series.at?_eq_some h).2 ⟨hn, rfl⟩]
  rfl

/-- **Writing typed rows succeeds.** -/
theorem write_eq {s : Store} {c : Category} (h : Series.Ascending (s.snapshots c)) {w : Int}
    {n : Snapshot} (hn : n ∈ s.snapshots c) (hw : n.windowStart = w) {rows : List Row}
    (hr : ∀ row ∈ rows, c.schema.Typed row.cells) :
    s.write c w rows =
      (.ok rows.length, s.setSnapshots c (Series.load c w rows (s.snapshots c))) := by
  unfold write
  cases rows with
  | nil => rw [Series.load_nil, setSnapshots_self]; rfl
  | cons row rows =>
    have hat := (Series.at?_eq_some h).2 ⟨hn, hw⟩
    rw [if_neg (by simp), openWindow, snapshot?_eq, hat]
    simp only [Schema.upsertAll_typed _ hr]
    congr 2
    refine List.map_congr_left fun m hm => ?_
    by_cases hmw : m.windowStart = w
    · have := Series.eq_of_windowStart h hm hn (hmw.trans hw.symm)
      subst this
      simp [Snapshot.load, hmw]
    · simp [hmw]

theorem openWindow_of_absent {s : Store} {c : Category} {w : Int}
    (h : Series.at? w (s.snapshots c) = none) :
    s.openWindow c w =
      ((Snapshot.fresh w, true), s.setSnapshots c (insertSnapshot (.fresh w) (s.snapshots c))) := by
  rw [openWindow, snapshot?_eq, h]

/-- **A rollover appends what can be carried and is not there yet, and counts what is too old.** -/
theorem rollover_kept {s : Store} {c : Category} (hc : c.schema.isStartFinish = true)
    {previous current p n : Snapshot} (hu : c.schema.Unique p.records)
    (hp : s.snapshot? c previous.windowStart = some p)
    (hn : s.snapshot? c current.windowStart = some n) (maxAge : Int) :
    s.rollover c previous current maxAge =
      (⟨(c.schema.joining (current.windowStart - maxAge) p.records n.records).length,
          (c.schema.abandoned (current.windowStart - maxAge) p.records).length⟩,
        s.setSnapshots c (replaceSnapshot
          { n with records :=
              n.records ++ c.schema.joining (current.windowStart - maxAge) p.records n.records }
          (s.snapshots c))) := by
  have hold : s.records c previous.windowStart = p.records := by rw [records, hp]; rfl
  have hcarry := Schema.carry_eq (hu.carriable (current.windowStart - maxAge)) n.records
  unfold Schema.carriable at hcarry
  unfold rollover
  simp only [hc, ↓reduceIte, hold, hn, hcarry, List.length_append, Nat.add_sub_cancel_left,
    List.countP_eq_length_filter]
  rfl

/-- The rollover into a snapshot that was just created. -/
theorem rollover_eq {s : Store} {c : Category} (h : Series.Keyed c (s.snapshots c)) {w : Int}
    (hw : Series.at? w (s.snapshots c) = none) {p : Snapshot} (hp : p ∈ s.snapshots c)
    (hc : c.schema.isStartFinish = true) (maxAge : Int) :
    (s.openWindow c w).2.rollover c p (.fresh w) maxAge =
      (⟨(c.schema.carriable (w - maxAge) p.records).length,
          (c.schema.abandoned (w - maxAge) p.records).length⟩,
        s.setSnapshots c
          (insertSnapshot ⟨w, none, c.schema.carriable (w - maxAge) p.records⟩
            (s.snapshots c))) := by
  have habs := Series.at?_eq_none.1 hw
  have hasc := h.ascending.insertSnapshot (n := Snapshot.fresh w) habs
  rw [openWindow_of_absent hw]
  generalize hs1 : s.setSnapshots c (insertSnapshot (.fresh w) (s.snapshots c)) = s1
  have hser : s1.snapshots c = insertSnapshot (.fresh w) (s.snapshots c) := by
    rw [← hs1, snapshots_setSnapshots_self]
  have hold : s1.snapshot? c p.windowStart = some p := by
    rw [snapshot?_eq, hser]
    exact (Series.at?_eq_some hasc).2 ⟨Series.mem_insertSnapshot.2 (.inr hp), rfl⟩
  have hnew : s1.snapshot? c (Snapshot.fresh w).windowStart = some (.fresh w) := by
    rw [snapshot?_eq, hser]
    exact (Series.at?_eq_some hasc).2 ⟨Series.mem_insertSnapshot.2 (.inl rfl), rfl⟩
  have hput := Series.replaceSnapshot_insertSnapshot (m := .fresh w)
    (n := ⟨w, none, c.schema.carriable (w - maxAge) p.records⟩) rfl habs
  rw [rollover_kept hc (h.unique p hp) hold hnew]
  simp only [Snapshot.fresh, Schema.joining_nil, List.nil_append] at hput ⊢
  rw [hser, ← hs1, setSnapshots_setSnapshots, Snapshot.fresh, hput]

theorem snapshots_trim (s : Store) (c d : Category) (depth : Nat) :
    (s.trim c depth).2.snapshots d =
      if c = d then (s.snapshots d).drop ((s.snapshots d).length - depth) else s.snapshots d := by
  by_cases h : c = d
  · subst h; rw [if_pos rfl]; exact snapshots_setSnapshots_self ..
  · rw [if_neg h]; exact snapshots_setSnapshots_of_ne s h _

end Store

namespace Processor

/-- The handover to a snapshot that was just created is a rollover out of the one before. -/
theorem handOver_of_new (p : Processor) {start : Int} {s : Store}
    (hnew : Series.at? start (s.snapshots p.category) = none) {q : Snapshot}
    (hq : Series.before? start (s.snapshots p.category) = some q) :
    p.handOver start s =
      (s.openWindow p.category start).2.rollover p.category q (.fresh start) p.maxAge := by
  have hbefore := Series.before?_insertSnapshot (w := start) (n := .fresh start) rfl
    (l := s.snapshots p.category)
  unfold handOver
  rw [Store.openWindow_of_absent hnew]
  simp only [↓reduceIte, Store.previous?_eq, Store.snapshots_setSnapshots_self, hbefore, hq]

/-- **A handover opens the window in the series of the category.** -/
theorem handOver_eq (p : Processor) (start : Int) {s : Store}
    (h : Series.Keyed p.category (s.snapshots p.category)) :
    (p.handOver start s).2 = s.setSnapshots p.category
      (Series.opened p.category p.maxAge start (s.snapshots p.category)) := by
  unfold Series.opened
  cases hat : Series.at? start (s.snapshots p.category) with
  | some n =>
    simp [handOver, Store.openWindow, Store.snapshot?_eq, hat, Store.setSnapshots_self]
  | none =>
    rw [Series.inherited]
    cases hb : Series.before? start (s.snapshots p.category) with
    | none =>
      have hbefore := Series.before?_insertSnapshot (w := start) (n := .fresh start) rfl
        (l := s.snapshots p.category)
      unfold handOver
      rw [Store.openWindow_of_absent hat]
      simp only [↓reduceIte, Store.previous?_eq, Store.snapshots_setSnapshots_self, hbefore, hb]
      rfl
    | some q =>
      rw [p.handOver_of_new hat hb]
      cases hc : p.category.schema.isStartFinish with
      | true =>
        rw [Store.rollover_eq h hat (Series.before?_mem hb).1 hc p.maxAge]
        rfl
      | false =>
        rw [Store.openWindow_of_absent hat]
        simp [Store.rollover, hc, Snapshot.fresh]

theorem counts_handOver (p : Processor) {start : Int} {s : Store}
    (h : Series.Keyed p.category (s.snapshots p.category))
    (hnew : Series.at? start (s.snapshots p.category) = none) {q : Snapshot}
    (hq : Series.before? start (s.snapshots p.category) = some q)
    (hc : p.category.schema.isStartFinish = true) :
    (p.handOver start s).1 =
      ⟨(p.category.schema.carriable (start - p.maxAge) q.records).length,
        (p.category.schema.abandoned (start - p.maxAge) q.records).length⟩ := by
  rw [p.handOver_of_new hnew hq, Store.rollover_eq h hnew (Series.before?_mem hq).1 hc p.maxAge]

/-- **Binding a processor opens the window in the series of its category.** -/
theorem bindTo_eq (p : Processor) (w : Window) {s : Store}
    (h : Series.Keyed p.category (s.snapshots p.category)) :
    p.bindTo w s =
      ({ p with window := some w, pending := [] },
        s.setSnapshots p.category
          (Series.opened p.category p.maxAge w.start (s.snapshots p.category))) := by
  rw [bindTo, p.handOver_eq w.start h]

end Processor

end WindowAlign
