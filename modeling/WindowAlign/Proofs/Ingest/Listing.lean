import WindowAlign.Proofs.Ingest.Replay
import WindowAlign.Proofs.Store.Regrouping

/-!
# Buckets in any order

A bucket is listed in the order of its paths, which is not the order in which its events were written:
the finish of an operation comes before its start. That does not matter as long as the events do not
contradict each other (`Event.Compatible`): samples of one identity have different times, the halves
of an operation agree where both say something, and so do lists of members have different times.
Then the rows of one identity come to the same record in any order of the events
(`joinRows_perm`), the end of a snapshot is a maximum, lists of members are published by their times,
and counters are added up. Only the order of the records in a snapshot may differ, and projections do
not depend on it.
-/

namespace WindowAlign

/-! ## Steps that commute -/

section Fold

variable {α β : Type} {f : β → α → β}

theorem foldl_comm_step {l : List α} {a : α} (h : ∀ b ∈ l, ∀ z, f (f z a) b = f (f z b) a)
    (z : β) : l.foldl f (f z a) = f (l.foldl f z) a := by
  induction l generalizing z with
  | nil => rfl
  | cons b l ih =>
    rw [List.foldl_cons, h b List.mem_cons_self, ih fun b hb => h b (List.mem_cons_of_mem _ hb),
      List.foldl_cons]

/-- Two runs of steps that commute may be taken in either order. -/
theorem foldl_comm {l l' : List α} (h : ∀ a ∈ l, ∀ b ∈ l', ∀ z, f (f z a) b = f (f z b) a)
    (z : β) : l'.foldl f (l.foldl f z) = l.foldl f (l'.foldl f z) := by
  induction l generalizing z with
  | nil => rfl
  | cons a l ih =>
    rw [List.foldl_cons, ih fun a ha => h a (List.mem_cons_of_mem _ ha),
      foldl_comm_step (h a List.mem_cons_self), List.foldl_cons]

end Fold

/-! ## Events that do not contradict each other -/

/-- Two events that may be handed over in either order, by processors of some categories. -/
structure Event.Compatible (cs : List Category) (w : Window) (e f : Event) : Prop where
  /-- Samples of one identity have different times. -/
  sampled : ∀ c ∈ cs, c.schema.lifecycle = .sampled → ∀ a ∈ e.rowsFor c w, ∀ b ∈ f.rowsFor c w,
    c.schema.identity a.cells = c.schema.identity b.cells → a.observedAt ≠ b.observedAt
  /-- Two blocks of one operation agree where both say something, up to their own times. -/
  operations : ∀ c ∈ cs, c.schema.lifecycle = .startFinish → ∀ a ∈ e.rowsFor c w,
    ∀ b ∈ f.rowsFor c w, c.schema.identity a.cells = c.schema.identity b.cells →
      ∀ i, i ≠ c.schema.lastUpdatedColumn → (a.cells.getD i .null).isNull = false →
        (b.cells.getD i .null).isNull = false → a.cells.getD i .null = b.cells.getD i .null
  /-- Lists of members have different times. -/
  topology : .clusterTopology ∈ cs → ∀ t u, e.membersFor w = some t → f.membersFor w = some u →
    t.observedAt ≠ u.observedAt

/-- Whether two cells agree where both hold something. Doubles are taken to differ. -/
def Cell.agrees : Cell → Cell → Bool
  | null, _ => true
  | _, null => true
  | int m, int n => m == n
  | text s, text t => s == t
  | _, _ => false

theorem Cell.eq_of_agrees {a b : Cell} (h : a.agrees b = true) (ha : a.isNull = false)
    (hb : b.isNull = false) : a = b := by
  cases a <;> cases b <;> simp_all [agrees, isNull]

/-- Whether two rows of a category may be written in either order. -/
def Row.compatible (s : Schema) (a b : Row) : Bool :=
  s.identity a.cells != s.identity b.cells ||
    match s.lifecycle with
    | .sampled => a.observedAt != b.observedAt
    | .startFinish => (List.range a.cells.length).all fun i =>
      i == s.lastUpdatedColumn || (a.cells.getD i .null).agrees (b.cells.getD i .null)
    | .topology => true

def Event.compatible (cs : List Category) (w : Window) (e f : Event) : Bool :=
  (cs.all fun c => (e.rowsFor c w).all fun a => (f.rowsFor c w).all fun b =>
    Row.compatible c.schema a b) &&
  match e.membersFor w, f.membersFor w with
  | some t, some u => t.observedAt != u.observedAt
  | _, _ => true

theorem Event.compatible_sound {cs : List Category} {w : Window} {e f : Event}
    (h : compatible cs w e f = true) : Compatible cs w e f := by
  unfold compatible at h
  rw [Bool.and_eq_true] at h
  obtain ⟨hrows, hlists⟩ := h
  have hpair : ∀ c ∈ cs, ∀ a ∈ e.rowsFor c w, ∀ b ∈ f.rowsFor c w,
      Row.compatible c.schema a b = true := fun c hc a ha b hb =>
    List.all_eq_true.1 (List.all_eq_true.1 (List.all_eq_true.1 hrows c hc) a ha) b hb
  refine ⟨fun c hc hl a ha b hb hid => ?_, fun c hc hl a ha b hb hid i hi hna hnb => ?_,
    fun _ t u ht hu => ?_⟩
  · have := hpair c hc a ha b hb
    simpa [Row.compatible, hid, hl] using this
  · have hab := hpair c hc a ha b hb
    have hlt : i < a.cells.length := by
      by_contra hge
      rw [List.getD_eq_getElem?_getD, List.getElem?_eq_none (Nat.le_of_not_lt hge)] at hna
      cases hna
    simp only [Row.compatible, hid, hl, bne_self_eq_false, Bool.false_or] at hab
    have hagree := List.all_eq_true.1 hab i (List.mem_range.2 hlt)
    exact Cell.eq_of_agrees (by simpa [hi] using hagree) hna hnb
  · rw [ht, hu] at hlists
    simpa using hlists

theorem Event.membersFor_of_mem_rowsFor {w : Window} {e : Event} {row : Row}
    (h : row ∈ e.rowsFor .clusterTopology w) :
    ∃ t, e.membersFor w = some t ∧ t.observedAt = some row.observedAt := by
  rw [rowsFor_clusterTopology] at h
  cases ht : e.membersFor w with
  | none => rw [ht] at h; cases h
  | some t =>
    obtain ⟨time, htime, -⟩ := membersFor_observed ht
    rw [ht] at h
    obtain ⟨n, -, rfl⟩ := List.mem_map.1 (show row ∈ t.rows from h)
    rw [htime]
    exact ⟨t, rfl, htime⟩

/-- **Rows of compatible events merge alike in either order.** -/
theorem Event.Compatible.merge_comm {cs : List Category} {w : Window} {e f : Event}
    (h : Compatible cs w e f) {c : Category} (hc : c ∈ cs) {a b : Row} (ha : a ∈ e.rowsFor c w)
    (hb : b ∈ f.rowsFor c w) (hid : c.schema.rowIdentity a = c.schema.rowIdentity b) :
    c.schema.merge (c.schema.keep a.cells) (c.schema.keep b.cells) =
      c.schema.merge (c.schema.keep b.cells) (c.schema.keep a.cells) := by
  have hfa := (fits_of_mem_rowsFor ha).1
  have hfb := (fits_of_mem_rowsFor hb).1
  have hcells : c.schema.identity a.cells = c.schema.identity b.cells := by
    unfold Schema.rowIdentity at hid
    rwa [Schema.identity_keep hfa.typed, Schema.identity_keep hfb.typed] at hid
  cases hl : c.schema.lifecycle with
  | sampled =>
    have hsf : c.schema.isStartFinish = false := by rw [Schema.isStartFinish, hl]; rfl
    exact Schema.merge_comm_of_ne hsf hfa.lastUpdated_keep hfb.lastUpdated_keep
      (h.sampled c hc hl a ha b hb hcells)
  | startFinish =>
    have hsf : c.schema.isStartFinish = true := by rw [Schema.isStartFinish, hl]; rfl
    refine Schema.merge_comm_of_agree hsf hfa.stored hfb.stored hid hfa.lastUpdated_keep
      hfb.lastUpdated_keep ?_
    rw [hfa.keep_eq hsf, hfb.keep_eq hsf]
    exact h.operations c hc hl a ha b hb hcells
  | topology =>
    have htop : c = .clusterTopology := by
      cases c <;> first | rfl | exact absurd hl (by decide)
    subst htop
    obtain ⟨t, ht, hta⟩ := membersFor_of_mem_rowsFor ha
    obtain ⟨u, hu, hub⟩ := membersFor_of_mem_rowsFor hb
    refine Schema.merge_comm_of_ne rfl hfa.lastUpdated_keep hfb.lastUpdated_keep fun he => ?_
    exact h.topology hc t u ht hu (by rw [hta, hub, he])

section Perm

variable {cs : List Category} {w : Window} {es es' : List Event} {c : Category}

/-! ## Rows in any order -/

/-- **The rows of one identity come to the same record in any order of the events.** -/
theorem joinRows_perm (hperm : es.Perm es')
    (hcompat : ∀ e ∈ es, ∀ f ∈ es, e ≠ f → Event.Compatible cs w e f) (hc : c ∈ cs)
    (k : List String) (stored : Option Record) :
    c.schema.joinRows ((es.flatMap (·.rowsFor c w)).filter (c.schema.rowIdentity · = k)) stored =
      c.schema.joinRows ((es'.flatMap (·.rowsFor c w)).filter (c.schema.rowIdentity · = k))
        stored := by
  unfold Schema.joinRows
  rw [List.filter_flatMap, List.filter_flatMap, List.foldl_flatMap, List.foldl_flatMap]
  refine hperm.foldl_eq' (fun e he f hf z => ?_) stored
  by_cases hef : e = f
  · rw [hef]
  · -- two rows of the identity k, one of each event
    refine foldl_comm (fun a ha b hb z => ?_) z
    obtain ⟨ha, hka⟩ := List.mem_filter.1 ha
    obtain ⟨hb, hkb⟩ := List.mem_filter.1 hb
    have hid : c.schema.rowIdentity a = c.schema.rowIdentity b :=
      (of_decide_eq_true hka).trans (of_decide_eq_true hkb).symm
    have hcomm := (hcompat e he f hf hef).merge_comm hc ha hb hid
    cases z with
    | none => exact congrArg some hcomm
    | some r =>
      show some (c.schema.merge (c.schema.merge r _) _) = some (c.schema.merge (c.schema.merge r _) _)
      rw [Schema.merge_assoc, hcomm, ← Schema.merge_assoc]

theorem latestObserved_perm {rows rows' : List Row} (h : rows.Perm rows') (known : Option Int) :
    latestObserved known rows = latestObserved known rows' := by
  refine h.foldl_eq' (fun a _ b _ z => ?_) known
  cases z with
  | none => exact congrArg some (Int.max_comm ..)
  | some t =>
    show some (max (max t a.observedAt) b.observedAt) = some (max (max t b.observedAt) a.observedAt)
    rw [Int.max_assoc, Int.max_comm a.observedAt, ← Int.max_assoc]

structure Snapshot.SameRecords (m n : Snapshot) : Prop where
  windowStart : m.windowStart = n.windowStart
  writerEnd : m.writerEnd = n.writerEnd
  records : m.records.Perm n.records

theorem Snapshot.SameRecords.refl (n : Snapshot) : n.SameRecords n :=
  ⟨rfl, rfl, .refl _⟩

theorem sameRecords_load (hperm : es.Perm es')
    (hcompat : ∀ e ∈ es, ∀ f ∈ es, e ≠ f → Event.Compatible cs w e f) (hc : c ∈ cs)
    {n : Snapshot} (hu : c.schema.Unique n.records) (hs : ∀ r ∈ n.records, c.schema.Stored r) :
    (n.load c (es.flatMap (·.rowsFor c w))).SameRecords
      (n.load c (es'.flatMap (·.rowsFor c w))) where
  windowStart := rfl
  writerEnd := latestObserved_perm (hperm.flatMap_right _) n.writerEnd
  records := by
    have hrows : ∀ es : List Event, ∀ row ∈ es.flatMap (·.rowsFor c w),
        c.schema.Stored (c.schema.keep row.cells) := fun es row hrow => stored_of_mem_rows hrow
    refine (hu.upserts (hrows es) hs).perm (hu.upserts (hrows es') hs) fun k => ?_
    show c.schema.recordOf? k (c.schema.upserts _ _) = c.schema.recordOf? k (c.schema.upserts _ _)
    rw [Schema.recordOf?_upserts (hrows es) hs, Schema.recordOf?_upserts (hrows es') hs,
      joinRows_perm hperm hcompat hc]

theorem Series.passed_perm (hperm : es.Perm es')
    (hcompat : ∀ e ∈ es, ∀ f ∈ es, e ≠ f → Event.Compatible cs w e f) {l : List Snapshot}
    (h : Keyed c l) {maxAge? : Option Int} (hc : ∀ maxAge, maxAge? = some maxAge → c ∈ cs) :
    List.Forall₂ Snapshot.SameRecords (passed c maxAge? w es l) (passed c maxAge? w es' l) := by
  cases maxAge? with
  | none => exact List.forall₂_same.2 fun n _ => .refl n
  | some maxAge =>
    have hopen : Keyed c (opened c maxAge w.start l) := h.opened
    unfold passed load
    refine List.forall₂_map_left_iff.2 (List.forall₂_map_right_iff.2 (List.forall₂_same.2 ?_))
    intro n hn
    split
    · exact sameRecords_load hperm hcompat (hc maxAge rfl) (hopen.unique n hn) (hopen.stored n hn)
    · exact .refl n

theorem Series.at?_sameRecords {l l' : List Snapshot}
    (h : List.Forall₂ Snapshot.SameRecords l l') (v : Int) :
    at? v l = none ∧ at? v l' = none ∨
      ∃ m n, at? v l = some m ∧ at? v l' = some n ∧ m.SameRecords n := by
  induction h with
  | nil => exact .inl ⟨rfl, rfl⟩
  | @cons m n l l' hmn _ ih =>
    unfold at? at ih ⊢
    rw [List.find?_cons, List.find?_cons, ← hmn.windowStart]
    by_cases hv : m.windowStart = v
    · simp only [hv, decide_true]
      exact .inr ⟨m, n, rfl, rfl, hmn⟩
    · simpa only [hv, decide_false] using ih

end Perm

namespace Intake

variable {w : Window} {es es' : List Event}

theorem offered_perm {i : Intake} (hperm : es.Perm es')
    (hcompat : ∀ e ∈ es, ∀ f ∈ es, e ≠ f → Event.Compatible i.categories w e f) (t : Topology) :
    (i.offered w es).foldl .publish t = (i.offered w es').foldl .publish t := by
  unfold offered
  split
  · rename_i htop
    refine (hperm.filterMap _).foldl_eq' (fun a ha b hb z => ?_) t
    obtain ⟨e, he, hea⟩ := List.mem_filterMap.1 ha
    obtain ⟨f, hf, hfb⟩ := List.mem_filterMap.1 hb
    by_cases hef : e = f
    · rw [hef, hfb] at hea
      rw [Option.some.inj hea]
    · obtain ⟨i, hi, -⟩ := Event.membersFor_observed hea
      obtain ⟨j, hj, -⟩ := Event.membersFor_observed hfb
      exact Topology.publish_right_comm z ⟨i, hi⟩ ⟨j, hj⟩
        ((hcompat e he f hf hef).topology htop a b hea hfb)
  · rfl

/-- **The order in which a bucket is listed does not matter** for events that do not contradict each
other. Whatever the calls that made the store, and whatever processors, counters, batch size and
published list there are: passes over two orders of the events count the same, publish the same list,
and leave in every category the same snapshots, with the same ends and the same records up to their
order; and where no sum or difference of the two projections of a window was rounded, they are the
same. -/
theorem run_perm (i : Intake) (interval : Int) (calls : List Store.Call) (hperm : es.Perm es')
    (hcompat : ∀ e ∈ es, ∀ f ∈ es, e ≠ f → Event.Compatible i.categories w e f) :
    ∃ stats a b,
      Intake.run (fun _ => .ok es) w { i with store := .after interval calls } = .ok stats a ∧
      Intake.run (fun _ => .ok es') w { i with store := .after interval calls } = .ok stats b ∧
      a.topology = b.topology ∧
      ∀ c, List.Forall₂ Snapshot.SameRecords (a.store.snapshots c) (b.store.snapshots c) ∧
        ∀ v, c.schema.Exact (a.store.records c v) → c.schema.Exact (b.store.records c v) →
          ∀ t, a.store.project c v = .ok t ↔ b.store.project c v = .ok t := by
  generalize hi : ({ i with store := .after interval calls } : Intake) = start
  have hkeyed : start.store.Keyed := hi ▸ Store.keyed_after interval calls
  have hcats : start.categories = i.categories := by rw [← hi]; rfl
  rw [← hcats] at hcompat
  obtain ⟨a, ha, hpassed⟩ := run_events w hkeyed es
  obtain ⟨b, hb, hpassed'⟩ := run_events w hkeyed es'
  have hstats : Stats.ofPass start.categories w es = Stats.ofPass start.categories w es' :=
    hperm.foldl_eq' (fun e _ f _ s => Stats.add_right_comm s _ _) .zero
  refine ⟨_, a, b, ha, hstats ▸ hb, ?_, fun c => ?_⟩
  · rw [hpassed.topology, hpassed'.topology, offered_perm hperm hcompat]
  have hseries : List.Forall₂ Snapshot.SameRecords (a.store.snapshots c) (b.store.snapshots c) := by
    rw [hpassed.snapshots, hpassed'.snapshots]
    refine Series.passed_perm hperm hcompat (hkeyed c) fun maxAge hage => ?_
    by_contra hc
    rw [maxAgeOf?_eq_none.2 hc] at hage
    cases hage
  refine ⟨hseries, fun v hexact hexact' t => ?_⟩
  have hunique : c.schema.Unique (a.store.records c v) := by
    rw [Store.records_eq]
    exact ((hpassed.keyed hkeyed).getD c v).1
  refine Schema.project_perm ?_ hunique hexact hexact' t
  unfold Store.records
  rw [Store.snapshot?_eq, Store.snapshot?_eq]
  rcases Series.at?_sameRecords hseries v with ⟨h1, h2⟩ | ⟨m, n, h1, h2, hmn⟩
  · rw [h1, h2]
  · rw [h1, h2]; exact hmn.records

/-- The two halves of a search, the finish of which is listed first. -/
def searchHalves : List Event :=
  [⟨"threads/7/http/search/r1/finish", "\x7b\"current_time\":1500\x7d\nHTTPRespCode:200\n"⟩,
    ⟨"threads/7/http/search/r1/start", "\x7b\"current_time\":1000\x7d\nItemCount:3\n"⟩]

/-- The finish of a search may be read before its start. -/
theorem run_perm_search :
    ∃ stats a b,
      Intake.run (fun _ => .ok searchHalves) ⟨0, 5000⟩
        { fresh (allProcessors 15000) 500 5000 with store := .after 5000 [] } = .ok stats a ∧
      Intake.run (fun _ => .ok searchHalves.reverse) ⟨0, 5000⟩
        { fresh (allProcessors 15000) 500 5000 with store := .after 5000 [] } = .ok stats b ∧
      a.topology = b.topology ∧
      ∀ c, List.Forall₂ Snapshot.SameRecords (a.store.snapshots c) (b.store.snapshots c) ∧
        ∀ v, c.schema.Exact (a.store.records c v) → c.schema.Exact (b.store.records c v) →
          ∀ t, a.store.project c v = .ok t ↔ b.store.project c v = .ok t :=
  run_perm _ 5000 [] (List.reverse_perm _).symm fun e he f hf hne =>
    Event.compatible_sound ((by decide +kernel : ∀ e ∈ searchHalves, ∀ f ∈ searchHalves, e ≠ f →
      Event.compatible Category.all ⟨0, 5000⟩ e f = true) e he f hf hne)

end Intake

end WindowAlign
