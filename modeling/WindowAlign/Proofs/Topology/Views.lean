import WindowAlign.Proofs.Ingest.Fates
import WindowAlign.Proofs.Sink.Tables
import WindowAlign.Proofs.Topology.Published

/-!
# Three views of the members

A list of members that a pass accepts is published, written into the snapshot of the window row by row,
and, once it is published, written into the database. Three rules say which entry counts: a published
list is replaced by one that is not older, a stored row by one that is not older, and a member of the
database by whatever comes later. They agree on every member that is published: the published list is
the last of the newest ones (`Topology.exists_split_publishAll`), what is stored of an identifier is
never newer than what is published and is its last entry there (`Topology.Shown`), and the database
keeps the last entry (`Database.keptMembers_filter`).
-/

namespace WindowAlign

namespace Topology

/-- The last entry of a list of members with an identifier. -/
def lastOf? (t : Topology) (id : String) : Option Node :=
  t.nodes.reverse.find? (·.id == id)

theorem id_of_lastOf? {t : Topology} {id : String} {n : Node} (h : t.lastOf? id = some n) :
    n.id = id := by
  simpa using List.find?_some h

theorem exists_lastOf? {t : Topology} {id : String} (h : ∃ n ∈ t.nodes, n.id = id) :
    ∃ n, t.lastOf? id = some n := by
  obtain ⟨n, hn, rfl⟩ := h
  apply Option.isSome_iff_exists.1
  rw [lastOf?, List.find?_isSome]
  exact ⟨n, List.mem_reverse.2 hn, beq_self_eq_true _⟩

theorem lastOf?_eq (t : Topology) (id : String) :
    t.lastOf? id = (t.nodes.filter (·.id = id)).getLast? := by
  rw [lastOf?, ← List.head?_filter, List.filter_reverse, List.head?_reverse]
  simp [beq_eq_decide]

/-! ## The published list -/

theorem publishAll_unknown {t : Topology} {offers : List Topology} (hne : offers ≠ [])
    (ht : ∀ a ∈ offers, t.isNewer a = false) :
    offers.foldl publish t = offers.foldl publish unknown := by
  cases offers with
  | nil => exact absurd rfl hne
  | cons a offers =>
    have hfirst : t.publish a = a := by
      rw [publish, ht a List.mem_cons_self]
      rfl
    rw [List.foldl_cons, hfirst]
    rfl

/-- **The last of the newest lists is published.** -/
theorem exists_split_publishAll {t : Topology} {offers : List Topology} (hne : offers ≠ [])
    (hdated : ∀ a ∈ offers, a.Dated) (ht : ∀ a ∈ offers, t.isNewer a = false) :
    ∃ before a after, offers = before ++ a :: after ∧ offers.foldl publish t = a ∧
      (∀ b ∈ before, b.isNewer a = false) ∧ ∀ b ∈ after, a.isNewer b = true := by
  induction offers using List.reverseRecOn with
  | nil => exact absurd rfl hne
  | append_singleton offers b ih =>
    have hb : b.Dated := hdated b (by simp)
    rw [List.foldl_append]
    by_cases hempty : offers = []
    · subst hempty
      have hfirst : [b].foldl publish t = b := publishAll_unknown hne ht
      exact ⟨[], b, [], rfl, hfirst, List.forall_mem_nil _, List.forall_mem_nil _⟩
    obtain ⟨before, a, after, rfl, hfold, hbefore, hafter⟩ :=
      ih hempty (fun a ha => hdated a (List.mem_append_left _ ha))
        (fun a ha => ht a (List.mem_append_left _ ha))
    rw [hfold]
    show ∃ _ _ _, _ ∧ a.publish b = _ ∧ _
    rcases publish_eq a b with ⟨hnewer, he⟩ | ⟨hold, he⟩
    · refine ⟨before, a, after ++ [b], by simp, he, hbefore, fun c hc => ?_⟩
      rcases List.mem_append.1 hc with hc | hc
      · exact hafter c hc
      · rw [List.mem_singleton.1 hc]; exact hnewer
    · refine ⟨before ++ a :: after, b, [], rfl, he, fun c hc => ?_, List.forall_mem_nil _⟩
      -- no list so far is newer than `a`, and `a` is not newer than `b`
      have ha : a.Dated := hdated a (by simp)
      apply not_isNewer_trans ha _ hold
      rcases List.mem_append.1 hc with hc | hc
      · exact hbefore c hc
      rcases List.mem_cons.1 hc with rfl | hc
      · unfold isNewer
        cases c.observedAt <;> simp
      · exact isNewer_asymm (hafter c hc)

/-! ## What is stored of one identifier -/

section Shown

theorem keep_ofNode (time : Int) (n : Node) :
    Category.clusterTopology.schema.keep (Row.ofNode time n).cells = (Row.ofNode time n).cells :=
  rfl

theorem identity_ofNode (time : Int) (n : Node) :
    Category.clusterTopology.schema.identity (Row.ofNode time n).cells = [n.id] :=
  rfl

theorem lastUpdated_ofNode (time : Int) (n : Node) :
    Category.clusterTopology.schema.lastUpdated (Row.ofNode time n).cells = .int time :=
  rfl

theorem merge_ofNode {a : Record} {u : Int}
    (ha : Category.clusterTopology.schema.lastUpdated a = .int u) (time : Int) (n : Node) :
    Category.clusterTopology.schema.merge a (Row.ofNode time n).cells =
      if u ≤ time then (Row.ofNode time n).cells else a := by
  show (if (Category.clusterTopology.schema.lastUpdated a).le (.int time) then _ else _) = _
  rw [ha]
  simp [Cell.le]

/-- What is stored of an identifier after some of its entries are written in order. -/
def stored (time : Int) (entries : List Node) (before : Option Record) : Option Record :=
  Category.clusterTopology.schema.joinRows (entries.map (Row.ofNode time)) before

variable {time : Int} {entries : List Node} {before : Option Record}

theorem stored_cons (time : Int) (n : Node) (entries : List Node) (before : Option Record) :
    stored time (n :: entries) before = stored time entries
      (Category.clusterTopology.schema.joinOption before (some (Row.ofNode time n).cells)) := by
  rw [stored, List.map_cons, Schema.joinRows_cons, keep_ofNode]
  rfl

/-- Entries that are not older than what is stored replace it, and the last of them counts. -/
theorem stored_of_le (h : ∀ a, before = some a →
      ∃ u ≤ time, Category.clusterTopology.schema.lastUpdated a = .int u) :
    stored time entries before =
      (entries.getLast?.map fun n => (Row.ofNode time n).cells).or before := by
  induction entries generalizing before with
  | nil => rfl
  | cons n entries ih =>
    have hfirst : Category.clusterTopology.schema.joinOption before
        (some (Row.ofNode time n).cells) = some (Row.ofNode time n).cells := by
      cases before with
      | none => rfl
      | some a =>
        obtain ⟨u, hu, ha⟩ := h a rfl
        show some _ = _
        rw [merge_ofNode ha, if_pos hu]
    rw [stored_cons, hfirst, ih fun a ha => ?_, List.getLast?_cons]
    · cases entries.getLast? <;> rfl
    · cases ha
      exact ⟨time, Int.le_refl _, lastUpdated_ofNode time n⟩

theorem stored_of_lt {a : Record} {u : Int}
    (ha : Category.clusterTopology.schema.lastUpdated a = .int u) (h : time < u) :
    stored time entries (some a) = some a := by
  induction entries with
  | nil => rfl
  | cons n entries ih =>
    rw [stored_cons]
    show stored time entries (some (Category.clusterTopology.schema.merge a _)) = _
    rw [merge_ofNode ha, if_neg (by omega), ih]

theorem lastUpdated_stored {latest : Int} (ht : time ≤ latest) (h : ∀ a, before = some a →
      ∃ u ≤ latest, Category.clusterTopology.schema.lastUpdated a = .int u) :
    ∀ a, stored time entries before = some a →
      ∃ u ≤ latest, Category.clusterTopology.schema.lastUpdated a = .int u := by
  induction entries generalizing before with
  | nil => exact h
  | cons n entries ih =>
    rw [stored_cons]
    apply ih
    intro a ha
    cases before with
    | none => cases ha; exact ⟨time, ht, lastUpdated_ofNode time n⟩
    | some b =>
      obtain ⟨u, hu, hb⟩ := h b rfl
      cases ha
      rw [merge_ofNode hb]
      split
      · exact ⟨time, ht, lastUpdated_ofNode time n⟩
      · exact ⟨u, hu, hb⟩

/-- What is stored of an identifier is not newer than a list of members, and is the list's last entry
of it where there is one. -/
structure Shown (t : Topology) (id : String) (stored : Option Record) : Prop where
  notNewer : ∀ a, stored = some a → ∃ u time,
    Category.clusterTopology.schema.lastUpdated a = .int u ∧ t.observedAt = some time ∧ u ≤ time
  entry : ∀ n time, t.lastOf? id = some n → t.observedAt = some time →
    stored = some (Row.ofNode time n).cells

theorem shown_unknown (id : String) : Shown unknown id none := by
  constructor
  · intro a ha
    cases ha
  · intro n time hn
    cases hn

/-- **Publishing a list and writing its rows keeps the two in agreement.** -/
theorem Shown.publish {t a : Topology} {id : String} {before : Option Record}
    (h : Shown t id before) (ha : a.observedAt = some time) :
    Shown (t.publish a) id (stored time (a.nodes.filter (·.id = id)) before) := by
  rcases publish_eq t a with ⟨hnewer, he⟩ | ⟨hold, he⟩
  · -- an older list is not published, and what it says of a member may still be written
    obtain ⟨published, hpublished, hlt⟩ := (isNewer_iff ha).1 hnewer
    rw [he]
    constructor
    · intro r hr
      have hbefore : ∀ r, before = some r →
          ∃ u ≤ published, Category.clusterTopology.schema.lastUpdated r = .int u := by
        intro r hr
        obtain ⟨u, time', hu, htime', hle⟩ := h.notNewer r hr
        rw [hpublished] at htime'
        cases htime'
        exact ⟨u, hle, hu⟩
      obtain ⟨u, hle, hu⟩ := lastUpdated_stored (Int.le_of_lt hlt) hbefore r hr
      exact ⟨u, published, hu, hpublished, hle⟩
    · intro n time' hn htime'
      have hstored := h.entry n time' hn htime'
      rw [hstored]
      rw [hpublished] at htime'
      cases htime'
      exact stored_of_lt (lastUpdated_ofNode _ _) hlt
  · have hle : ∀ r, before = some r →
        ∃ u ≤ time, Category.clusterTopology.schema.lastUpdated r = .int u := by
      intro r hr
      obtain ⟨u, published, hu, hpublished, hle⟩ := h.notNewer r hr
      have hnot : ¬time < published := fun hlt => by
        rw [(isNewer_iff ha).2 ⟨published, hpublished, hlt⟩] at hold
        cases hold
      exact ⟨u, by omega, hu⟩
    rw [he]
    constructor
    · intro r hr
      obtain ⟨u, hu, hr⟩ := lastUpdated_stored (Int.le_refl time) hle r hr
      exact ⟨u, time, hr, ha, hu⟩
    · intro n time' hn htime'
      rw [stored_of_le hle, ← lastOf?_eq]
      rw [ha] at htime'
      cases htime'
      rw [hn]
      rfl

theorem joinRows_publishAll {offers : List Topology} (hdated : ∀ a ∈ offers, a.Dated)
    (id : String) :
    Shown (offers.foldl publish unknown) id (Category.clusterTopology.schema.joinRows
      ((offers.flatMap rows).filter (Category.clusterTopology.schema.identity ·.cells = [id]))
      none) := by
  induction offers using List.reverseRecOn with
  | nil => exact shown_unknown id
  | append_singleton offers a ih =>
    obtain ⟨time, ha⟩ := hdated a (by simp)
    have hstep := (ih fun b hb => hdated b (List.mem_append_left _ hb)).publish ha
    have hrows : a.rows.filter (Category.clusterTopology.schema.identity ·.cells = [id]) =
        (a.nodes.filter (·.id = id)).map (Row.ofNode time) := by
      rw [rows, ha, List.filter_map]
      congr 1
      refine List.filter_congr fun n _ => ?_
      rw [Function.comp_apply, identity_ofNode]
      simp
    rw [List.foldl_append, List.flatMap_append, List.filter_append, List.flatMap_singleton, hrows,
      Schema.joinRows, List.foldl_append]
    exact hstep

end Shown

end Topology

/-! ## What the database keeps -/

namespace Database

/-- **The database keeps the last entry of an identifier** and no other. -/
theorem keptMembers_filter (t : Topology) (id : String) :
    (keptMembers t.nodes).filter (·.id = id) = (t.lastOf? id).toList := by
  obtain ⟨hsorted, hmem⟩ := keptMembers_spec t.nodes
  have hnodup : (keptMembers t.nodes).Nodup := hsorted.imp fun {a b} hlt (e : a = b) =>
    String.lt_irrefl a.id (by rw [← e] at hlt; exact hlt)
  have hkept : ∀ m, m ∈ (keptMembers t.nodes).filter (·.id = id) ↔ t.lastOf? id = some m := by
    intro m
    rw [List.mem_filter, hmem]
    constructor
    · rintro ⟨hm, hid⟩
      rw [← of_decide_eq_true hid]
      exact hm
    · intro hm
      have hid := Topology.id_of_lastOf? hm
      refine ⟨?_, decide_eq_true hid⟩
      rw [hid]
      exact hm
  cases hlast : t.lastOf? id with
  | none =>
    apply List.eq_nil_iff_forall_not_mem.2
    intro m hm
    rw [hkept, hlast] at hm
    cases hm
  | some n =>
    apply List.perm_singleton.1
    apply (List.perm_ext_iff_of_nodup (hnodup.filter _) (List.nodup_singleton n)).2
    intro m
    rw [hkept, hlast, List.mem_singleton, Option.some_inj]
    exact eq_comm

theorem writeTopology_kept {d : Database} (hw : d.windows.isSome) (hn : d.nodes.isSome) (r : Int)
    (t : Topology) : ∃ d', d.writeTopology r t = .ok (t.nodes.length, d') ∧
      d'.clusterNodes r = .ok (keptMembers t.nodes) := by
  obtain ⟨ws, hws⟩ := Option.isSome_iff_exists.1 hw
  obtain ⟨ns, hns⟩ := Option.isSome_iff_exists.1 hn
  refine ⟨_, by rw [writeTopology, hws, hns]; rfl, ?_⟩
  have hothers : (ns.filter (·.1 != r)).lookup r = if (r != r) then ns.lookup r else none :=
    Keyed.lookup_filter (· != r) ns r
  show Except.ok (((ns.filter (·.1 != r) ++ [(r, keptMembers t.nodes)]).lookup r).getD []) = _
  rw [List.lookup_append, hothers, Keyed.lookup_cons]
  simp

end Database

/-! ## A pass over lists of members -/

/-- A list of some time is the last one among the newest that are accepted of some events. -/
def Topology.LatestOf (t : Topology) (time : Int) (w : Window) (es : List Event) : Prop :=
  ∃ before e after, es = before ++ e :: after ∧ e.membersFor w = some t ∧
    t.observedAt = some time ∧
    (∀ f ∈ before, ∀ t', f.membersFor w = some t' → ∃ u ≤ time, t'.observedAt = some u) ∧
    ∀ f ∈ after, ∀ t', f.membersFor w = some t' → ∃ u < time, t'.observedAt = some u

/-- A list that splits those accepted of some events, with no newer one before it and only older ones
after it, splits the events themselves so. -/
theorem Topology.latestOf_of_split {a : Topology} {time : Int} {w : Window} {es : List Event}
    {before after : List Topology} (hsplit : es.filterMap (·.membersFor w) = before ++ a :: after)
    (htime : a.observedAt = some time) (hbefore : ∀ b ∈ before, b.isNewer a = false)
    (hafter : ∀ b ∈ after, a.isNewer b = true) : a.LatestOf time w es := by
  obtain ⟨es1, es2, rfl, rfl, hes2⟩ := List.filterMap_eq_append_iff.1 hsplit
  obtain ⟨es3, e, es4, rfl, hnone, he, rfl⟩ := List.filterMap_eq_cons_iff.1 hes2
  refine ⟨es1 ++ es3, e, es4, by simp, he, htime, fun f hf t ht => ?_, fun f hf t ht => ?_⟩
  · obtain ⟨u, hu, -⟩ := Event.membersFor_observed ht
    refine ⟨u, ?_, hu⟩
    rcases List.mem_append.1 hf with hf | hf
    · have hnot := hbefore t (List.mem_filterMap.2 ⟨f, hf, ht⟩)
      by_contra hlt
      rw [(isNewer_iff htime).2 ⟨u, hu, by omega⟩] at hnot
      cases hnot
    · -- between the lists before it and its own event nothing is accepted
      rw [hnone f hf] at ht
      cases ht
  · obtain ⟨u, hu, -⟩ := Event.membersFor_observed ht
    obtain ⟨known, hknown, hlt⟩ :=
      (isNewer_iff hu).1 (hafter t (List.mem_filterMap.2 ⟨f, hf, ht⟩))
    rw [htime] at hknown
    cases hknown
    exact ⟨u, hlt, hu⟩

/-- Of each identifier in a list of members there is one record, that of its last entry in the list
with the time of the list; and in any database with the tables for it there is that entry of the
identifier and no other, once the list is written into it. -/
def Topology.ViewedIn (t : Topology) (time : Int) (records : List Record) : Prop :=
  ∀ id, (∃ n ∈ t.nodes, n.id = id) → ∃ n, t.lastOf? id = some n ∧
    records.filter (Category.clusterTopology.schema.identity · = [id]) =
      [(Row.ofNode time n).cells] ∧
    ∀ (d : Database) (r : Int), d.windows.isSome → d.nodes.isSome →
      ∃ d' ns, d.writeTopology r t = .ok (t.nodes.length, d') ∧ d'.clusterNodes r = .ok ns ∧
        ns.filter (·.id = id) = [n]

namespace Intake

/-- The rows that a pass writes of the members are those of the lists that it accepts. -/
theorem flatMap_rowsFor_members (w : Window) (es : List Event) :
    es.flatMap (·.rowsFor .clusterTopology w) =
      (es.filterMap (·.membersFor w)).flatMap Topology.rows := by
  induction es with
  | nil => rfl
  | cons e es ih =>
    rw [List.flatMap_cons, ih, Event.rowsFor_clusterTopology]
    cases he : e.membersFor w with
    | none => rw [List.filterMap_cons_none he]; rfl
    | some t => rw [List.filterMap_cons_some he]; rfl

theorem Passed.records_members {w : Window} {es : List Event} {i i' : Intake}
    (h : Passed w es i i') (hs : i.store.Keyed) (hc : .clusterTopology ∈ i.categories)
    (hnew : i.store.snapshot? .clusterTopology w.start = none) :
    i'.store.records .clusterTopology w.start =
      Category.clusterTopology.schema.upserts (es.flatMap (·.rowsFor .clusterTopology w)) [] := by
  cases hage : maxAgeOf? .clusterTopology i.processors with
  | none => exact absurd hc (maxAgeOf?_eq_none.1 hage)
  | some maxAge =>
    obtain ⟨n, -, hn, hrecords⟩ := Series.records_passed (hs .clusterTopology) maxAge w es
    have hfresh : n.records = [] := by
      rw [← Store.snapshot?_eq, hnew] at hn
      rw [hn, Option.getD_none, Series.inherited]
      cases Series.before? w.start (i.store.snapshots .clusterTopology) <;> rfl
    rw [hfresh, ← hage, ← h.snapshots .clusterTopology] at hrecords
    exact hrecords

/-- **The snapshot shows what would be published of its lists.** -/
theorem Passed.shown {w : Window} {es : List Event} {i i' : Intake} (h : Passed w es i i')
    (hs : i.store.Keyed) (hc : .clusterTopology ∈ i.categories)
    (hnew : i.store.snapshot? .clusterTopology w.start = none)
    (hdated : ∀ a ∈ es.filterMap (·.membersFor w), a.Dated) (id : String) :
    ∃ stored, Topology.Shown ((es.filterMap (·.membersFor w)).foldl .publish .unknown) id stored ∧
      (i'.store.records .clusterTopology w.start).filter
        (Category.clusterTopology.schema.identity · = [id]) = stored.toList := by
  have htyped : ∀ row ∈ es.flatMap (·.rowsFor .clusterTopology w),
      Category.clusterTopology.schema.Typed row.cells := by
    intro row hrow
    obtain ⟨e, -, hrow⟩ := List.mem_flatMap.1 hrow
    exact (fits_of_mem_rowsFor hrow).1.typed
  have hunique : Category.clusterTopology.schema.Unique
      (Category.clusterTopology.schema.upserts (es.flatMap (·.rowsFor .clusterTopology w)) []) :=
    Schema.Unique.upserts (fun row hrow => (htyped row hrow).keep.stored) (List.forall_mem_nil _)
      List.nodup_nil
  refine ⟨_, Topology.joinRows_publishAll hdated id, ?_⟩
  rw [h.records_members hs hc hnew, Schema.filter_identity hunique,
    Schema.recordOf?_upserts_typed htyped (List.forall_mem_nil _), flatMap_rowsFor_members]
  rfl

/-- **The three views of the members agree.** Let a pass over any events, with any processors and any
batch size, create the snapshot of its window, and let it accept some list of members while none is
published that was seen in the window or later. Then the pass succeeds, the published list is the last
one among the newest of those that were accepted, and what it says of each identifier in it is what the
snapshot holds and what a database keeps. -/
theorem run_views {w : Window} {i : Intake} (hs : i.store.Keyed)
    (hc : .clusterTopology ∈ i.categories)
    (hnew : i.store.snapshot? .clusterTopology w.start = none)
    (hpublished : ∀ time, i.topology.observedAt = some time → time < w.start) {source : Source}
    {es : List Event} (hes : source w.start = .ok es)
    (haccepted : ∃ e ∈ es, ∃ t, e.membersFor w = some t) :
    ∃ stats i' time, Intake.run source w i = .ok stats i' ∧ i'.topology.LatestOf time w es ∧
      i'.topology.ViewedIn time (i'.store.records .clusterTopology w.start) := by
  obtain ⟨i', hrun, hpassed⟩ := run_spec (w := w) hs hes
  have hoffered : i.offered w es = es.filterMap (·.membersFor w) := if_pos hc
  have hdated : ∀ a ∈ es.filterMap (·.membersFor w), a.Dated := by
    intro a ha
    obtain ⟨e, -, he⟩ := List.mem_filterMap.1 ha
    obtain ⟨time, htime, -⟩ := Event.membersFor_observed he
    exact ⟨time, htime⟩
  have hne : es.filterMap (·.membersFor w) ≠ [] := by
    obtain ⟨e, he, t, ht⟩ := haccepted
    exact List.ne_nil_of_mem (List.mem_filterMap.2 ⟨e, he, ht⟩)
  have hold : ∀ a ∈ es.filterMap (·.membersFor w), i.topology.isNewer a = false := by
    intro a ha
    obtain ⟨e, -, he⟩ := List.mem_filterMap.1 ha
    obtain ⟨time, htime, hin⟩ := Event.membersFor_observed he
    apply Bool.eq_false_iff.2
    intro hnewer
    obtain ⟨known, hknown, hlt⟩ := (Topology.isNewer_iff htime).1 hnewer
    have := hpublished known hknown
    have := (Window.contains_iff ..).1 hin
    omega
  obtain ⟨before, a, after, hsplit, hfold, hbefore, hafter⟩ :=
    Topology.exists_split_publishAll hne hdated hold
  have htopology : i'.topology = a := by rw [hpassed.topology, hoffered, hfold]
  have hunknown : (es.filterMap (·.membersFor w)).foldl .publish .unknown = a := by
    rw [← Topology.publishAll_unknown hne hold, hfold]
  obtain ⟨time, htime⟩ := hdated a (by rw [hsplit]; simp)
  refine ⟨_, i', time, hrun, ?_, fun id hid => ?_⟩
  · rw [htopology]
    exact Topology.latestOf_of_split hsplit htime hbefore hafter
  · obtain ⟨n, hn⟩ := Topology.exists_lastOf? hid
    refine ⟨n, hn, ?_, fun d r hw hnodes => ?_⟩
    · obtain ⟨stored, hshown, hrecords⟩ := hpassed.shown hs hc hnew hdated id
      rw [hunknown, ← htopology] at hshown
      rw [hrecords, hshown.entry n time hn (htopology ▸ htime)]
      rfl
    · obtain ⟨d', hwrite, hread⟩ := Database.writeTopology_kept hw hnodes r i'.topology
      refine ⟨d', _, hwrite, hread, ?_⟩
      rw [Database.keptMembers_filter, hn]
      rfl

/-- Three lists of members: the newest comes second and names one of them twice. -/
def movedManager : List Event :=
  [⟨"cluster_topology", "\x7b\"current_time\":1000\x7d\n[\"n1\",\"h1\",\"data\",true]\n[\"n2\"]\n"⟩,
    ⟨"cluster_topology", "\x7b\"current_time\":3000\x7d\n[\"n1\"]\n[\"n1\",\"h4\"]\n"⟩,
    ⟨"cluster_topology", "\x7b\"current_time\":2000\x7d\n[\"n1\",\"h2\"]\n"⟩]

theorem run_views_movedManager :
    let source : Source := fun _ => .ok movedManager
    ∃ stats i' time,
      Intake.run source ⟨0, 5000⟩ (fresh (allProcessors 15000) 500 5000) = .ok stats i' ∧
        i'.topology.LatestOf time ⟨0, 5000⟩ movedManager ∧
        i'.topology.ViewedIn time (i'.store.records .clusterTopology 0) := by
  intro source
  refine run_views (w := ⟨0, 5000⟩) (.empty 5000) (by decide) rfl ?_ rfl ?_
  · intro time h
    cases h
  · refine ⟨_, List.mem_cons_self, Option.isSome_iff_exists.1 ?_⟩
    decide +kernel

end Intake

end WindowAlign
