import WindowAlign.Proofs.Sink.Reading

/-!
# A metrics database is a plain map

`Database.Refines` states what every query of a database returns in terms of the calls that were made to
it, latest first: the aggregates of the last table written for a window and a category, the last entry
of each member in the last list written for a window, and the windows that were touched, each only as
long as no later purge dropped it. A purge drops what is before its time from all three, and nothing
else. It holds after all calls whose tables have different metrics and no NaN (`after_refines`).
-/

namespace WindowAlign

/-- A call that a metrics database can keep and read back: the metrics of its table are different, and
no sum or mean is NaN. -/
def SinkCall.Sound : SinkCall → Prop
  | .metrics _ _ a => a.table.metrics.Nodup ∧ ∀ g ∈ a.aggregate, g.value.Readable
  | _ => True

namespace Database

def listing (d : Database) : List (Int × Option Int) :=
  (d.windows.getD []).reverse

/-- **What a database shows is what calls said**, latest first. -/
structure Refines (calls : List SinkCall) (d : Database) : Prop where
  /-- The aggregates of the last tables written, and none where none is kept. -/
  metricValues : ∀ w oc, ∃ vs, d.metricValues w oc = .ok vs ∧
    vs.Perm (SinkCall.valuesAt calls w oc)
  /-- The members of the last list written, by id, each as in the last entry that has its id. -/
  clusterNodes : ∀ w, ∃ ns, d.clusterNodes w = .ok ns ∧ ns.Pairwise (fun a b => a.id < b.id) ∧
    ∀ n, n ∈ ns ↔ ∃ t, SinkCall.latest (SinkCall.membersAt w) calls = some t ∧
      t.nodes.reverse.find? (·.id == n.id) = some n
  descending : d.listing.Pairwise fun a b => b.1 < a.1
  /-- The windows touched, each with the end in the last table written, if one was. -/
  listed : ∀ w e, (w, e) ∈ d.listing ↔ SinkCall.windowAt calls w = some e
  /-- A limit takes the latest windows. One beyond the signed range is above any number of windows. -/
  latestWindows : ∀ limit, limit < Nat.pow 2 63 ∨ d.listing.length ≤ limit →
    d.latestWindows limit = .ok (d.listing.take limit)
  stored_listed : ∀ v ∈ d.values.getD [], ∃ e, (v.windowStart, e) ∈ d.listing
  members_listed : ∀ x ∈ d.nodes.getD [], ∃ e, (x.1, e) ∈ d.listing
  /-- A purge returns the number of the windows before its time and drops these, and no others. -/
  purgeBefore : ∀ p, ∃ d', d.purgeBefore p = .ok (d.listing.countP (·.1 < p), d') ∧
    d'.listing = d.listing.filter (p ≤ ·.1) ∧
    (∀ w oc, d'.metricValues w oc = if w < p then .ok [] else d.metricValues w oc) ∧
    ∀ w, d'.clusterNodes w = if w < p then .ok [] else d.clusterNodes w

variable {calls : List SinkCall} {d : Database}

/-! ## Windows -/

theorem wrap_nonneg {limit : Nat} (h : limit < Nat.pow 2 63) : ¬ Signed64.wrap limit < 0 := by
  have : limit < 9223372036854775808 := h
  rw [Signed64.wrap, Int.bmod_def]
  omega

theorem latestWindows_eq {limit : Nat} (hd : d.windows.isSome)
    (h : limit < Nat.pow 2 63 ∨ d.listing.length ≤ limit) :
    d.latestWindows limit = .ok (d.listing.take limit) := by
  obtain ⟨ws, hws⟩ := Option.isSome_iff_exists.1 hd
  have hlisting : d.listing = ws.reverse := by rw [listing, hws]; rfl
  have hresult : d.latestWindows limit =
      .ok (if Signed64.wrap limit < 0 then ws.reverse else ws.reverse.take limit) := by
    rw [latestWindows, hws]
    rfl
  rw [hresult, hlisting]
  rcases h with h | h
  · rw [if_neg (wrap_nonneg h)]
  · rw [List.take_of_length_le (hlisting ▸ h), ite_self]

namespace Mirrors

theorem listing_eq (h : Mirrors calls d) : ∃ ws, d.windows = some ws ∧ d.listing = ws.reverse ∧
    Ascending ws ∧ ∀ w, ws.lookup w = SinkCall.windowAt calls w := by
  obtain ⟨ws, hws, hsorted, hlookup⟩ := h.windows
  exact ⟨ws, hws, by rw [listing, hws]; rfl, hsorted, hlookup⟩

theorem listing_descending (h : Mirrors calls d) : d.listing.Pairwise fun a b => b.1 < a.1 := by
  obtain ⟨ws, -, hlisting, hsorted, -⟩ := h.listing_eq
  rw [hlisting]
  exact List.pairwise_reverse.2 hsorted

theorem mem_listing (h : Mirrors calls d) (w : Int) (e : Option Int) :
    (w, e) ∈ d.listing ↔ SinkCall.windowAt calls w = some e := by
  obtain ⟨ws, -, hlisting, hsorted, hlookup⟩ := h.listing_eq
  rw [hlisting, List.mem_reverse, Keyed.mem_iff_lookup hsorted.nodup_starts, hlookup]

theorem exists_mem_listing (h : Mirrors calls d) {w : Int}
    (hw : (SinkCall.windowAt calls w).isSome) : ∃ e, (w, e) ∈ d.listing := by
  obtain ⟨e, he⟩ := Option.isSome_iff_exists.1 hw
  exact ⟨e, (h.mem_listing w e).2 he⟩

theorem stored_listed (h : Mirrors calls d) {v : StoredValue} (hv : v ∈ d.values.getD []) :
    ∃ e, (v.windowStart, e) ∈ d.listing := by
  obtain ⟨vs, hvs, hfilter⟩ := h.values
  rw [hvs] at hv
  have hat : v ∈ vs.filter (isAt v.windowStart v.category) :=
    List.mem_filter.2 ⟨hv, by simp [isAt]⟩
  rw [hfilter] at hat
  obtain ⟨g, hg, -⟩ := List.mem_map.1 hat
  refine h.exists_mem_listing (SinkCall.listed_of_metrics (c := v.category) ?_)
  rw [SinkCall.aggregatesAt] at hg
  cases ha : SinkCall.latest (SinkCall.metricsAt v.windowStart v.category) calls with
  | none => rw [ha] at hg; cases hg
  | some a => rfl

theorem members_listed (h : Mirrors calls d) {x : Int × List Node} (hx : x ∈ d.nodes.getD []) :
    ∃ e, (x.1, e) ∈ d.listing := by
  obtain ⟨ns, hns, hmembers⟩ := h.nodes
  rw [hns] at hx
  refine h.exists_mem_listing (SinkCall.listed_of_members ?_)
  cases ht : SinkCall.latest (SinkCall.membersAt x.1) calls with
  | some t => rfl
  | none =>
    have habsent : ns.lookup x.1 = none := by rw [hmembers, ht]; rfl
    have hne := List.lookup_eq_none_iff.1 habsent x hx
    simp at hne

/-! ## Members -/

theorem clusterNodes_eq (h : Mirrors calls d) (w : Int) : d.clusterNodes w =
    .ok (((SinkCall.latest (SinkCall.membersAt w) calls).map (keptMembers ·.nodes)).getD []) := by
  obtain ⟨ns, hns, hmembers⟩ := h.nodes
  rw [← hmembers, clusterNodes, hns]
  rfl

theorem clusterNodes_spec (h : Mirrors calls d) (w : Int) :
    ∃ ns, d.clusterNodes w = .ok ns ∧ ns.Pairwise (fun a b => a.id < b.id) ∧
      ∀ n, n ∈ ns ↔ ∃ t, SinkCall.latest (SinkCall.membersAt w) calls = some t ∧
        t.nodes.reverse.find? (·.id == n.id) = some n := by
  refine ⟨_, h.clusterNodes_eq w, ?_⟩
  cases SinkCall.latest (SinkCall.membersAt w) calls with
  | none => exact ⟨.nil, fun n => by simp⟩
  | some t =>
    obtain ⟨hsorted, hmem⟩ := keptMembers_spec t.nodes
    refine ⟨hsorted, fun n => (hmem n).trans ⟨fun hn => ⟨t, rfl, hn⟩, fun ⟨u, hu, hn⟩ => ?_⟩⟩
    cases hu
    exact hn

/-! ## Purging -/

theorem metricValues_purged {d' : Database} {vs : List StoredValue} (p : Int)
    (hvs : d.values = some vs) (hvs' : d'.values = some (vs.filter (p ≤ ·.windowStart)))
    (w : Int) (oc : Option Category) :
    d'.metricValues w oc = if w < p then .ok [] else d.metricValues w oc := by
  rw [metricValues_of_values hvs', metricValues_of_values hvs, List.filter_filter]
  split
  · rename_i hw
    have hnone : (vs.filter fun v => (v.windowStart == w && oc.all (· == v.category)) &&
        decide (p ≤ v.windowStart)) = [] :=
      List.filter_eq_nil_iff.2 fun v _ => by grind
    rw [hnone, List.mergeSort_nil]
    rfl
  · rename_i hw
    have hsame : (vs.filter fun v => (v.windowStart == w && oc.all (· == v.category)) &&
        decide (p ≤ v.windowStart)) =
          vs.filter fun v => v.windowStart == w && oc.all (· == v.category) :=
      List.filter_congr fun v _ => by grind
    rw [hsame]

theorem purgeBefore_spec (h : Mirrors calls d) (p : Int) :
    ∃ d', d.purgeBefore p = .ok (d.listing.countP (·.1 < p), d') ∧
      d'.listing = d.listing.filter (p ≤ ·.1) ∧
      (∀ w oc, d'.metricValues w oc = if w < p then .ok [] else d.metricValues w oc) ∧
      ∀ w, d'.clusterNodes w = if w < p then .ok [] else d.clusterNodes w := by
  obtain ⟨ws, hws, hlisting, -, -⟩ := h.listing_eq
  obtain ⟨vs, hvs, -⟩ := h.values
  obtain ⟨ns, hns, -⟩ := h.nodes
  refine ⟨{ d with
    values := some (vs.filter (p ≤ ·.windowStart))
    nodes := some (ns.filter (p ≤ ·.1))
    windows := some (ws.filter (p ≤ ·.1)) }, ?_, ?_, metricValues_purged p hvs rfl, fun w => ?_⟩
  · rw [Database.purgeBefore, hws, hvs, hns, hlisting, List.countP_reverse]
    rfl
  · rw [hlisting, List.filter_reverse]
    rfl
  · rw [Database.clusterNodes, Database.clusterNodes, hns]
    change Except.ok (((ns.filter (p ≤ ·.1)).lookup w).getD []) =
      if w < p then .ok [] else .ok ((ns.lookup w).getD [])
    rw [Keyed.lookup_filter (fun k => decide (p ≤ k))]
    split <;> grind

end Mirrors

/-! ## All queries -/

theorem readable_of_sound (h : ∀ x ∈ calls, x.Sound) {w : Int} {oc : Option Category}
    {g : GroupValue} (hg : g ∈ SinkCall.readAt calls w oc) : g.value.Readable := by
  obtain ⟨c, -, hg⟩ := List.mem_flatMap.1 hg
  obtain ⟨a, hmem, ha⟩ := SinkCall.exists_of_mem_aggregatesAt hg
  exact (h _ hmem).2 g (ha ▸ hg)

theorem distinct_of_sound {x : SinkCall} (h : x.Sound) : Distinct x := by
  cases x with
  | metrics c start a => exact Aligned.nodup_keys_aggregate h.1
  | members start t => trivial
  | purge before => trivial

/-- **A metrics database is a plain map of the calls made to it.** Whatever the calls, as long as the
metrics of each table are different and no sum or mean is NaN, all succeed, and every query then
returns what the calls say. -/
theorem after_refines (h : ∀ x ∈ calls, x.Sound) :
    ∃ d, after calls = .ok d ∧ Refines calls d := by
  obtain ⟨d, hd⟩ := after_eq_ok fun x hx => distinct_of_sound (h x hx)
  obtain ⟨hmirrors, -⟩ := mirrors_after hd
  obtain ⟨ws, hws, -⟩ := hmirrors.windows
  refine ⟨d, hd, ?_⟩
  exact {
    metricValues := fun w oc => hmirrors.metricValues_ok fun g hg => readable_of_sound h hg
    clusterNodes := hmirrors.clusterNodes_spec
    descending := hmirrors.listing_descending
    listed := hmirrors.mem_listing
    latestWindows := fun limit => latestWindows_eq (Option.isSome_of_eq_some hws)
    stored_listed := fun v hv => hmirrors.stored_listed hv
    members_listed := fun x hx => hmirrors.members_listed hx
    purgeBefore := hmirrors.purgeBefore_spec }

/-- A window written twice and dropped, and one of which the members came before the metrics, one of
them twice. Latest first. -/
def rewrittenWindows : List SinkCall :=
  let cpu : Int → Float → Aligned := fun start x =>
    ⟨.osMetrics, ⟨start, start + 5000⟩, start + 2000, start, some (start + 5000),
      ⟨["ThreadID"], ["CPU_Utilization"], [(["7"], [some x])]⟩⟩
  [.purge 5000, .metrics .osMetrics 5000 (cpu 5000 2.5),
    .members 5000 ⟨some 7000, [⟨"b", "10.0.0.1", "data", false⟩, ⟨"a", "10.0.0.2", "data", true⟩,
      ⟨"b", "10.0.0.3", "data", false⟩]⟩,
    .metrics .osMetrics 0 (cpu 0 1.5), .metrics .osMetrics 0 (cpu 0 0.5)]

theorem after_refines_rewrittenWindows :
    (∀ x ∈ rewrittenWindows, x.Sound) ∧ ∃ d, after rewrittenWindows = .ok d ∧
      (5000, some 10000) ∈ d.listing ∧ (∀ e, (0, e) ∉ d.listing) ∧
      (∃ vs, d.metricValues 5000 none = .ok vs ∧ vs.length = 1) ∧
      (∃ vs, d.metricValues 0 none = .ok vs ∧ vs.length = 0) ∧
      ∃ ns, d.clusterNodes 5000 = .ok ns ∧ ⟨"b", "10.0.0.3", "data", false⟩ ∈ ns ∧
        ⟨"b", "10.0.0.1", "data", false⟩ ∉ ns := by
  have hsound : ∀ x ∈ rewrittenWindows, x.Sound := by
    refine List.forall_mem_cons.2 ⟨trivial, List.forall_mem_cons.2 ⟨⟨by decide, ?_⟩,
      List.forall_mem_cons.2 ⟨trivial, List.forall_mem_cons.2 ⟨⟨by decide, ?_⟩,
        List.forall_mem_singleton.2 ⟨by decide, ?_⟩⟩⟩⟩⟩
    all_goals decide +kernel
  obtain ⟨d, hd, hrefines⟩ := after_refines hsound
  obtain ⟨vs, hvs, hperm⟩ := hrefines.metricValues 5000 none
  obtain ⟨us, hus, hnone⟩ := hrefines.metricValues 0 none
  obtain ⟨ns, hns, -, hmem⟩ := hrefines.clusterNodes 5000
  refine ⟨hsound, d, hd, (hrefines.listed _ _).2 (by decide), fun e he => ?_,
    ⟨vs, hvs, hperm.length_eq.trans (by decide +kernel)⟩,
    ⟨us, hus, hnone.length_eq.trans (by decide +kernel)⟩, ns, hns, ?_, fun h => ?_⟩
  · cases (hrefines.listed _ _).1 he
  · exact (hmem _).2 ⟨_, rfl, by decide⟩
  · obtain ⟨t, ht, hlast⟩ := (hmem _).1 h
    cases ht
    revert hlast
    decide

end Database

end WindowAlign
