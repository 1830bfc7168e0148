import Mathlib.Data.List.Find
import WindowAlign.Proofs.Ingest.Stages
import WindowAlign.Proofs.Ingest.Pass
import WindowAlign.Proofs.Store.Calls

/-!
# Routing

A key path belongs to one category at most, and reading it loses nothing: `Category.stem` writes the
segments that the values of the path fields come from, and with the phase behind it, if there is one,
that is the whole path (`segments_of_match?`). So what is read off two paths of a category is the same
for the same path only, and the values alone tell them apart up to the phase (`values_eq_iff`).

Since no two processors of distinct categories claim the same event, and each writes into the series
of its own category, it does not matter in which order they stand: a pass looks for the claimant of an
event and for the processor of a category, and finds the same in every order
(`Intake.run_registered`).
-/

namespace WindowAlign

/-! ## What a key path says -/

namespace Category

/-- The segments of a key path that the values of the path fields give, without a phase. -/
def stem : Category → List String → List String
  | osMetrics, [thread] => ["threads", thread, "os_metrics"]
  | shardOperations, [thread, kind, id] => ["threads", thread, kind, id]
  | httpRequests, [thread, operation, id] => ["threads", thread, "http", operation, id]
  | clusterManagerTasks, [thread, order] => ["threads", thread, "cluster_manager_task", order]
  | nodeMetrics, [index, shard] => ["indices", index, shard]
  | clusterTopology, [] => ["cluster_topology"]
  | _, _ => []

/-- What a key path is about: all of it but the start or finish at its end, where the category has
them. -/
def subject (c : Category) (segments : List String) : List String :=
  if c.schema.isStartFinish then segments.dropLast else segments

variable {c : Category} {segments other : List String} {m m' : PathMatch}

/-- **A key path is its stem and, in start/finish categories, the phase.** -/
theorem segments_of_match? (h : c.match? segments = some m) :
    segments = c.stem m.values ++ (m.phase.map Phase.name).toList := by
  unfold match? at h
  split at h
  case h_1 | h_5 | h_6 =>
    cases h
    rfl
  case h_2 | h_3 | h_4 =>
    obtain ⟨phase, hphase, rfl⟩ := Option.map_eq_some_iff.1 h
    rw [← Phase.name_of_ofSegment? hphase]
    rfl
  case h_7 => cases h

theorem stem_injective {values values' : List String}
    (hv : values.length = c.schema.pathFields.length)
    (hv' : values'.length = c.schema.pathFields.length) (h : c.stem values = c.stem values') :
    values = values' := by
  cases c
  case osMetrics =>
    obtain ⟨a, rfl⟩ := List.length_eq_one_iff.1 hv
    obtain ⟨b, rfl⟩ := List.length_eq_one_iff.1 hv'
    simpa [stem] using h
  case shardOperations | httpRequests =>
    obtain ⟨a, b, d, rfl⟩ := List.length_eq_three.1 hv
    obtain ⟨a', b', d', rfl⟩ := List.length_eq_three.1 hv'
    simpa [stem] using h
  case clusterManagerTasks | nodeMetrics =>
    obtain ⟨a, b, rfl⟩ := List.length_eq_two.1 hv
    obtain ⟨a', b', rfl⟩ := List.length_eq_two.1 hv'
    simpa [stem] using h
  case clusterTopology =>
    rw [List.length_eq_zero_iff.1 hv, List.length_eq_zero_iff.1 hv']

theorem subject_of_match? (h : c.match? segments = some m) : c.subject segments = c.stem m.values := by
  have hphase := (match?_spec h).2
  rw [subject, segments_of_match? h]
  cases hp : m.phase with
  | none =>
    rw [hp] at hphase
    rw [← hphase]
    simp
  | some phase =>
    rw [hp] at hphase
    rw [← hphase]
    simp

/-- **The values of the path fields tell what a key path is about.** -/
theorem values_eq_iff (h : c.match? segments = some m) (h' : c.match? other = some m') :
    m.values = m'.values ↔ c.subject segments = c.subject other := by
  rw [subject_of_match? h, subject_of_match? h']
  exact ⟨congrArg c.stem, stem_injective (match?_spec h).1 (match?_spec h').1⟩

/-- **A claimed path is read exactly when it has the shape of its category.** -/
theorem extract_isOk_iff (hc : c.claims segments = true) :
    (∃ m, c.extract segments = .ok m) ↔ c.HasShape segments :=
  ⟨fun ⟨_, hm⟩ => hasShape_of_match? hc (extract_spec hm), fun h => h.extract⟩

theorem extract_injective (h : c.extract segments = .ok m) (h' : c.extract other = .ok m) :
    segments = other := by
  rw [segments_of_match? (extract_spec h), segments_of_match? (extract_spec h')]

end Category

/-! ## Processors in another order -/

section Order

variable {ps qs : List Processor}

theorem Intake.maxAgeOf?_perm (hperm : ps.Perm qs) (hd : (ps.map (·.category)).Nodup)
    (c : Category) : maxAgeOf? c ps = maxAgeOf? c qs := by
  unfold maxAgeOf?
  refine congrArg (Option.map _) (List.find?_eq_find?_of_perm hperm fun p hp q hq => ?_)
  obtain ⟨hp, hpc⟩ := hp
  obtain ⟨hq, hqc⟩ := hq
  exact List.inj_on_of_nodup_map hd hp hq
    ((of_decide_eq_true hpc).trans (of_decide_eq_true hqc).symm)

/-- An event counts the same in every order of the categories: one of them at most claims it. -/
theorem Event.tally_perm {cs ds : List Category} (hperm : cs.Perm ds) (w : Window) (e : Event) :
    e.tally cs w = e.tally ds w := by
  unfold tally
  rw [List.find?_eq_find?_of_perm hperm fun c hc d hd => Category.claims_unique hc.2 hd.2]

theorem Stats.ofPass_perm {cs ds : List Category} (hperm : cs.Perm ds) (w : Window)
    (es : List Event) : ofPass cs w es = ofPass ds w es := by
  unfold ofPass
  simp only [Event.tally_perm hperm]

end Order

namespace Intake

theorem Passed.perm {w : Window} {es : List Event} {i j i' j' : Intake} (h : Passed w es i i')
    (h' : Passed w es j j') (hperm : i.processors.Perm j.processors) (hd : i.categories.Nodup)
    (hstore : i.store = j.store) (htopology : i.topology = j.topology) :
    i'.store = j'.store ∧ i'.topology = j'.topology := by
  constructor
  · refine Store.ext_snapshots (h.interval.trans (hstore ▸ h'.interval.symm)) fun c => ?_
    rw [h.snapshots, h'.snapshots, maxAgeOf?_perm hperm hd, hstore]
  · have hcats : i.categories.Perm j.categories := hperm.map _
    have hoffered : i.offered w es = j.offered w es := by
      unfold offered
      simp only [hcats.mem_iff]
    rw [h.topology, h'.topology, hoffered, htopology]

theorem nodup_categories {maxAge : Int} {ps : List Processor} (h : ps.Perm (allProcessors maxAge)) :
    (ps.map (·.category)).Nodup := by
  refine (h.map _).nodup_iff.2 ?_
  rw [allProcessors, List.map_map]
  exact (by decide : Category.all.Nodup)

/-- **Routing is unambiguous, and the order of registration does not matter.** Every key path belongs
to one category at most; that category reads it exactly when it has the category's shape, and reads no
other path like it. Therefore a pass by the processors of all categories, whatever the calls that made
the store and whatever batch size, counters and published list there are, counts the same, and leaves
the same store and the same published list, in whatever order they are registered. -/
theorem run_registered (i : Intake) (interval : Int) (calls : List Store.Call) (w : Window)
    (es : List Event) {maxAge : Int} {ps qs : List Processor} (hps : ps.Perm (allProcessors maxAge))
    (hqs : qs.Perm (allProcessors maxAge)) :
    (∀ segments, (∀ c d : Category, c.claims segments = true → d.claims segments = true → c = d) ∧
      ∀ c : Category, c.claims segments = true →
        ((∃ m, c.extract segments = .ok m) ↔ c.HasShape segments) ∧
        ∀ m other, c.extract segments = .ok m → c.extract other = .ok m → segments = other) ∧
    ∃ stats a b,
      Intake.run (fun _ => .ok es) w
        { i with processors := ps, store := .after interval calls } = .ok stats a ∧
      Intake.run (fun _ => .ok es) w
        { i with processors := qs, store := .after interval calls } = .ok stats b ∧
      a.store = b.store ∧ a.topology = b.topology := by
  refine ⟨fun segments => ⟨fun c d => Category.claims_unique, fun c hc =>
    ⟨Category.extract_isOk_iff hc, fun m other => Category.extract_injective⟩⟩, ?_⟩
  have hkeyed := Store.keyed_after interval calls
  have hperm : ps.Perm qs := hps.trans hqs.symm
  obtain ⟨a, ha, hpassed⟩ := run_events w
    (i := { i with processors := ps, store := .after interval calls }) hkeyed es
  obtain ⟨b, hb, hpassed'⟩ := run_events w
    (i := { i with processors := qs, store := .after interval calls }) hkeyed es
  have hstats := Stats.ofPass_perm (hperm.map (·.category)) w es
  exact ⟨_, a, b, ha, hstats ▸ hb, hpassed.perm hpassed' hperm (nodup_categories hps) rfl rfl⟩

/-- Four events that different processors claim, one of them by a path of the wrong shape. -/
def scatteredBucket : List Event :=
  [⟨"threads/7/shardbulk/12/start", "\x7b\"current_time\":1000\x7d\n"⟩,
    ⟨"threads//7/os_metrics", "\x7b\"current_time\":2000\x7d\nCPU_Utilization:10\n"⟩,
    ⟨"cluster_topology", "\x7b\"current_time\":3000\x7d\n[\"n1\",\"h1\"]\n"⟩,
    ⟨"threads/7/http/search", "\x7b\"current_time\":4000\x7d\n"⟩]

/-- They come to the same where the processors are registered the other way round. -/
theorem run_registered_reversed :
    (allProcessors 15000).reverse.Perm (allProcessors 15000) ∧
      ∃ stats a b,
        Intake.run (fun _ => .ok scatteredBucket) ⟨0, 5000⟩
          { fresh [] 500 5000 with
            processors := allProcessors 15000, store := .after 5000 [] } = .ok stats a ∧
        Intake.run (fun _ => .ok scatteredBucket) ⟨0, 5000⟩
          { fresh [] 500 5000 with
            processors := (allProcessors 15000).reverse, store := .after 5000 [] } = .ok stats b ∧
        a.store = b.store ∧ a.topology = b.topology :=
  have hreversed : (allProcessors 15000).reverse.Perm (allProcessors 15000) := List.reverse_perm _
  ⟨hreversed, (run_registered (fresh [] 500 5000) 5000 [] ⟨0, 5000⟩ scatteredBucket (.refl _)
    hreversed).2⟩

end Intake

end WindowAlign
