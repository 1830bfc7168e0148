import WindowAlign.Proofs.Ingest.Tally
import WindowAlign.Proofs.Keyed
import WindowAlign.Proofs.Store.Effects

/-!
# One pass of the intake

A pass over a bucket opens its window in the series of every category that has a processor, and then
writes into it the rows that the category takes from the events, in their order. The batch size does
not show: rows that are buffered count as written already (`drained`, `settled`), so writing a batch
early changes nothing. A pass fails where the source does and nowhere else (`run_spec`, `run_error`),
whatever processors there are and whatever is in the store. What it leaves is given by the events,
the processors and what was there before (`Passed`).
-/

namespace WindowAlign

namespace Action

variable {σ α β : Type}

theorem bind_of_ok {a : Action σ α} {f : α → Action σ β} {s s' : σ} {x : α}
    (h : a s = .ok x s') : (a >>= f) s = f x s' := by
  simp only [bind, EStateM.bind, h]

theorem bind_of_error {a : Action σ α} {f : α → Action σ β} {s s' : σ} {e : Fault}
    (h : a s = .error e s') : (a >>= f) s = .error e s' := by
  simp only [bind, EStateM.bind, h]

theorem bind_eq_ok {a : Action σ α} {f : α → Action σ β} {s s' : σ} {y : β} :
    (a >>= f) s = .ok y s' ↔ ∃ x s1, a s = .ok x s1 ∧ f x s1 = .ok y s' := by
  cases e : a s with
  | ok x s1 =>
    rw [bind_of_ok e]
    constructor
    · exact fun h => ⟨x, s1, rfl, h⟩
    · rintro ⟨_, _, hx, h⟩
      cases hx
      exact h
  | error g s1 =>
    rw [bind_of_error e]
    constructor
    · intro h; cases h
    · rintro ⟨_, _, hx, -⟩
      cases hx

end Action

namespace Series

/-- The series of a category after a pass over some events. Without a bound on the age there is no
processor of the category. -/
def passed (c : Category) (maxAge? : Option Int) (w : Window) (es : List Event)
    (l : List Snapshot) : List Snapshot :=
  match maxAge? with
  | none => l
  | some maxAge => load c w.start (es.flatMap (·.rowsFor c w)) (opened c maxAge w.start l)

theorem passed_nil_some (c : Category) (maxAge : Int) (w : Window) (l : List Snapshot) :
    passed c (some maxAge) w [] l = opened c maxAge w.start l :=
  load_nil ..

theorem opened_of_present {c : Category} {maxAge w : Int} {l : List Snapshot}
    (h : ∃ n ∈ l, n.windowStart = w) : opened c maxAge w l = l := by
  obtain ⟨n, hn, hw⟩ := h
  cases hat : at? w l with
  | none => exact absurd hw (at?_eq_none.1 hat n hn)
  | some m => rw [opened, hat]

end Series

namespace Intake

/-! ## Buffered rows -/

def pendingOf (c : Category) (ps : List Processor) : List Row :=
  ((ps.find? (·.category = c)).map (·.pending)).getD []

/-- The series of a category with what is buffered for it written. -/
def drained (w : Window) (ps : List Processor) (s : Store) (c : Category) : List Snapshot :=
  Series.load c w.start (pendingOf c ps) (s.snapshots c)

/-- The counters with what is buffered counted as written. -/
def settled (ps : List Processor) (stats : Stats) : Stats :=
  ps.foldl (fun stats p => stats.addWritten p.category p.pending.length) stats

/-- What holds of processors and store between two events of a pass. Of several processors of one
category the first claims all events, so the others buffer nothing. -/
structure Bound (w : Window) (ps : List Processor) (s : Store) : Prop where
  window : ∀ p ∈ ps, p.window = some w
  fits : ∀ p ∈ ps, ∀ row ∈ p.pending, Series.Fits p.category row
  idle : ps.Pairwise fun p q => q.category = p.category → q.pending = []
  keyed : s.Keyed
  present : ∀ p ∈ ps, ∃ n ∈ s.snapshots p.category, n.windowStart = w.start

theorem pendingOf_cons_self (p : Processor) (ps : List Processor) :
    pendingOf p.category (p :: ps) = p.pending := by
  simp [pendingOf]

theorem pendingOf_cons_of_ne {c : Category} {p : Processor} (h : p.category ≠ c)
    (ps : List Processor) : pendingOf c (p :: ps) = pendingOf c ps := by
  simp [pendingOf, h]

theorem pendingOf_insert_self {before : List Processor} {p : Processor}
    (h : ∀ q ∈ before, q.category ≠ p.category) (after : List Processor) :
    pendingOf p.category (before ++ p :: after) = p.pending := by
  induction before with
  | nil => exact pendingOf_cons_self p after
  | cons q before ih =>
    rw [List.cons_append, pendingOf_cons_of_ne (h q List.mem_cons_self)]
    exact ih fun q hq => h q (List.mem_cons_of_mem _ hq)

theorem pendingOf_insert_of_ne {c : Category} {p : Processor} (h : p.category ≠ c)
    (before after : List Processor) :
    pendingOf c (before ++ p :: after) = pendingOf c (before ++ after) := by
  induction before with
  | nil => exact pendingOf_cons_of_ne h after
  | cons q before ih =>
    rw [List.cons_append, List.cons_append]
    by_cases hq : q.category = c
    · subst hq; rw [pendingOf_cons_self, pendingOf_cons_self]
    · rw [pendingOf_cons_of_ne hq, pendingOf_cons_of_ne hq, ih]

theorem pendingOf_eq_nil {c : Category} {ps : List Processor}
    (h : ∀ p ∈ ps, p.category = c → p.pending = []) : pendingOf c ps = [] := by
  induction ps with
  | nil => rfl
  | cons p ps ih =>
    by_cases hp : p.category = c
    · subst hp; rw [pendingOf_cons_self]; exact h p List.mem_cons_self rfl
    · rw [pendingOf_cons_of_ne hp]
      exact ih fun p hp => h p (List.mem_cons_of_mem _ hp)

theorem settled_add (ps : List Processor) (a b : Stats) :
    settled ps (a.add b) = a.add (settled ps b) := by
  unfold settled
  induction ps generalizing b with
  | nil => rfl
  | cons p ps ih => rw [List.foldl_cons, Stats.addWritten_add, ih, List.foldl_cons]

theorem settled_add_right (ps : List Processor) (a b : Stats) :
    settled ps (a.add b) = (settled ps a).add b := by
  rw [Stats.add_comm, settled_add, Stats.add_comm]

theorem settled_addWritten (ps : List Processor) (stats : Stats) (c : Category) (rows : Nat) :
    settled ps (stats.addWritten c rows) = (settled ps stats).addWritten c rows := by
  rw [Stats.addWritten_eq, settled_add_right, ← Stats.addWritten_eq]

theorem settled_of_empty {ps : List Processor} (h : ∀ p ∈ ps, p.pending = []) (stats : Stats) :
    settled ps stats = stats := by
  induction ps with
  | nil => rfl
  | cons p ps ih =>
    rw [settled, List.foldl_cons, h p List.mem_cons_self, List.length_nil, Stats.addWritten_zero]
    exact ih fun q hq => h q (List.mem_cons_of_mem _ hq)

theorem settled_insert (before after : List Processor) (p : Processor) (stats : Stats) :
    settled (before ++ p :: after) stats =
      (settled (before ++ after) stats).addWritten p.category p.pending.length := by
  have happend : ∀ ps qs, settled (ps ++ qs) stats = settled qs (settled ps stats) :=
    fun _ _ => List.foldl_append
  rw [happend, happend]
  exact settled_addWritten after _ p.category p.pending.length

/-! ## Binding -/

def maxAgeOf? (c : Category) (ps : List Processor) : Option Int :=
  (ps.find? (·.category = c)).map (·.maxAge)

theorem maxAgeOf?_cons (c : Category) (p : Processor) (ps : List Processor) :
    maxAgeOf? c (p :: ps) = if p.category = c then some p.maxAge else maxAgeOf? c ps := by
  by_cases h : p.category = c <;> simp [maxAgeOf?, h]

theorem maxAgeOf?_eq_none {c : Category} {ps : List Processor} :
    maxAgeOf? c ps = none ↔ c ∉ ps.map (·.category) := by
  simp [maxAgeOf?]

/-- Binding opens the window in the series of every category that has a processor. -/
theorem bindEach_eq (w : Window) (ps : List Processor) :
    ∀ {s : Store}, s.Keyed →
      (bindEach w ps s).1 = ps.map (fun p => { p with window := some w, pending := [] }) ∧
      (bindEach w ps s).2.interval = s.interval ∧
      ∀ c, (bindEach w ps s).2.snapshots c =
        Series.passed c (maxAgeOf? c ps) w [] (s.snapshots c) := by
  induction ps with
  | nil => intro s _; exact ⟨rfl, rfl, fun c => rfl⟩
  | cons p ps ih =>
    intro s hs
    rw [bindEach, p.bindTo_eq w (hs p.category)]
    generalize hs' : s.setSnapshots p.category
      (Series.opened p.category p.maxAge w.start (s.snapshots p.category)) = s'
    have hself : s'.snapshots p.category =
        Series.opened p.category p.maxAge w.start (s.snapshots p.category) := by
      rw [← hs', Store.snapshots_setSnapshots_self]
    have hother : ∀ c, p.category ≠ c → s'.snapshots c = s.snapshots c := fun c hc => by
      rw [← hs', Store.snapshots_setSnapshots_of_ne s hc]
    obtain ⟨h1, h2, h3⟩ := ih (s := s') (hs' ▸ hs.setSnapshots (hs p.category).opened)
    refine ⟨congrArg (_ :: ·) h1, h2.trans (by rw [← hs']; rfl), fun c => (h3 c).trans ?_⟩
    rw [maxAgeOf?_cons]
    by_cases hc : p.category = c
    · subst hc
      rw [if_pos rfl, hself, Series.passed_nil_some]
      cases maxAgeOf? p.category ps with
      | none => rfl
      | some maxAge =>
        rw [Series.passed_nil_some]
        exact Series.opened_of_present (Series.exists_mem_opened ..)
    · rw [if_neg hc, hother c hc]

/-- What the handovers count when the processors of a list are bound to a window. -/
def handovers (w : Window) : List Processor → Store → List (Category × Carried)
  | [], _ => []
  | p :: ps, s => (p.category, (p.handOver w.start s).1) :: handovers w ps (p.bindTo w s).2

/-- The processor of a category counts what its own series gives, whatever was bound before it. -/
theorem lookup_handovers {c : Category} (hc : c.schema.isStartFinish = true) {w : Window}
    {q : Snapshot} (ps : List Processor) {s : Store} (hs : s.Keyed)
    (hnew : Series.at? w.start (s.snapshots c) = none)
    (hq : Series.before? w.start (s.snapshots c) = some q) :
    (handovers w ps s).lookup c = (maxAgeOf? c ps).map fun maxAge =>
      ⟨(c.schema.carriable (w.start - maxAge) q.records).length,
        (c.schema.abandoned (w.start - maxAge) q.records).length⟩ := by
  induction ps generalizing s with
  | nil => rfl
  | cons p ps ih =>
    rw [handovers, Keyed.lookup_cons, maxAgeOf?_cons]
    by_cases hp : p.category = c
    · subst hp
      rw [if_pos rfl, if_pos rfl, p.counts_handOver (hs p.category) hnew hq hc]
      rfl
    · rw [if_neg hp, if_neg (Ne.symm hp), p.bindTo_eq w (hs p.category)]
      refine ih (hs.setSnapshots (hs p.category).opened) ?_ ?_
      · rwa [Store.snapshots_setSnapshots_of_ne s hp]
      · rwa [Store.snapshots_setSnapshots_of_ne s hp]

/-! ## Events and batches -/

section Bound

variable {w : Window} {ps : List Processor} {s : Store}

theorem forall_mem_replaced {P : Processor → Prop} {before after : List Processor}
    {p p' : Processor} (h : ∀ q ∈ before ++ p :: after, P q) (hp : P p') :
    ∀ q ∈ before ++ p' :: after, P q := by
  intro q hq
  rcases List.mem_append.1 hq with hq | hq
  · exact h q (List.mem_append_left _ hq)
  rcases List.mem_cons.1 hq with rfl | hq
  · exact hp
  · exact h q (List.mem_append_right _ (List.mem_cons_of_mem _ hq))

theorem Bound.put {before after : List Processor} {p p' : Processor}
    (h : Bound w (before ++ p :: after) s) (hc : p'.category = p.category)
    (hw : p'.window = some w) (hf : ∀ row ∈ p'.pending, Series.Fits p'.category row)
    (hb : ∀ q ∈ before, q.category ≠ p.category) : Bound w (before ++ p' :: after) s where
  window := forall_mem_replaced h.window hw
  fits := forall_mem_replaced h.fits hf
  idle := by
    obtain ⟨h1, h2, h3⟩ := List.pairwise_append.1 h.idle
    obtain ⟨h4, h5⟩ := List.pairwise_cons.1 h2
    refine List.pairwise_append.2 ⟨h1, List.pairwise_cons.2 ⟨fun q hq => hc ▸ h4 q hq, h5⟩, ?_⟩
    intro q hq r hr hqr
    rcases List.mem_cons.1 hr with rfl | hr
    · exact absurd (hqr.symm.trans hc) (hb q hq)
    · exact h3 q hq r (List.mem_cons_of_mem _ hr) hqr
  keyed := h.keyed
  present := forall_mem_replaced h.present (hc ▸ h.present p (by simp))

theorem Bound.load (h : Bound w ps s) {c : Category} {rows : List Row}
    (hr : ∀ row ∈ rows, Series.Fits c row) :
    Bound w ps (s.setSnapshots c (Series.load c w.start rows (s.snapshots c))) where
  window := h.window
  fits := h.fits
  idle := h.idle
  keyed := h.keyed.setSnapshots ((h.keyed c).load fun row hrow => (hr row hrow).stored)
  present p hp := by
    obtain ⟨n, hn, hw⟩ := h.present p hp
    by_cases hd : c = p.category
    · subst hd
      rw [Store.snapshots_setSnapshots_self]
      exact ⟨_, Series.mem_load.2 (.inr ⟨n, hn, hw, rfl⟩), hw⟩
    · rw [Store.snapshots_setSnapshots_of_ne s hd]; exact ⟨n, hn, hw⟩

theorem Bound.commit_eq (h : Bound w ps s) {p : Processor} (hp : p ∈ ps) :
    p.commit s = (.ok p.pending.length, { p with pending := [] },
      s.setSnapshots p.category
        (Series.load p.category w.start p.pending (s.snapshots p.category))) := by
  obtain ⟨n, hn, hw⟩ := h.present p hp
  have hwrite := Store.write_eq (h.keyed p.category).ascending hn hw fun row hr =>
    (h.fits p hp row hr).typed
  unfold Processor.commit
  simp only [h.window p hp, hwrite]

theorem claimant?_eq_some {e : Event} {before after : List Processor} {p : Processor}
    (h : claimant? e ps = some (before, p, after)) :
    ps = before ++ p :: after ∧ p.category.claims e.segments = true ∧
      ∀ q ∈ before, q.category ≠ p.category := by
  induction ps generalizing before with
  | nil => cases h
  | cons q ps ih =>
    unfold claimant? at h
    split at h
    · rename_i hq
      cases h
      exact ⟨rfl, hq, fun q hq => by cases hq⟩
    · rename_i hq
      obtain ⟨⟨b, r, a⟩, hrec, heq⟩ := Option.map_eq_some_iff.1 h
      cases heq
      obtain ⟨rfl, hp, hb⟩ := ih hrec
      refine ⟨rfl, hp, fun r hr => ?_⟩
      rcases List.mem_cons.1 hr with rfl | hr
      · intro hc; exact hq (show r.category.claims e.segments = true from hc ▸ hp)
      · exact hb r hr

theorem claimant?_eq_none {e : Event} (h : claimant? e ps = none) :
    ∀ p ∈ ps, p.category.claims e.segments = false := by
  induction ps with
  | nil => intro p hp; cases hp
  | cons q ps ih =>
    unfold claimant? at h
    split at h
    · cases h
    · rename_i hq
      intro p hp
      rcases List.mem_cons.1 hp with rfl | hp
      · exact Bool.eq_false_iff.2 hq
      · exact ih (by simpa using h) p hp

end Bound

/-- Categories and age bounds of the processors, which no pass changes. -/
def roster (i : Intake) : List (Category × Int) :=
  i.processors.map fun p => (p.category, p.maxAge)

def categories (i : Intake) : List Category :=
  i.processors.map (·.category)

/-- The lists of members that a pass over some events offers for publication. -/
def offered (i : Intake) (w : Window) (es : List Event) : List Topology :=
  if .clusterTopology ∈ i.categories then es.filterMap (·.membersFor w) else []

section Roster

variable {i i' : Intake}

theorem categories_eq (h : i'.roster = i.roster) : i'.categories = i.categories := by
  have := congrArg (List.map Prod.fst) h
  simpa [roster, categories, Function.comp_def] using this

theorem maxAgeOf?_congr (h : i'.roster = i.roster) (c : Category) :
    maxAgeOf? c i'.processors = maxAgeOf? c i.processors := by
  have hlookup : ∀ j : Intake,
      maxAgeOf? c j.processors = (j.roster.find? (·.1 = c)).map (·.2) := fun j => by
    rw [roster, List.find?_map, Option.map_map]
    rfl
  rw [hlookup, hlookup, h]

theorem offered_congr (h : i'.roster = i.roster) (w : Window) (es : List Event) :
    i'.offered w es = i.offered w es := by
  rw [offered, offered, categories_eq h]

theorem offered_append (i : Intake) (w : Window) (es rest : List Event) :
    i.offered w (es ++ rest) = i.offered w es ++ i.offered w rest := by
  unfold offered
  split
  · exact List.filterMap_append
  · rfl

end Roster

/-- What the events of a list come to in a pass: their rows are added to the series of each category
that has a processor, every event is counted, and lists of members are published. -/
structure Added (w : Window) (es : List Event) (i i' : Intake) : Prop where
  roster : i'.roster = i.roster
  batch : i'.batch = i.batch
  interval : i'.store.interval = i.store.interval
  bound : Bound w i'.processors i'.store
  drained : ∀ c ∈ i.categories, drained w i'.processors i'.store c =
    Series.load c w.start (es.flatMap (·.rowsFor c w)) (drained w i.processors i.store c)
  others : ∀ c ∉ i.categories, i'.store.snapshots c = i.store.snapshots c
  settled : settled i'.processors i'.stats =
    (settled i.processors i.stats).add (.ofPass i.categories w es)
  topology : i'.topology = (i.offered w es).foldl .publish i.topology

theorem Added.trans {w : Window} {es es' : List Event} {i j k : Intake}
    (h : Added w es i j) (h' : Added w es' j k) : Added w (es ++ es') i k := by
  have hcats := categories_eq h.roster
  refine ⟨h'.roster.trans h.roster, h'.batch.trans h.batch, h'.interval.trans h.interval, h'.bound,
    fun c hc => ?_, fun c hc => ?_, ?_, ?_⟩
  · rw [h'.drained c (hcats ▸ hc), h.drained c hc, List.flatMap_append, Series.load_append]
  · rw [h'.others c (hcats ▸ hc), h.others c hc]
  · rw [h'.settled, h.settled, hcats, Stats.ofPass_append, Stats.add_assoc]
  · rw [h'.topology, h.topology, ← List.foldl_append, offered_congr h.roster, offered_append]

theorem drained_commit {w : Window} {before after : List Processor} {p : Processor} {s : Store}
    (hb : ∀ q ∈ before, q.category ≠ p.category) (c : Category) :
    drained w (before ++ { p with pending := [] } :: after)
        (s.setSnapshots p.category
          (Series.load p.category w.start p.pending (s.snapshots p.category))) c =
      drained w (before ++ p :: after) s c := by
  by_cases hc : p.category = c
  · subst hc
    have h1 : pendingOf p.category (before ++ { p with pending := [] } :: after) = [] :=
      pendingOf_insert_self (p := { p with pending := [] }) hb after
    rw [drained, drained, h1, pendingOf_insert_self hb, Series.load_nil,
      Store.snapshots_setSnapshots_self]
  · rw [drained, drained, pendingOf_insert_of_ne hc,
      pendingOf_insert_of_ne (p := { p with pending := [] }) hc,
      Store.snapshots_setSnapshots_of_ne s hc]

theorem Bound.process {w : Window} {before after : List Processor} {p : Processor} {s : Store}
    (h : Bound w (before ++ p :: after) s) (hb : ∀ q ∈ before, q.category ≠ p.category)
    (e : Event) :
    Bound w (before ++ { p with pending := p.pending ++ e.rowsFor p.category w } :: after) s := by
  have hp : p ∈ before ++ p :: after := by simp
  refine h.put rfl (h.window p hp) (fun row hrow => ?_) hb
  rcases List.mem_append.1 hrow with hrow | hrow
  · exact h.fits p hp row hrow
  · exact (fits_of_mem_rowsFor hrow).1

theorem drained_process {w : Window} {before after : List Processor} {p : Processor} {e : Event}
    (hclaims : p.category.claims e.segments = true)
    (hb : ∀ q ∈ before, q.category ≠ p.category) (s : Store) (c : Category) :
    drained w (before ++ { p with pending := p.pending ++ e.rowsFor p.category w } :: after) s c =
      Series.load c w.start (e.rowsFor c w) (drained w (before ++ p :: after) s c) := by
  by_cases hc : p.category = c
  · subst hc
    rw [drained, drained, ← Series.load_append, pendingOf_insert_self hb]
    congr 1
    exact pendingOf_insert_self
      (p := { p with pending := p.pending ++ e.rowsFor p.category w }) hb after
  · have hnot : c.claims e.segments = false := by
      by_contra hcc
      exact hc (Category.claims_unique hclaims (by simpa using hcc))
    rw [Event.rowsFor_of_not_claims hnot, Series.load_nil, drained, drained,
      pendingOf_insert_of_ne hc,
      pendingOf_insert_of_ne (p := { p with pending := p.pending ++ e.rowsFor p.category w }) hc]

theorem process_spec {w : Window} {p : Processor} (hw : p.window = some w) {e : Event}
    (hclaims : p.category.claims e.segments = true) (t : Topology) :
    p.process t e = (e.verdictFor p.category w,
      { p with pending := p.pending ++ e.rowsFor p.category w },
      ((e.membersFor w).map t.publish).getD t) := by
  have h1 := Event.process_verdict (e := e) hw t
  have h2 := Processor.process_eq hw hclaims t
  have h3 := Processor.process_published hw hclaims t
  exact Prod.ext h1 (Prod.ext h2 h3)

theorem publish_offered {i : Intake} {w : Window} {e : Event} {c : Category}
    (hc : c ∈ i.categories) (hclaims : c.claims e.segments = true) :
    (i.offered w [e]).foldl .publish i.topology =
      ((e.membersFor w).map i.topology.publish).getD i.topology := by
  unfold offered
  cases hm : e.membersFor w with
  | none => simp [hm]
  | some t =>
    have htop : Category.clusterTopology ∈ i.categories := by
      by_cases h : Category.clusterTopology.claims e.segments = true
      · exact Category.claims_unique hclaims h ▸ hc
      · rw [Event.membersFor_of_not_claims (by simpa using h)] at hm
        cases hm
    simp [htop, hm]

theorem added_of_not_claims {w : Window} {i : Intake} (h : Bound w i.processors i.store)
    {e : Event} (hnone : ∀ c ∈ i.categories, c.claims e.segments = false) :
    Added w [e] i { i with stats := i.stats.addUnclaimed } where
  roster := rfl
  batch := rfl
  interval := rfl
  bound := h
  drained c hc := by
    rw [List.flatMap_singleton, Event.rowsFor_of_not_claims (hnone c hc), Series.load_nil]
  others c _ := rfl
  settled := by
    rw [Stats.ofPass_singleton, ← settled_add_right, Stats.add_tally_of_not_claims hnone]
  topology := by
    unfold offered
    split
    · rename_i htop
      simp [Event.membersFor_of_not_claims (hnone _ htop)]
    · rfl

/-- **Handing over an event adds the rows of the event and counts it.** -/
theorem dispatch_ok {w : Window} {i : Intake} (h : Bound w i.processors i.store) (e : Event) :
    ∃ i', dispatch e i = .ok () i' ∧ Added w [e] i i' := by
  unfold dispatch
  cases hcl : claimant? e i.processors with
  | none =>
    refine ⟨_, rfl, added_of_not_claims h fun c hc => ?_⟩
    obtain ⟨p, hp, rfl⟩ := List.mem_map.1 hc
    exact claimant?_eq_none hcl p hp
  | some found =>
    obtain ⟨before, p, after⟩ := found
    obtain ⟨hps, hclaims, hb⟩ := claimant?_eq_some hcl
    have hp : p ∈ i.processors := by rw [hps]; simp
    have hc : p.category ∈ i.categories := List.mem_map.2 ⟨p, hp, rfl⟩
    simp only [process_spec (h.window p hp) hclaims]
    generalize hq : ({ p with pending := p.pending ++ e.rowsFor p.category w } : Processor) = q
    have hqc : q.category = p.category := by rw [← hq]
    have hbound : Bound w (before ++ q :: after) i.store := hq ▸ (hps ▸ h).process hb e
    have hdrained : ∀ c, drained w (before ++ q :: after) i.store c =
        Series.load c w.start ([e].flatMap (·.rowsFor c w)) (drained w i.processors i.store c) :=
      fun c => by rw [List.flatMap_singleton, ← hq, hps]; exact drained_process hclaims hb i.store c
    have hsettled : settled (before ++ q :: after) (i.stats.addVerdict (e.verdictFor p.category w)) =
        (settled i.processors i.stats).add (.ofPass i.categories w [e]) := by
      rw [Stats.ofPass_singleton, ← settled_add_right, Stats.add_tally_of_claims hc hclaims, hps,
        settled_addWritten, settled_insert, settled_insert, Stats.addWritten_addWritten, ← hq,
        List.length_append]
    have hroster : ∀ q' : Processor, q'.category = q.category → q'.maxAge = q.maxAge →
        (before ++ q' :: after).map (fun p => (p.category, p.maxAge)) = i.roster := by
      intro q' h1 h2
      rw [roster, hps, List.map_append, List.map_append, List.map_cons, List.map_cons, h1, h2, ← hq]
    have htopology := (publish_offered (w := w) hc hclaims).symm
    unfold flush
    by_cases hbatch : i.batch ≤ q.pending.length
    · rw [if_pos hbatch, hbound.commit_eq (p := q) (by simp)]
      refine ⟨_, rfl, hroster _ rfl rfl, rfl, rfl, ?_, fun c _ => ?_, fun c hc' => ?_, ?_, htopology⟩
      · exact (hbound.load (hbound.fits q (by simp))).put rfl (hbound.window q (by simp))
          (fun row hr => by cases hr) (hqc ▸ hb)
      · exact (drained_commit (hqc ▸ hb) c).trans (hdrained c)
      · have hne : q.category ≠ c := fun he => hc' (by rw [← he, hqc]; exact hc)
        exact Store.snapshots_setSnapshots_of_ne _ hne _
      · rw [← hsettled, settled_addWritten, settled_insert, settled_insert]
        exact congrArg (Stats.addWritten · _ _) (Stats.addWritten_zero ..)
    · rw [if_neg hbatch]
      exact ⟨_, rfl, hroster _ rfl rfl, rfl, rfl, hbound, fun c _ => hdrained c, fun c _ => rfl,
        hsettled, htopology⟩

theorem dispatchAll_ok {w : Window} (es : List Event) :
    ∀ {i : Intake}, Bound w i.processors i.store →
      ∃ i', dispatchAll es i = .ok () i' ∧ Added w es i i' := by
  induction es with
  | nil =>
    intro i h
    refine ⟨i, rfl, rfl, rfl, rfl, h, fun c _ => (Series.load_nil ..).symm, fun c _ => rfl,
      (Stats.add_zero _).symm, ?_⟩
    simp [offered]
  | cons e es ih =>
    intro i h
    obtain ⟨j, hj, hij⟩ := dispatch_ok h e
    obtain ⟨k, hk, hjk⟩ := ih hij.bound
    exact ⟨k, (Action.bind_of_ok hj).trans hk, hij.trans hjk⟩

/-- **What is left in the buffers is written at the end.** -/
theorem commitEach_eq {w : Window} {ps : List Processor} :
    ∀ {s : Store} (stats : Stats), Bound w ps s → ∃ s',
      commitEach ps s stats = (.ok (), ps.map ({ · with pending := [] }), s', settled ps stats) ∧
      s'.interval = s.interval ∧ ∀ c, s'.snapshots c = drained w ps s c := by
  induction ps with
  | nil =>
    intro s stats _
    exact ⟨s, rfl, rfl, fun c => (Series.load_nil ..).symm⟩
  | cons p ps ih =>
    intro s stats h
    have hload := h.load (h.fits p List.mem_cons_self)
    have htail : Bound w ps (s.setSnapshots p.category
        (Series.load p.category w.start p.pending (s.snapshots p.category))) :=
      { window := fun q hq => hload.window q (List.mem_cons_of_mem _ hq)
        fits := fun q hq => hload.fits q (List.mem_cons_of_mem _ hq)
        idle := (List.pairwise_cons.1 hload.idle).2
        keyed := hload.keyed
        present := fun q hq => hload.present q (List.mem_cons_of_mem _ hq) }
    obtain ⟨s', hrun, hi, hs'⟩ := ih (stats.addWritten p.category p.pending.length) htail
    refine ⟨s', ?_, hi, fun c => (hs' c).trans ?_⟩
    · rw [commitEach, h.commit_eq List.mem_cons_self]
      simp only [hrun, List.map_cons, settled, List.foldl_cons]
    · by_cases hc : p.category = c
      · subst hc
        have hidle : pendingOf p.category ps = [] :=
          pendingOf_eq_nil fun q hq => (List.pairwise_cons.1 h.idle).1 q hq
        rw [drained, drained, hidle, pendingOf_cons_self, Series.load_nil,
          Store.snapshots_setSnapshots_self]
      · rw [drained, drained, pendingOf_cons_of_ne hc, Store.snapshots_setSnapshots_of_ne s hc]

/-! ## Passes -/

theorem bindAll_spec (w : Window) {i : Intake} (h : i.store.Keyed) :
    (i.bindAll w).processors =
        i.processors.map (fun p => { p with window := some w, pending := [] }) ∧
      (i.bindAll w).store.interval = i.store.interval ∧
      (∀ c, (i.bindAll w).store.snapshots c =
        Series.passed c (maxAgeOf? c i.processors) w [] (i.store.snapshots c)) ∧
      Bound w (i.bindAll w).processors (i.bindAll w).store := by
  obtain ⟨hps, hi, hs⟩ := bindEach_eq w i.processors h
  have hempty : ∀ p ∈ (bindEach w i.processors i.store).1, p.window = some w ∧ p.pending = [] := by
    rw [hps]
    intro p hp
    obtain ⟨q, -, rfl⟩ := List.mem_map.1 hp
    exact ⟨rfl, rfl⟩
  unfold bindAll
  refine ⟨hps, hi, hs, fun p hp => (hempty p hp).1, fun p hp row hrow => ?_, ?_, fun c => ?_,
    fun p hp => ?_⟩
  · rw [(hempty p hp).2] at hrow; cases hrow
  · exact List.pairwise_of_forall_mem_list fun p _ q hq _ => (hempty q hq).2
  · rw [hs c]
    cases maxAgeOf? c i.processors with
    | none => exact h c
    | some maxAge => rw [Series.passed_nil_some]; exact (h c).opened
  · rw [hs p.category]
    cases hage : maxAgeOf? p.category i.processors with
    | none =>
      have hmem : p.category ∈ (bindEach w i.processors i.store).1.map (·.category) :=
        List.mem_map.2 ⟨p, hp, rfl⟩
      rw [hps, List.map_map] at hmem
      exact absurd hmem (maxAgeOf?_eq_none.1 hage)
    | some maxAge => rw [Series.passed_nil_some]; exact Series.exists_mem_opened ..

theorem bindAll_roster (w : Window) {i : Intake} (h : i.store.Keyed) :
    (i.bindAll w).roster = i.roster := by
  rw [roster, (bindAll_spec w h).1, List.map_map]
  rfl

/-- What a pass over some events leaves. -/
structure Passed (w : Window) (es : List Event) (i i' : Intake) : Prop where
  processors : i'.processors =
    i.processors.map fun p => { p with window := some w, pending := [] }
  batch : i'.batch = i.batch
  stats : i'.stats = .zero
  interval : i'.store.interval = i.store.interval
  snapshots : ∀ c, i'.store.snapshots c =
    Series.passed c (maxAgeOf? c i.processors) w es (i.store.snapshots c)
  topology : i'.topology = (i.offered w es).foldl .publish i.topology

theorem Passed.roster {w : Window} {es : List Event} {i i' : Intake} (h : Passed w es i i') :
    i'.roster = i.roster := by
  rw [Intake.roster, h.processors, List.map_map]
  rfl

theorem Passed.unique {w : Window} {es : List Event} {i j k : Intake} (h : Passed w es i j)
    (h' : Passed w es i k) : j = k := by
  have hstore : j.store = k.store :=
    Store.ext_snapshots (h.interval.trans h'.interval.symm) fun c => by
      rw [h.snapshots, h'.snapshots]
  obtain ⟨ps, batch, stats, store, topology⟩ := j
  obtain ⟨ps', batch', stats', store', topology'⟩ := k
  simp only [Intake.mk.injEq]
  exact ⟨h.processors.trans h'.processors.symm, h.batch.trans h'.batch.symm,
    h.stats.trans h'.stats.symm, hstore, h.topology.trans h'.topology.symm⟩

theorem Bound.processors_eq {w : Window} {ps : List Processor} {s : Store} (h : Bound w ps s) :
    ps.map ({ · with pending := [] }) =
      (ps.map fun p => (p.category, p.maxAge)).map fun x => ⟨x.1, x.2, some w, []⟩ := by
  rw [List.map_map]
  refine List.map_congr_left fun p hp => ?_
  rw [Function.comp_apply, ← h.window p hp]

theorem finish_ok {w : Window} {i : Intake} (h : Bound w i.processors i.store) :
    ∃ s', s'.interval = i.store.interval ∧
      (∀ c, s'.snapshots c = drained w i.processors i.store c) ∧
      finish i = .ok (settled i.processors i.stats)
        { i with processors := i.roster.map fun x => ⟨x.1, x.2, some w, []⟩, store := s',
                 stats := .zero } := by
  obtain ⟨s', hcommit, hi, hs'⟩ := commitEach_eq i.stats h
  refine ⟨s', hi, hs', ?_⟩
  unfold finish roster
  rw [hcommit, h.processors_eq]

/-- **A pass succeeds where the source does.** It opens the window in the series of every category that
has a processor and writes into it the rows of the events, in their order; it counts every event. -/
theorem run_spec {w : Window} {i : Intake} (h : i.store.Keyed) {source : Source} {es : List Event}
    (hs : source w.start = .ok es) :
    ∃ i', Intake.run source w i = .ok (.ofPass i.categories w es) i' ∧ Passed w es i i' := by
  obtain ⟨hps, hi, hopen, hbound⟩ := bindAll_spec w h
  have hempty : ∀ p ∈ (i.bindAll w).processors, p.pending = [] := by
    rw [hps]
    intro p hp
    obtain ⟨q, -, rfl⟩ := List.mem_map.1 hp
    rfl
  have hroster := bindAll_roster w h
  have hcats := categories_eq hroster
  obtain ⟨j, hj, hadded⟩ := dispatchAll_ok es hbound
  obtain ⟨s', hi', hs', hfinish⟩ := finish_ok hadded.bound
  have hanswer : Action.answer (source w.start) (i.bindAll w) = .ok es (i.bindAll w) := by
    rw [hs]; rfl
  have hstats : settled j.processors j.stats = .ofPass i.categories w es := by
    rw [hadded.settled, settled_of_empty hempty, hcats]
    exact Stats.zero_add _
  rw [hstats, hadded.roster, hroster] at hfinish
  refine ⟨_, (Action.bind_of_ok hanswer).trans ((Action.bind_of_ok hj).trans hfinish), ?_,
    hadded.batch, rfl, hi'.trans (hadded.interval.trans hi), fun c => (hs' c).trans ?_, ?_⟩
  · rw [roster, List.map_map]
    rfl
  · by_cases hc : c ∈ i.categories
    · obtain ⟨maxAge, hage⟩ : ∃ maxAge, maxAgeOf? c i.processors = some maxAge :=
        Option.ne_none_iff_exists'.1 fun hage => maxAgeOf?_eq_none.1 hage hc
      have hnone : pendingOf c (i.bindAll w).processors = [] :=
        pendingOf_eq_nil fun p hp _ => hempty p hp
      rw [hadded.drained c (hcats ▸ hc), drained, hnone, Series.load_nil, hopen c, hage,
        Series.passed_nil_some]
      rfl
    · have hcj : c ∉ j.categories := by rw [categories_eq hadded.roster, hcats]; exact hc
      have hnone : pendingOf c j.processors = [] :=
        pendingOf_eq_nil fun p hp he => absurd (List.mem_map.2 ⟨p, hp, he⟩) hcj
      rw [drained, hnone, Series.load_nil, hadded.others c (hcats ▸ hc), hopen c,
        maxAgeOf?_eq_none.2 hc]
      rfl
  · show j.topology = _
    rw [hadded.topology, offered_congr hroster]
    rfl

theorem run_events (w : Window) {i : Intake} (h : i.store.Keyed) (es : List Event) :
    ∃ i', Intake.run (fun _ => .ok es) w i = .ok (.ofPass i.categories w es) i' ∧
      Passed w es i i' :=
  run_spec h rfl

/-- **A pass fails with its source.** All that it has done then is to open the window. -/
theorem run_error {w : Window} {i : Intake} {source : Source} {f : Fault}
    (hs : source w.start = .error f) : Intake.run source w i = .error f (i.bindAll w) := by
  have hanswer : Action.answer (source w.start) (i.bindAll w) = .error f (i.bindAll w) := by
    rw [hs]; rfl
  exact Action.bind_of_error (f := fun es => do dispatchAll es; finish) hanswer

/-- **Binding twice is binding once.** -/
theorem bindAll_bindAll (w : Window) {i : Intake} (h : i.store.Keyed) :
    (i.bindAll w).bindAll w = i.bindAll w := by
  obtain ⟨hps, hi, hopen, hbound⟩ := bindAll_spec w h
  obtain ⟨hps', hi', hopen', -⟩ := bindAll_spec w hbound.keyed
  have hages := maxAgeOf?_congr (bindAll_roster w h)
  have hprocessors : ((i.bindAll w).bindAll w).processors = (i.bindAll w).processors := by
    rw [hps', hps, List.map_map]
    rfl
  have hstore : ((i.bindAll w).bindAll w).store = (i.bindAll w).store :=
    Store.ext_snapshots hi' fun c => by
      rw [hopen' c, hages, hopen c]
      cases maxAgeOf? c i.processors with
      | none => rfl
      | some maxAge =>
        rw [Series.passed_nil_some, Series.passed_nil_some]
        exact Series.opened_of_present (Series.exists_mem_opened ..)
  exact congrArg₂ (fun ps s => { i.bindAll w with processors := ps, store := s }) hprocessors hstore

/-! ## Passes of all processors -/

section All

variable {w : Window} {i : Intake} {maxAge : Int}

theorem mem_categories (hr : i.roster = Category.all.map (·, maxAge)) (c : Category) :
    c ∈ i.categories := by
  have hcats := congrArg (List.map Prod.fst) hr
  have : i.categories = Category.all := by
    simpa [roster, categories, Function.comp_def] using hcats
  rw [this]
  exact Category.mem_all c

theorem maxAgeOf?_eq (hr : i.roster = Category.all.map (·, maxAge)) (c : Category) :
    maxAgeOf? c i.processors = some maxAge := by
  cases hfind : i.processors.find? (·.category = c) with
  | none =>
    have hnone : maxAgeOf? c i.processors = none := by rw [maxAgeOf?, hfind]; rfl
    exact absurd (mem_categories hr c) (maxAgeOf?_eq_none.1 hnone)
  | some p =>
    have hmem : (p.category, p.maxAge) ∈ i.roster :=
      List.mem_map.2 ⟨p, List.mem_of_find?_eq_some hfind, rfl⟩
    rw [hr] at hmem
    obtain ⟨d, -, hd⟩ := List.mem_map.1 hmem
    rw [maxAgeOf?, hfind, Option.map_some, (Prod.mk.inj hd).2]

theorem bindAll_bound (w : Window) (hr : i.roster = Category.all.map (·, maxAge))
    (h : ∀ c, Series.Sound c (i.store.snapshots c)) :
    (i.bindAll w).roster = i.roster ∧ (i.bindAll w).store.interval = i.store.interval ∧
      (∀ c, Series.Sound c ((i.bindAll w).store.snapshots c)) ∧
      ∀ c, (i.bindAll w).store.snapshots c =
        Series.opened c maxAge w.start (i.store.snapshots c) := by
  have hkeyed : i.store.Keyed := fun c => (h c).toKeyed
  obtain ⟨-, hi, hs, -⟩ := bindAll_spec w hkeyed
  have hopen : ∀ c, (i.bindAll w).store.snapshots c =
      Series.opened c maxAge w.start (i.store.snapshots c) := fun c => by
    rw [hs c, maxAgeOf?_eq hr, Series.passed_nil_some]
  exact ⟨bindAll_roster w hkeyed, hi, fun c => hopen c ▸ (h c).opened, hopen⟩

/-- **A pass of all processors** opens the window in every series and writes into it the rows of the
events, in their order, and every event is counted. -/
theorem run_ok (hr : i.roster = Category.all.map (·, maxAge))
    (h : ∀ c, Series.Sound c (i.store.snapshots c)) {source : Source} {es : List Event}
    (hs : source w.start = .ok es) :
    ∃ stats i', Intake.run source w i = .ok stats i' ∧ i'.roster = i.roster ∧
      i'.store.interval = i.store.interval ∧ Stats.Counted w es .zero stats ∧
      ∀ c, i'.store.snapshots c = Series.load c w.start (es.flatMap (·.rowsFor c w))
        (Series.opened c maxAge w.start (i.store.snapshots c)) := by
  obtain ⟨i', hrun, hpassed⟩ := run_spec (w := w) (fun c => (h c).toKeyed) hs
  refine ⟨_, i', hrun, hpassed.roster, hpassed.interval,
    Stats.counted_ofPass (mem_categories hr) w es, fun c => ?_⟩
  rw [hpassed.snapshots c, maxAgeOf?_eq hr]
  rfl

end All

end Intake

end WindowAlign
