import WindowAlign.Proofs.Store.Coalescing

/-!
# Rollovers of a snapshot

A rollover adds to a snapshot the records of another that can be carried and whose identities are not
there yet (`Schema.joining`), and counts those that are too old (`Schema.abandoned`); no other snapshot
changes, and the same rollover once more adds nothing (`Store.RolledOver`). `Store.rollAlong` rolls a
snapshot along a chain of windows that hold nothing yet. Carrying to a later cutoff forgets the earlier
one (`Schema.carriable_carriable`), and what the two cutoffs leave behind is what the later one does
(`Schema.abandoned_append_perm`), so that by induction on the chain every snapshot holds what its own
cutoff lets through and every record is counted once, where it is left behind (`Store.RolledAlong`).
-/

namespace WindowAlign

namespace Schema

variable {s : Schema} {c d : Int} {r : Record} {l : List Record}

theorem startedSince_of_le (h : c ≤ d) (hr : s.startedSince d r = true) :
    s.startedSince c r = true :=
  Cell.le_trans (b := .int d) (decide_eq_true h) hr

/-- **Carrying to a later cutoff forgets the earlier one.** -/
theorem carriable_carriable (h : c ≤ d) (l : List Record) :
    s.carriable d (s.carriable c l) = s.carriable d l := by
  unfold carriable
  simp only [List.filter_filter]
  refine List.filter_congr fun r _ => ?_
  cases hd : s.startedSince d r with
  | false => simp
  | true => cases ho : s.isOpen r <;> simp [startedSince_of_le h hd]

/-- **What is left behind at two cutoffs is what is left behind at the later one.** -/
theorem abandoned_append_perm (h : c ≤ d) (l : List Record) :
    (s.abandoned c l ++ s.abandoned d (s.carriable c l)).Perm (s.abandoned d l) := by
  have hfirst : s.abandoned c l =
      (s.abandoned d l).filter fun r => !s.startedSince c r := by
    unfold abandoned
    simp only [List.filter_filter]
    refine List.filter_congr fun r _ => ?_
    cases hd : s.startedSince d r with
    | false => simp
    | true => simp [startedSince_of_le h hd]
  have hsecond : s.abandoned d (s.carriable c l) = (s.abandoned d l).filter (s.startedSince c) := by
    unfold abandoned carriable
    simp only [List.filter_filter]
    refine List.filter_congr fun r _ => ?_
    cases s.isOpen r <;> cases s.startedSince c r <;> cases s.startedSince d r <;> rfl
  rw [hfirst, hsecond]
  exact List.perm_append_comm.trans (List.filter_append_perm _ _)

theorem joining_again (c : Int) (source target : List Record) :
    s.joining c source (target ++ s.joining c source target) = [] := by
  refine List.filter_eq_nil_iff.2 fun r hr => ?_
  rw [Bool.not_eq_true, Option.isNone_eq_false_iff, Option.isSome_iff_ne_none]
  intro hnone
  have habsent := recordOf?_eq_none.1 hnone
  refine habsent r (List.mem_append_right _ (List.mem_filter.2 ⟨hr, ?_⟩)) rfl
  rw [Option.isNone_iff_eq_none, recordOf?_eq_none]
  exact fun a ha => habsent a (List.mem_append_left _ ha)

end Schema

namespace Store

/-! ## One rollover -/

/-- What a rollover from the snapshot `p` into the snapshot `n` leaves and reports. -/
structure RolledOver (s : Store) (c : Category) (p n : Snapshot) (maxAge : Int) (report : Carried)
    (s' : Store) : Prop where
  /-- What was there stays, and after it come the open records of the other snapshot that started at the
  cutoff or later and whose identities were not there. -/
  current : s'.snapshot? c n.windowStart = some { n with
    records := n.records ++ c.schema.joining (n.windowStart - maxAge) p.records n.records }
  /-- The snapshot that is rolled over stays as it is, -/
  previous : s'.snapshot? c p.windowStart = some p
  /-- and so do all others. -/
  others : ∀ d v, ¬(c = d ∧ n.windowStart = v) → s'.snapshot? d v = s.snapshot? d v
  carried : report.carried =
    (c.schema.joining (n.windowStart - maxAge) p.records n.records).length
  /-- Counted are the open records that started before the cutoff. -/
  abandoned : report.abandoned = (c.schema.abandoned (n.windowStart - maxAge) p.records).length

variable {s : Store} {c : Category} {previous current p n : Snapshot}

/-- The same rollover once more finds every identity in its place. -/
theorem RolledOver.again {maxAge : Int} {report : Carried} {s' : Store}
    (h : s.RolledOver c p n maxAge report s') (hs' : s'.Keyed) (hc : c.schema.isStartFinish = true)
    (hp : p.windowStart = previous.windowStart) (hn : n.windowStart = current.windowStart) :
    s'.rollover c previous current maxAge = (⟨0, report.abandoned⟩, s') := by
  have hcurrent := h.current
  have hprevious := h.previous
  rw [hn] at hcurrent
  rw [hp] at hprevious
  have hu := (hs' c).unique p (List.mem_of_find?_eq_some hprevious)
  have hsame := fun m hm =>
    Series.eq_of_windowStart (hs' c).ascending (m := m) hm (List.mem_of_find?_eq_some hcurrent)
  rw [rollover_kept hc hu hprevious hcurrent, Schema.joining_again, List.append_nil,
    Series.replaceSnapshot_eq_self hsame, setSnapshots_self, h.abandoned, hn]
  rfl

def namedTask (name : String) (start finish : Cell) (updated : Int) : Row where
  cells := [.text "7", .text name, .null, .null, .null, .int updated, start, finish]
  observedAt := updated

/-- A window of tasks: three have not ended, one has, and of one only the end is known. -/
def tasks : List Row :=
  [namedTask "a" (.int 5000) .null 15100, namedTask "b" (.int 4999) .null 15200,
    namedTask "c" (.int 15300) (.int 15400) 15400, namedTask "d" .null (.int 15500) 15500,
    namedTask "e" (.int 15600) .null 15600]

/-- The window of the tasks, a later one in which one of them has ended, and one without any. -/
def taskWindows : Store :=
  after 5000 [.openWindow .clusterManagerTasks 30000,
    .write .clusterManagerTasks 20000 [namedTask "e" (.int 15600) (.int 20400) 20400],
    .write .clusterManagerTasks 15000 tasks]

/-- The records that stay behind from each window of a chain to the next. -/
def leftBehind (s : Store) (c : Category) (maxAge : Int) : List Int → List (List Record)
  | v :: w :: chain =>
    c.schema.abandoned (w - maxAge) (s.records c v) :: s.leftBehind c maxAge (w :: chain)
  | _ => []

/-- What rolling the snapshot `p` along a chain of windows leaves and reports. -/
structure RolledAlong (s : Store) (c : Category) (p : Snapshot) (maxAge : Int) (chain : List Int)
    (reports : List Carried) (s' : Store) : Prop where
  /-- A snapshot of the chain holds the open records of the first one that started at its own cutoff or
  later, as they were. -/
  kept : ∀ w ∈ chain, s'.snapshot? c w = some { (s.snapshot? c w).getD (.fresh w) with
    records := c.schema.carriable (w - maxAge) p.records }
  /-- No other snapshot changes. -/
  others : ∀ d v, ¬(c = d ∧ v ∈ chain) → s'.snapshot? d v = s.snapshot? d v
  /-- A rollover counts the records that it leaves behind, and they stay where they are. -/
  counted : reports.map (·.abandoned) =
    (s'.leftBehind c maxAge (p.windowStart :: chain)).map (·.length)
  /-- What the rollovers up to a window leave behind is, each once, what started before its cutoff. -/
  once : ∀ k w, chain[k]? = some w →
    ((s'.leftBehind c maxAge (p.windowStart :: chain)).take (k + 1)).flatten.Perm
      (c.schema.abandoned (w - maxAge) p.records)

/-- One link of a chain: the window `w` is opened, and its snapshot takes over from `p` what its cutoff
lets through. -/
structure Linked (s : Store) (c : Category) (p : Snapshot) (maxAge w : Int) (report : Carried)
    (s₁ : Store) : Prop where
  current : s₁.snapshot? c w = some { (s.snapshot? c w).getD (.fresh w) with
    records := c.schema.carriable (w - maxAge) p.records }
  others : ∀ d v, ¬(c = d ∧ w = v) → s₁.snapshot? d v = s.snapshot? d v
  abandoned : report.abandoned = (c.schema.abandoned (w - maxAge) p.records).length

/-- A chain with one more link in front: what the later cutoffs let through of what the first one does
is what they let through. -/
theorem Linked.cons {s₁ s' : Store} {w maxAge : Int} {chain : List Int} {report : Carried}
    {reports : List Carried} (hlink : s.Linked c p maxAge w report s₁)
    (hsome : s₁.snapshot? c w = some n) (hp : s.snapshot? c p.windowStart = some p)
    (hasc : (p.windowStart :: w :: chain).Pairwise (· < ·))
    (h : s₁.RolledAlong c n maxAge chain reports s') :
    s.RolledAlong c p maxAge (w :: chain) (report :: reports) s' := by
  obtain ⟨hfirst, hchain⟩ := List.pairwise_cons.1 hasc
  obtain ⟨hnext, -⟩ := List.pairwise_cons.1 hchain
  have hn : n.records = c.schema.carriable (w - maxAge) p.records := by
    rw [Option.some.inj (hsome.symm.trans hlink.current)]
  have hnw : n.windowStart = w := Series.windowStart_of_at? hsome
  have hcutoff : ∀ v ∈ chain, w - maxAge ≤ v - maxAge := fun v hv => by
    have := hnext v hv
    omega
  have hothers : ∀ d v, ¬(c = d ∧ v ∈ w :: chain) → s'.snapshot? d v = s.snapshot? d v := by
    intro d v hv
    rw [h.others d v fun e => hv ⟨e.1, List.mem_cons_of_mem w e.2⟩]
    exact hlink.others d v fun e => hv ⟨e.1, e.2 ▸ List.mem_cons_self⟩
  have hleft : s'.leftBehind c maxAge (p.windowStart :: w :: chain) =
      c.schema.abandoned (w - maxAge) p.records :: s'.leftBehind c maxAge (n.windowStart :: chain) := by
    have hrecords : s'.records c p.windowStart = p.records := by
      rw [records, hothers c p.windowStart fun e => Int.lt_irrefl _ (hfirst _ e.2), hp]
      rfl
    rw [leftBehind, hrecords, hnw]
  refine ⟨fun v hv => ?_, hothers, ?_, fun k v hv => ?_⟩
  · rcases List.mem_cons.1 hv with rfl | hv
    · rw [h.others c v fun e => Int.lt_irrefl _ (hnext _ e.2), hlink.current]
    · have hne : ¬(c = c ∧ w = v) := fun e => Int.lt_irrefl _ (e.2 ▸ hnext v hv)
      rw [h.kept v hv, hlink.others c v hne, hn, Schema.carriable_carriable (hcutoff v hv)]
  · rw [List.map_cons, hlink.abandoned, h.counted, hleft, List.map_cons]
  · rw [hleft, List.take_succ_cons, List.flatten_cons]
    cases k with
    | zero =>
      obtain rfl : w = v := Option.some.inj hv
      rw [List.take_zero, List.flatten_nil, List.append_nil]
    | succ k =>
      rw [List.getElem?_cons_succ] at hv
      have hperm := h.once k v hv
      rw [hn] at hperm
      exact (hperm.append_left _).trans
        (Schema.abandoned_append_perm (hcutoff v (List.mem_of_getElem? hv)) _)

/-- The counts up to a window add up to what started before its cutoff. -/
theorem RolledAlong.total {s' : Store} {maxAge w : Int} {chain : List Int} {reports : List Carried}
    (h : s.RolledAlong c p maxAge chain reports s') {k : Nat} (hw : chain[k]? = some w) :
    ((reports.take (k + 1)).map (·.abandoned)).foldl (· + ·) 0 =
      (c.schema.abandoned (w - maxAge) p.records).length := by
  rw [← List.sum_eq_foldl, List.map_take, h.counted, ← List.map_take, ← List.length_flatten]
  exact (h.once k w hw).length_eq

/-- Where no open record is young enough, nothing is left to carry and all has been left behind. -/
theorem RolledAlong.drained {s' : Store} {maxAge w : Int} {chain : List Int} {reports : List Carried}
    (h : s.RolledAlong c p maxAge chain reports s') {k : Nat} (hw : chain[k]? = some w)
    (hold : ∀ r ∈ p.records, c.schema.isOpen r = true →
      c.schema.startedSince (w - maxAge) r = false) :
    s'.records c w = [] ∧
      ((s'.leftBehind c maxAge (p.windowStart :: chain)).take (k + 1)).flatten.Perm
        (p.records.filter c.schema.isOpen) := by
  have hopen : ∀ r ∈ p.records.filter c.schema.isOpen,
      c.schema.startedSince (w - maxAge) r = false := fun r hr =>
    hold r (List.mem_filter.1 hr).1 (List.mem_filter.1 hr).2
  constructor
  · rw [records, h.kept w (List.mem_of_getElem? hw), Option.map_some, Option.getD_some]
    exact List.filter_eq_nil_iff.2 fun r hr => by rw [hopen r hr]; decide
  · have hall : c.schema.abandoned (w - maxAge) p.records = p.records.filter c.schema.isOpen :=
      List.filter_eq_self.2 fun r hr => by rw [hopen r hr]; rfl
    exact hall ▸ h.once k w hw

end Store

end WindowAlign
