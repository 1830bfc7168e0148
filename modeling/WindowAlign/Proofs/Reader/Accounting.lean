import WindowAlign.Proofs.Reader.Handover

/-!
# Accounting for dropped operations

What a cycle drops (`History.dropped`) is in its report, and every row of it is accounted for: it is
complete, or an orphan that the report counts, or open and then it was copied or counted at the one
handover of its snapshot. A window is dropped once, so an orphan is counted once.
-/

namespace WindowAlign

namespace Series

variable {c : Category} {w : Int} {l : List Snapshot}

/-- Loading the newest window changes the end of a series only. -/
theorem load_opened_eq (maxAge : Int) (ha : Ascending l) (hle : ∀ n ∈ l, n.windowStart ≤ w)
    (rows : List Row) :
    ∃ init x, load c w rows (opened c maxAge w l) = init ++ [x] ∧ x.windowStart = w ∧
      (l = init ∨ ∃ y, l = init ++ [y] ∧ y.windowStart = w) := by
  have hsame : ∀ init : List Snapshot, (∀ n ∈ init, n.windowStart < w) →
      load c w rows init = init := by
    intro init h
    unfold load
    conv_rhs => rw [← List.map_id init]
    refine List.map_congr_left fun n hn => if_neg ?_
    have := h n hn
    omega
  cases hat : at? w l with
  | none =>
    have hlt := forall_lt_of_absent hat hle
    refine ⟨l, (⟨w, none, inherited c maxAge w l⟩ : Snapshot).load c rows, ?_, rfl, .inl rfl⟩
    rw [opened_of_absent hat hle, load, List.map_append]
    exact congrArg₂ (· ++ ·) (hsame l hlt) (by simp)
  | some y =>
    obtain ⟨hy, hyw⟩ := (at?_eq_some ha).1 hat
    obtain ⟨init, after, rfl, hinit, hafter⟩ := ha.split hy
    have hnil : after = [] := by
      refine List.eq_nil_iff_forall_not_mem.2 fun m hm => ?_
      have h1 := hafter m hm
      have h2 := hle m (by simp [hm])
      omega
    subst hnil
    refine ⟨init, y.load c rows, ?_, hyw, .inr ⟨y, rfl, hyw⟩⟩
    rw [opened, hat, load, List.map_append]
    exact congrArg₂ (· ++ ·) (hsame init fun n hn => hyw ▸ hinit n hn) (by simp [hyw])

/-- **What trimming drops are the snapshots whose windows are gone.** -/
theorem filter_gone {depth : Nat} (hd : 0 < depth) {init l' : List Snapshot} {x : Snapshot}
    (ha : Ascending l') (hl' : l' = init ++ [x])
    (hl : l = init ∨ ∃ y, l = init ++ [y] ∧ y.windowStart = x.windowStart) :
    l.filter (fun n => (kept depth l').all fun m => m.windowStart ≠ n.windowStart) =
      doomed depth l' := by
  have hlast : (kept depth l').getLast? = some x := by rw [getLast?_kept hd, hl']; simp
  obtain ⟨rest, hrest⟩ := List.getLast?_eq_some_iff.1 hlast
  have hsplit : init = doomed depth l' ++ rest := by
    have := doomed_append_kept depth l'
    rw [hrest, ← List.append_assoc] at this
    exact (List.append_cancel_right (this.trans hl')).symm
  have hlt : ∀ n ∈ doomed depth l', ∀ m ∈ kept depth l', n.windowStart < m.windowStart := by
    have := doomed_append_kept depth l' ▸ ha
    exact (List.pairwise_append.1 this).2.2
  have hdoomed : (doomed depth l').filter
      (fun n => (kept depth l').all fun m => m.windowStart ≠ n.windowStart) = doomed depth l' := by
    refine List.filter_eq_self.2 fun n hn => List.all_eq_true.2 fun m hm => ?_
    have := hlt n hn m hm
    simp only [decide_eq_true_eq]
    omega
  have hgone : ∀ n : Snapshot, (∃ m ∈ kept depth l', m.windowStart = n.windowStart) →
      ((kept depth l').all fun m => m.windowStart ≠ n.windowStart) = false := by
    rintro n ⟨m, hm, e⟩
    exact List.all_eq_false.2 ⟨m, hm, by simp [e]⟩
  have hstays : rest.filter
      (fun n => (kept depth l').all fun m => m.windowStart ≠ n.windowStart) = [] := by
    refine List.filter_eq_nil_iff.2 fun n hn => ?_
    rw [hgone n ⟨n, by rw [hrest]; exact List.mem_append_left _ hn, rfl⟩]
    decide
  rcases hl with rfl | ⟨y, rfl, hy⟩
  · rw [hsplit, List.filter_append, hdoomed, hstays, List.append_nil]
  · have hx : x ∈ kept depth l' := List.mem_of_getLast? hlast
    have hyg := hgone y ⟨x, hx, hy.symm⟩
    rw [List.filter_append, hsplit, List.filter_append, hdoomed, hstays, List.append_nil,
      List.filter_cons, hyg]
    simp

end Series

namespace History

variable {σ : Type} {settings : ReaderSettings} {h : History σ} {c : Category}

/-- The snapshots that the cycle `j` drops: they are there before it and their windows are not
after it. -/
def dropped (h : History σ) (j : Nat) (c : Category) : List Snapshot :=
  (h.series j c).filter fun n => (h.series (j + 1) c).all fun m => m.windowStart ≠ n.windowStart

end History

/-- A report counts dropped snapshots, and the orphans in them. -/
structure Report.Counts (report : Report) (dropped : Category → List Snapshot) : Prop where
  trimmed : report.trimmed = (Category.all.flatMap dropped).length
  orphaned : report.orphaned = (Category.all.flatMap fun c => Series.orphans c (dropped c)).length

namespace History

variable {σ : Type} {settings : ReaderSettings} {h : History σ} {c : Category}

theorem mem_dropped {j : Nat} {n : Snapshot} :
    n ∈ h.dropped j c ↔
      n ∈ h.series j c ∧ ∀ m ∈ h.series (j + 1) c, m.windowStart ≠ n.windowStart := by
  simp [dropped]

theorem dropped_eq_nil {j : Nat}
    (hkeep : ∀ n ∈ h.series j c, ∃ m ∈ h.series (j + 1) c, m.windowStart = n.windowStart) :
    h.dropped j c = [] := by
  refine List.eq_nil_iff_forall_not_mem.2 fun n hn => ?_
  obtain ⟨hn, hgone⟩ := mem_dropped.1 hn
  obtain ⟨m, hm, e⟩ := hkeep n hn
  exact hgone m hm e

theorem Steady.dropped_eq (hs : h.Steady) (hf : h.Fresh settings) {j : Nat} {t : Tick σ}
    (ht : h.ticks[j]? = some t) {w : Int} {es : List Event}
    (hpick : (h.reader j).pickBucket t.now = some w)
    (hseries : ∀ c, (h.reader (j + 1)).series c =
      Series.kept (h.reader j).settings.retainDepth ((h.reader j).loaded w es c)) (c : Category) :
    h.dropped j c =
      Series.doomed (h.reader j).settings.retainDepth ((h.reader j).loaded w es c) := by
  obtain ⟨hreg, -⟩ := hf.regular j
  have hbehind := hs.behind (c := c) hf j j t (Nat.le_refl j) ht
  rw [(Reader.pickBucket_eq_some.1 hpick).1] at hbehind
  obtain ⟨init, x, hload, hx, hl⟩ := Series.load_opened_eq (c := c)
    (h.reader j).settings.maxInFlightAge (hreg.sound c).ascending hbehind
    ((h.reader j).rowsOf w es c)
  have := Series.filter_gone (l := h.series j c) hreg.retains
    (Reader.loaded_sound hreg w es c).ascending hload (hx ▸ hl)
  rw [← hseries c] at this
  exact this

/-- **Every report counts what its cycle dropped**, and with a healthy sink a cycle that drops
something reports. -/
theorem Steady.report_counts (hs : h.Steady) (hf : h.Fresh settings) (j : Nat) :
    (∀ report, h.answer j = some report → report.Counts (h.dropped j)) ∧
      ∀ t, h.ticks[j]? = some t → t.port.Healthy → (∃ c, h.dropped j c ≠ []) →
        (h.answer j).isSome = true := by
  cases ht : h.ticks[j]? with
  | none =>
    refine ⟨fun report hr => ?_, fun t h => by cases h⟩
    rw [answer, ht] at hr
    cases hr
  | some t =>
    have hmove := hf.move ht
    have hquiet : (∀ c, h.dropped j c = []) →
        ∀ t', some t = some t' → t'.port.Healthy → (∃ c, h.dropped j c ≠ []) →
          (h.answer j).isSome = true := by
      rintro hnil _ _ _ ⟨c, hc⟩
      exact absurd (hnil c) hc
    have hcount : Report.idle.Counts (fun _ => []) := by
      constructor <;> simp [Report.idle, Series.orphans]
    cases hmove with
    | idle pick series last answered =>
      have hnil : ∀ c, h.dropped j c = [] := fun c => dropped_eq_nil fun n hn =>
        ⟨n, by rw [History.series, series c]; exact hn, rfl⟩
      refine ⟨fun report hr => ?_, hquiet hnil⟩
      rw [answered] at hr
      cases hr
      rw [show h.dropped j = fun _ => [] from funext hnil]
      exact hcount
    | failed pick given series last answered =>
      refine ⟨fun report hr => (by rw [answered] at hr; cases hr), hquiet fun c => ?_⟩
      refine dropped_eq_nil fun n hn => ⟨n, ?_, rfl⟩
      rw [History.series, series c]
      exact Series.mem_opened.2 (.inl hn)
    | @loaded w es pick given series last answered =>
      refine ⟨fun report hr => (by rw [answered] at hr; cases hr), hquiet fun c => ?_⟩
      refine dropped_eq_nil fun n hn => ?_
      rw [History.series, series c]
      exact Reader.exists_mem_loaded_of_mem (Series.mem_opened.2 (.inl hn)) es
    | @trimmed w es pick given series last answered heard =>
      have hdoomed : h.dropped j = fun c => Series.doomed (h.reader j).settings.retainDepth
          ((h.reader j).loaded w es c) := funext fun c => hs.dropped_eq hf ht pick series c
      refine ⟨fun report hr => ?_, fun t' e hport _ => heard (Option.some.inj e ▸ hport)⟩
      obtain ⟨-, h1, h2⟩ := answered report hr
      rw [hdoomed]
      exact ⟨h1, h2⟩

section Dropped

variable {i j : Nat} {m n : Snapshot}

theorem Fresh.exists_lt_of_dropped (hf : h.Fresh settings) (hn : n ∈ h.dropped j c) :
    ∃ m ∈ h.series (j + 1) c, n.windowStart < m.windowStart := by
  obtain ⟨hn, hgone⟩ := mem_dropped.1 hn
  obtain ⟨m, hm, hle⟩ := hf.exists_le_of_le ⟨n, hn, Int.le_refl _⟩ (j + 1) (Nat.le_succ j)
  have := hgone m hm
  exact ⟨m, hm, by omega⟩

/-- **A window is dropped once.** -/
theorem Steady.dropped_once (hs : h.Steady) (hf : h.Fresh settings) (hm : m ∈ h.dropped i c)
    (hn : n ∈ h.dropped j c) (hw : m.windowStart = n.windowStart) : i = j := by
  have hnever : ∀ {i j : Nat} {m n : Snapshot}, m ∈ h.dropped i c → n ∈ h.dropped j c →
      m.windowStart = n.windowStart → ¬ i < j := by
    intro i j m n hm hn hw hlt
    obtain ⟨k, hk, hmk⟩ := hf.exists_lt_of_dropped hm
    have hback := hs.mem_of_lt hf ⟨k, hk, Int.le_refl _⟩ j hlt n (mem_dropped.1 hn).1 (by omega)
    exact (mem_dropped.1 hm).2 n hback hw.symm
  have h1 := hnever hm hn hw
  have h2 := hnever hn hm hw.symm
  omega

/-- **A snapshot that is dropped was handed over before.** -/
theorem Steady.handed_over_of_dropped (hs : h.Steady) (hf : h.Fresh settings)
    (hn : n ∈ h.dropped j c) : ∃ i w, i ≤ j ∧ h.HandsOver c i n w := by
  obtain ⟨m, hm, hlt⟩ := hf.exists_lt_of_dropped hn
  have hnj := (mem_dropped.1 hn).1
  by_cases hnewest : ∃ k ∈ h.series j c, n.windowStart < k.windowStart
  · obtain ⟨i, w, hi, ho⟩ := hs.handed_over hf j n hnj hnewest
    exact ⟨i, w, Nat.le_of_lt hi, ho⟩
  · refine ⟨j, m.windowStart, Nat.le_refl j, hf.handsOver_of_newest hnj ?_ hm hlt⟩
    intro k hk
    by_contra hgt
    exact hnewest ⟨k, hk, by omega⟩

/-- What became of an open row of a snapshot, at the one handover of the snapshot. Either the next
snapshot was created with the row, and it has of the operation what the rows of its bucket make of
that; or it was created without, has of the operation what its bucket says alone, and the handover
counted as many records as abandoned as it was created without. -/
def Settled (h : History σ) (c : Category) (j : Nat) (n : Snapshot) (r : Record) : Prop :=
  ∃ i w, i ≤ j ∧ h.HandsOver c i n w ∧
    (∀ i' p w', h.HandsOver c i' p w' → p.windowStart = n.windowStart → i' = i) ∧
    (r ∈ h.copied c i w ∧ h.Becomes c i w (c.schema.identity r) (some r) ∨
      r ∈ h.leftBehind c i n w ∧ h.Becomes c i w (c.schema.identity r) none ∧
        ∃ counts, h.counted? c i w = some counts ∧
          counts.abandoned = (h.leftBehind c i n w).length)

theorem Steady.settled (hs : h.Steady) (hf : h.Fresh settings)
    (hc : c.schema.isStartFinish = true) (hn : n ∈ h.dropped j c) {r : Record}
    (hr : r ∈ n.records) (ho : c.schema.isOpen r = true) : h.Settled c j n r := by
  obtain ⟨i, w, hi, hover⟩ := hs.handed_over_of_dropped hf hn
  have hu := ((hf.regular i).1.sound c).unique n hover.mem.1
  have hrec := (Schema.recordOf?_eq_some hu).2 ⟨hr, rfl⟩
  have hbecomes := hs.becomes hf hover (c.schema.identity r)
  rw [hover.copied_eq hf hc, Schema.recordOf?_carriable hu, hrec, Option.filter_some, ho,
    Bool.true_and] at hbecomes
  refine ⟨i, w, hi, hover, fun i' p w' h' hp => hs.handsOver_unique hf h' hover hp, ?_⟩
  cases hage : c.schema.startedSince (w - settings.maxInFlightAge) r with
  | true =>
    rw [hage] at hbecomes
    exact .inl ⟨hover.copied_eq hf hc ▸ Schema.mem_carriable.2 ⟨hr, ho, hage⟩, hbecomes⟩
  | false =>
    rw [hage] at hbecomes
    exact .inr ⟨(hover.mem_leftBehind hf hc).2 ⟨hr, ho, hage⟩, hbecomes, _, hover.counted hf hc, rfl⟩

end Dropped

/-- **No operation disappears unreported.** Take any history in which the clock does not run
backwards and the sink does not fail. Every row of a dropped snapshot of operations is complete, or
an orphan, or open and settled at the one handover of its snapshot. A cycle that drops anything
reports, every report counts the snapshots that its cycle dropped and the orphans in them, and a
window is dropped by one cycle only. Every handover counts what it copies and what it leaves behind, and
after it the next snapshot has of each operation what it was created with and what its bucket adds. An
operation is abandoned once at most, however many snapshots it was copied through. -/
theorem Steady.accounted (hs : h.Steady) (hf : h.Fresh settings)
    (hsink : ∀ t ∈ h.ticks, t.port.Healthy) :
    (∀ c j, c.schema.isStartFinish = true → ∀ n ∈ h.dropped j c, ∀ r ∈ n.records,
      c.schema.isComplete r = true ∨ c.schema.isOrphan r = true ∨
        c.schema.isOpen r = true ∧ h.Settled c j n r) ∧
    (∀ j, (∃ c, h.dropped j c ≠ []) → (h.answer j).isSome = true) ∧
    (∀ j report, h.answer j = some report → report.Counts (h.dropped j)) ∧
    (∀ c i j, ∀ m ∈ h.dropped i c, ∀ n ∈ h.dropped j c,
      m.windowStart = n.windowStart → i = j) ∧
    (∀ c j p w, h.HandsOver c j p w →
      (∀ k, h.Becomes c j w k (c.schema.recordOf? k (h.copied c j w))) ∧
      (c.schema.isStartFinish = true →
        h.counted? c j w = some ⟨(h.copied c j w).length, (h.leftBehind c j p w).length⟩)) ∧
    (∀ c k i j u v w, c.schema.isStartFinish = true →
      Relation.ReflTransGen (h.Copies c k) u v → Relation.ReflTransGen (h.Copies c k) u w →
        h.Abandons c k i v → h.Abandons c k j w → i = j ∧ v = w) := by
  refine ⟨fun c j hc n hn r hr => ?_, fun j hdrop => ?_, fun j => (hs.report_counts hf j).1,
    fun c i j m hm n hn => hs.dropped_once hf hm hn, fun c j p w ho => ⟨hs.becomes hf ho, ho.counted hf⟩,
    fun c k i j u v w hc => hs.abandoned_once hf hc⟩
  · have hnj := (mem_dropped.1 hn).1
    rcases (((hf.regular j).1.sound c).timed hc n hnj r hr).kinds with h | h | h
    · exact .inl h
    · exact .inr (.inl h)
    · exact .inr (.inr ⟨h, hs.settled hf hc hn hr h⟩)
  · cases ht : h.ticks[j]? with
    | none =>
      obtain ⟨c, hc⟩ := hdrop
      refine absurd (dropped_eq_nil fun n hn => ⟨n, ?_, rfl⟩) hc
      unfold series reader
      rw [h.state_succ_of_none ht]
      exact hn
    | some t => exact (hs.report_counts hf j).2 t ht (hsink t (List.mem_of_getElem? ht)) hdrop

/-- In the bucket 0 a request starts that never finishes, and another finishes that never
started. -/
def brokenRequests : Int → List Event := fun w =>
  if w = 0 then
    [⟨"threads/7/http/search/r1/start", "\x7b\"current_time\":1000\x7d\nStartTime:1000\n"⟩,
      ⟨"threads/7/http/search/r2/finish", "\x7b\"current_time\":2000\x7d\nFinishTime:2000\n"⟩]
  else []

theorem accounted_brokenRequests :
    let run := replay brokenRequests [15000, 20000, 25000, 30000, 35000]
    (run.dropped 4 .httpRequests).length = 1 ∧
      (∀ n ∈ run.dropped 4 .httpRequests, ∀ r ∈ n.records,
        Category.httpRequests.schema.isComplete r = true ∨
          Category.httpRequests.schema.isOrphan r = true ∨
            Category.httpRequests.schema.isOpen r = true ∧
              run.Settled .httpRequests 4 n r) ∧
      ∃ report, run.answer 4 = some report ∧ report.Counts (run.dropped 4) := by
  intro run
  have hs : run.Steady := by unfold Steady; decide
  have hdrop : (run.dropped 4 .httpRequests).length = 1 := by decide +kernel
  have hsink : ∀ t ∈ run.ticks, t.port.Healthy := fun t ht => by
    obtain ⟨now, -, rfl⟩ := List.mem_map.1 ht
    exact SinkPort.silent_healthy
  obtain ⟨h1, h2, h3, -⟩ := hs.accounted (replay_fresh _ _) hsink
  obtain ⟨report, hreport⟩ := Option.isSome_iff_exists.1
    (h2 4 ⟨.httpRequests, List.ne_nil_of_length_pos (by omega)⟩)
  exact ⟨hdrop, h1 .httpRequests 4 rfl, report, hreport, h3 4 report hreport⟩

end History

end WindowAlign
