import WindowAlign.Proofs.Store.Sums
import WindowAlign.Proofs.Reader.Selection

/-!
# When a cycle fails

Between a source and a sink that answer, events have one way to fail a cycle: the integers that are
added up for a category leave the signed 64-bit range. The cycle succeeds if and only if every
category that it reaches is summable (`History.Fresh.cycle_ok_iff`). Where it succeeds every
category has its outcome, every event is counted, and only the buffered ones leave rows behind.
Where it fails the bucket counts as taken all the same, and no series is trimmed.
-/

namespace WindowAlign

/-- The snapshots that are projected for a selection. -/
def Selection.windows : Selection → List WriterWindow
  | left w => [w]
  | straddle w next => [w, next]

namespace Series

variable {c : Category} {l : List Snapshot}

/-- The operations of a window can be added up. Sampled records are not. -/
def Adds (c : Category) (l : List Snapshot) (w : Int) : Prop :=
  c.schema.isStartFinish = true → ∀ n ∈ l, n.windowStart = w → c.schema.SumsFit n.records

def Summable (p : AlignmentPolicy) (i : Int) (window : Window) (c : Category)
    (l : List Snapshot) : Prop :=
  ∀ chosen, p.select (l.map (·.writerWindow i)) window = .ok chosen →
    ∀ v ∈ chosen.windows, Adds c l v.windowStart

def Covered (p : AlignmentPolicy) (i : Int) (window : Window) (l : List Snapshot) : Prop :=
  ∃ chosen, p.select (l.map (·.writerWindow i)) window = .ok chosen

end Series

namespace Store

variable {s : Store} {c : Category}

/-- The projection of a window fails where its operations cannot be added up. -/
theorem project_spec (h : Series.Sound c (s.snapshots c)) (w : Int) :
    (Series.Adds c (s.snapshots c) w → ∃ t, s.project c w = .ok t) ∧
      (¬ Series.Adds c (s.snapshots c) w → s.project c w = .error .integerOverflow) := by
  unfold project
  cases hw : Series.at? w (s.snapshots c) with
  | none =>
    have hnone : s.records c w = [] := by rw [records, snapshot?_eq, hw]; rfl
    have hadds : Series.Adds c (s.snapshots c) w := fun _ n hn e =>
      absurd e (Series.at?_eq_none.1 hw n hn)
    rw [hnone]
    refine ⟨fun _ => (Schema.project_spec fun r hr => by cases hr).1 fun _ k f _ => ?_,
      fun hnot => absurd hadds hnot⟩
    exact Total.partialSumsFit_nil
  | some n =>
    obtain ⟨hn, rfl⟩ := (Series.at?_eq_some h.ascending).1 hw
    have hadds : Series.Adds c (s.snapshots c) n.windowStart ↔
        (c.schema.isStartFinish = true → c.schema.SumsFit n.records) := by
      refine forall_congr' fun _ => ⟨fun hall => hall n hn rfl, fun hfit m hm e => ?_⟩
      rwa [Series.eq_of_windowStart h.ascending hm hn e]
    rw [records_of_mem h.ascending hn, hadds]
    exact Schema.project_spec (h.typed n hn)

/-- **Alignment fails where a snapshot that it chooses cannot be added up**, and nowhere else. Where
it answers, the answer is a table unless no snapshot was chosen. -/
theorem align_spec (h : Series.Sound c (s.snapshots c)) (p : AlignmentPolicy) (window : Window) :
    (Series.Summable p s.interval window c (s.snapshots c) →
        ∃ answer, s.align p c window = .ok answer ∧
          (answer.isOk = true ↔ Series.Covered p s.interval window (s.snapshots c))) ∧
      (¬ Series.Summable p s.interval window c (s.snapshots c) →
        s.align p c window = .error .integerOverflow) := by
  unfold align Series.Summable Series.Covered
  rw [show (s.snapshots c).map (·.writerWindow s.interval) = s.writerWindows c from rfl]
  cases p.select (s.writerWindows c) window with
  | error reason =>
    refine ⟨fun _ => ⟨_, rfl, fun e => ?_, ?_⟩, fun hnot => absurd (fun _ e => ?_) hnot⟩
    · cases e
    · rintro ⟨_, e⟩
      cases e
    · cases e
  | ok chosen =>
    simp only [Except.ok.injEq, forall_eq']
    cases chosen with
    | left v =>
      obtain ⟨hok, herror⟩ := project_spec h v.windowStart
      have hadds : (∀ x ∈ (Selection.left v).windows, Series.Adds c (s.snapshots c) x.windowStart) ↔
          Series.Adds c (s.snapshots c) v.windowStart := by simp [Selection.windows]
      rw [hadds]
      refine ⟨fun hv => ?_, fun hv => ?_⟩
      · obtain ⟨t, ht⟩ := hok hv
        exact ⟨_, by simp only [ht]; rfl, fun _ => ⟨_, rfl⟩, fun _ => rfl⟩
      · simp only [herror hv]
    | straddle v u =>
      obtain ⟨hok, herror⟩ := project_spec h v.windowStart
      obtain ⟨hok', herror'⟩ := project_spec h u.windowStart
      have hadds : (∀ x ∈ (Selection.straddle v u).windows,
          Series.Adds c (s.snapshots c) x.windowStart) ↔
          Series.Adds c (s.snapshots c) v.windowStart ∧
            Series.Adds c (s.snapshots c) u.windowStart := by simp [Selection.windows]
      rw [hadds]
      refine ⟨fun ⟨hv, hu⟩ => ?_, fun hnot => ?_⟩
      · obtain ⟨t, ht⟩ := hok hv
        obtain ⟨t', ht'⟩ := hok' hu
        exact ⟨_, by simp only [ht, ht']; rfl, fun _ => ⟨_, rfl⟩, fun _ => rfl⟩
      · by_cases hv : Series.Adds c (s.snapshots c) v.windowStart
        · obtain ⟨t, ht⟩ := hok hv
          simp only [ht, herror' fun hu => hnot ⟨hv, hu⟩]
        · simp only [herror hv]

end Store

/-! ## Offering the categories -/

namespace Reader

def Summable (r : Reader) (w : Window) (c : Category) : Prop :=
  Series.Summable r.policy r.settings.interval w c (r.series c)

def Covered (r : Reader) (w : Window) (c : Category) : Prop :=
  Series.Covered r.policy r.settings.interval w (r.series c)

end Reader

namespace Session

variable {σ : Type} {port : SinkPort σ} {s : Session σ}

theorem emit_spec (hport : port.Healthy) (h : s.reader.Regular) (w : Window) (c : Category) :
    (s.reader.Summable w c → ∃ outcome s', emit port w c s = .ok outcome s' ∧
        (Report.isEmitted outcome = true ↔ s.reader.Covered w c)) ∧
      (¬ s.reader.Summable w c → emit port w c s = .error (.storage .integerOverflow) s) := by
  have halign := Store.align_spec (h.sound c) s.reader.policy w
  unfold Reader.Summable Reader.Covered
  rw [← h.interval]
  have hget : (get : Action (Session σ) (Session σ)) s = .ok s s := rfl
  unfold emit
  rw [Action.bind_of_ok hget]
  refine ⟨fun hsum => ?_, fun hnot => ?_⟩
  · obtain ⟨answer, hanswer, hcovered⟩ := halign.1 hsum
    rw [hanswer]
    cases answer with
    | error reason => exact ⟨_, s, rfl, hcovered⟩
    | ok aligned =>
      obtain ⟨n, k, hk⟩ := hport.aggregated c w.start aligned s.sink
      exact ⟨_, _, Action.bind_of_ok (onSink_of_ok hk), hcovered⟩
  · rw [halign.2 hnot]
    rfl

/-- **The categories are offered in turn until one cannot be added up.** -/
theorem emitEach_spec (hport : port.Healthy) (w : Window) (cs : List Category) :
    ∀ {s : Session σ}, s.reader.Regular →
      ((∀ c ∈ cs, s.reader.Summable w c) → ∃ outcomes s', emitEach port w cs s = .ok outcomes s' ∧
        outcomes.map (·.1) = cs ∧
        ∀ o ∈ outcomes, Report.isEmitted o.2 = true ↔ s.reader.Covered w o.1) ∧
      ((∃ c ∈ cs, ¬ s.reader.Summable w c) →
        ∃ s', emitEach port w cs s = .error (.storage .integerOverflow) s') := by
  induction cs with
  | nil =>
    intro s _
    exact ⟨fun _ => ⟨[], s, rfl, rfl, fun o ho => by cases ho⟩, fun ⟨_, h, _⟩ => by cases h⟩
  | cons c cs ih =>
    intro s h
    obtain ⟨hok, herror⟩ := emit_spec hport h w c
    by_cases hc : s.reader.Summable w c
    · obtain ⟨outcome, s1, h1, hcovered⟩ := hok hc
      -- the reader is the same for the categories that follow
      have hsame := (keeps_emit port w c).eq_of_ok h1
      have hrest := ih (s := s1) (by rw [hsame]; exact h)
      rw [hsame] at hrest
      obtain ⟨hok', herror'⟩ := hrest
      refine ⟨fun hall => ?_, fun ⟨d, hd, hnot⟩ => ?_⟩
      · obtain ⟨outcomes, s2, h2, hcats, houts⟩ :=
          hok' fun d hd => hall d (List.mem_cons_of_mem _ hd)
        refine ⟨(c, outcome) :: outcomes, s2,
          (Action.bind_of_ok h1).trans ((Action.bind_of_ok h2).trans rfl), ?_, fun o ho => ?_⟩
        · rw [List.map_cons, hcats]
        · rcases List.mem_cons.1 ho with rfl | ho
          · exact hcovered
          · exact houts o ho
      · rcases List.mem_cons.1 hd with rfl | hd
        · exact absurd hc hnot
        · obtain ⟨s2, h2⟩ := herror' ⟨d, hd, hnot⟩
          exact ⟨s2, (Action.bind_of_ok h1).trans (Action.bind_of_error h2)⟩
    · exact ⟨fun hall => absurd (hall c List.mem_cons_self) hc,
        fun _ => ⟨s, Action.bind_of_error (herror hc)⟩⟩

theorem emitTopology_ok (hport : port.Healthy) (w : Window) (s : Session σ) :
    ∃ nodes s', emitTopology port w s = .ok nodes s' := by
  have hget : (get : Action (Session σ) (Session σ)) s = .ok s s := rfl
  unfold emitTopology
  rw [Action.bind_of_ok hget]
  split
  · exact ⟨0, s, rfl⟩
  · obtain ⟨n, k, hk⟩ := hport.topology w.start s.reader.intake.topology s.sink
    exact ⟨n, _, onSink_of_ok hk⟩

/-- **The end of a cycle fails where a category cannot be added up**, and nowhere else. -/
theorem conclude_spec (hport : port.Healthy) (bucket : Int) (w : Window) (stats : Stats)
    (h : (s.taken bucket).reader.Regular) :
    ((∀ c ∈ Category.metrics, (s.taken bucket).reader.Summable w.previous c) →
        ∃ report s', conclude port bucket w stats s = .ok report s' ∧
          s'.reader = (s.taken bucket).reader.trim.2 ∧
          report.bucket = some bucket ∧ report.stats = stats ∧
          report.outcomes.map (·.1) = Category.metrics ∧
          ∀ o ∈ report.outcomes,
            Report.isEmitted o.2 = true ↔ (s.taken bucket).reader.Covered w.previous o.1) ∧
      ((∃ c ∈ Category.metrics, ¬ (s.taken bucket).reader.Summable w.previous c) →
        ∃ s', conclude port bucket w stats s = .error (.storage .integerOverflow) s' ∧
          s'.reader = (s.taken bucket).reader) := by
  have hmark : markTaken bucket s = .ok () (s.taken bucket) := rfl
  obtain ⟨hok, herror⟩ := emitEach_spec hport w.previous Category.metrics h
  unfold conclude
  rw [Action.bind_of_ok hmark]
  refine ⟨fun hall => ?_, fun hsome => ?_⟩
  · obtain ⟨outcomes, s1, h1, hcats, houts⟩ := hok hall
    obtain ⟨nodes, s2, h2⟩ := emitTopology_ok hport w.previous s1
    have hsame : s2.reader = (s.taken bucket).reader :=
      ((keeps_emitTopology _ _).eq_of_ok h2).trans ((keeps_emitEach _ _ _).eq_of_ok h1)
    have htrim : trim s2 = .ok s2.reader.trim.1 { s2 with reader := s2.reader.trim.2 } := rfl
    obtain ⟨s3, h3⟩ := purge_ok hport.purge w.previous { s2 with reader := s2.reader.trim.2 }
    rw [Action.bind_of_ok h1, Action.bind_of_ok h2, Action.bind_of_ok htrim]
    refine ⟨_, s3, (Action.bind_of_ok h3).trans rfl, ?_, rfl, rfl, hcats, houts⟩
    rw [(keeps_purge _ _).eq_of_ok h3, hsame]
  · obtain ⟨s1, h1⟩ := herror hsome
    exact ⟨s1, Action.bind_of_error h1, (keeps_emitEach _ _ _).eq_of_error h1⟩

end Session

/-! ## Cycles -/

namespace Reader

/-- What a category is aligned from once the bucket `w` was dispatched can be added up. -/
def SummableAfter (r : Reader) (w : Int) (es : List Event) (c : Category) : Prop :=
  Series.Summable r.policy r.settings.interval (Window.ofStart w r.settings.interval).previous c
    (r.loaded w es c)

/-- The account of a cycle that dispatched the bucket `w`: every event is counted, and every metric
category has its outcome, without metrics only where no snapshots cover the window. -/
structure Accounts (r : Reader) (w : Int) (es : List Event) (report : Report) : Prop where
  bucket : report.bucket = some w
  counted : Stats.Counted (.ofStart w r.settings.interval) es .zero report.stats
  categories : report.outcomes.map (·.1) = Category.metrics
  emitted : ∀ o ∈ report.outcomes, Report.isEmitted o.2 = true ↔
    Series.Covered r.policy r.settings.interval (Window.ofStart w r.settings.interval).previous
      (r.loaded w es o.1)

theorem loaded_filter (r : Reader) (w : Int) (es : List Event) (c : Category) :
    r.loaded w (es.filter (·.isBuffered (.ofStart w r.settings.interval))) c =
      r.loaded w es c := by
  unfold loaded rowsOf
  rw [Event.flatMap_rowsFor_filter]

end Reader

namespace Session

variable {σ : Type}

/-- A cycle that takes the bucket `w`, between a source and a sink that answer. -/
theorem take_spec {t : Tick σ} (hport : t.port.Healthy) {s : Session σ} (h : s.reader.Regular)
    {w : Int} {es : List Event} (hpick : s.reader.pickBucket t.now = some w)
    (hgiven : t.source w = .ok es) :
    ((∀ c ∈ Category.metrics, s.reader.SummableAfter w es c) →
        ∃ report s', cycle t.port t.source t.now s = .ok report s' ∧
          s.reader.Accounts w es report ∧
          ∀ c, s'.reader.series c =
            Series.kept s.reader.settings.retainDepth (s.reader.loaded w es c)) ∧
      ((∃ c ∈ Category.metrics, ¬ s.reader.SummableAfter w es c) →
        ∃ s', cycle t.port t.source t.now s = .error (.storage .integerOverflow) s' ∧
          s'.reader.lastBucket = some w ∧ ∀ c, s'.reader.series c = s.reader.loaded w es c) := by
  obtain ⟨stats, s1, htake, hcount, hreg, hset, hload⟩ := take_of_given h hgiven t.port
  have hpolicy : (s1.taken w).reader.policy = s.reader.policy := by
    unfold Reader.policy
    rw [hset]
  have hsum : ∀ c, (s1.taken w).reader.Summable
      (Window.ofStart w s.reader.settings.interval).previous c ↔ s.reader.SummableAfter w es c := by
    intro c
    unfold Reader.Summable Reader.SummableAfter
    rw [hload c, hset, hpolicy]
  obtain ⟨hok, herror⟩ :=
    conclude_spec hport w (.ofStart w s.reader.settings.interval) stats hreg
  rw [cycle_of_some hpick, htake]
  refine ⟨fun hall => ?_, fun ⟨c, hc, hnot⟩ => ?_⟩
  · obtain ⟨report, s', hend, hs', hbucket, hstats, hcats, houts⟩ :=
      hok fun c hc => (hsum c).2 (hall c hc)
    refine ⟨report, s', hend, ⟨hbucket, hstats ▸ hcount, hcats, fun o ho => ?_⟩, fun c => ?_⟩
    · have := houts o ho
      unfold Reader.Covered at this
      rwa [hload, hset, hpolicy] at this
    · rw [hs', (s1.taken w).reader.trim_eq.1 c, hload c, hset]
  · obtain ⟨s', hend, hs'⟩ := herror ⟨c, hc, fun hc' => hnot ((hsum c).1 hc')⟩
    exact ⟨s', hend, by rw [hs']; rfl, fun c => by rw [hs', hload c]⟩

end Session

namespace History

variable {σ : Type} {settings : ReaderSettings} {h : History σ}

theorem idle_or_dispatches {j : Nat} {t : Tick σ} (ht : h.ticks[j]? = some t)
    (hsource : ∀ w, ∃ es, t.source w = .ok es) :
    ((h.reader j).pickBucket t.now = none ∧ ∀ w es, ¬ h.Dispatches j w es) ∨
      ∃ w es, (h.reader j).pickBucket t.now = some w ∧ t.source w = .ok es ∧
        h.Dispatches j w es := by
  cases hpick : (h.reader j).pickBucket t.now with
  | none =>
    refine .inl ⟨rfl, fun w es hd => ?_⟩
    obtain ⟨t', ht', hpick', -⟩ := hd
    rw [ht] at ht'
    cases ht'
    rw [hpick] at hpick'
    cases hpick'
  | some w =>
    obtain ⟨es, hgiven⟩ := hsource w
    exact .inr ⟨w, es, rfl, hgiven, t, ht, hpick, hgiven⟩

/-- **Between a source and a sink that answer, a cycle fails where the integers of a category that
it aligns leave the signed 64-bit range when they are added up, and nowhere else.** A cycle that
succeeds has counted every event, has an outcome for every metric category, and has trimmed the
series; of its events only the buffered ones leave rows behind. A cycle that fails has taken the
bucket and trimmed nothing. -/
theorem Fresh.cycle_ok_iff (hf : h.Fresh settings) {j : Nat} {t : Tick σ}
    (ht : h.ticks[j]? = some t) (hport : t.port.Healthy)
    (hsource : ∀ w, ∃ es, t.source w = .ok es) :
    ((∃ report s', Session.cycle t.port t.source t.now (h.state j) = .ok report s') ↔
      ∀ w es, h.Dispatches j w es →
        ∀ c ∈ Category.metrics, (h.reader j).SummableAfter w es c) ∧
    (∀ report s', Session.cycle t.port t.source t.now (h.state j) = .ok report s' →
      ∀ w es, h.Dispatches j w es → (h.reader j).Accounts w es report ∧
        ∀ c, s'.reader.series c = Series.kept settings.retainDepth ((h.reader j).loaded w
          (es.filter (·.isBuffered (.ofStart w settings.interval))) c)) ∧
    (∀ f s', Session.cycle t.port t.source t.now (h.state j) = .error f s' →
      f = .storage .integerOverflow ∧ ∃ w es, h.Dispatches j w es ∧
        s'.reader.lastBucket = some w ∧ ∀ c, s'.reader.series c = (h.reader j).loaded w es c) := by
  obtain ⟨hreg, hset⟩ := hf.regular j
  subst hset
  rcases idle_or_dispatches ht hsource with ⟨hpick, hidle⟩ | ⟨w, es, hpick, hgiven, hd⟩
  · have hcycle := Session.cycle_of_none (s := h.state j) hpick t.port t.source
    refine ⟨⟨fun _ w es hd => absurd hd (hidle w es), fun _ => ⟨_, _, hcycle⟩⟩,
      fun _ _ _ w es hd => absurd hd (hidle w es), fun f s' he => ?_⟩
    exact nomatch hcycle.symm.trans he
  · obtain ⟨hok, herror⟩ := Session.take_spec hport (s := h.state j) hreg hpick hgiven
    by_cases hall : ∀ c ∈ Category.metrics, (h.reader j).SummableAfter w es c
    · obtain ⟨report, s', hcycle, haccounts, hseries⟩ := hok hall
      refine ⟨⟨fun _ w' es' hd' => ?_, fun _ => ⟨report, s', hcycle⟩⟩, fun r s'' he w' es' hd' => ?_,
        fun f s'' he => ?_⟩
      · obtain ⟨rfl, rfl⟩ := hd.unique hd'
        exact hall
      · obtain ⟨rfl, rfl⟩ := hd.unique hd'
        rw [hcycle] at he
        cases he
        exact ⟨haccounts, fun c => by rw [Reader.loaded_filter]; exact hseries c⟩
      · rw [hcycle] at he
        cases he
    · obtain ⟨c, hc⟩ := Classical.not_forall.1 hall
      obtain ⟨hmetric, hnot⟩ := Classical.not_imp.1 hc
      obtain ⟨s', hcycle, hlast, hseries⟩ := herror ⟨c, hmetric, hnot⟩
      refine ⟨⟨fun ⟨r, s'', he⟩ => ?_, fun hsum => absurd (hsum w es hd c hmetric) hnot⟩,
        fun r s'' he => ?_, fun f s'' he => ?_⟩
      · rw [hcycle] at he
        cases he
      · rw [hcycle] at he
        cases he
      · rw [hcycle] at he
        cases he
        exact ⟨rfl, w, es, hd, hlast, hseries⟩

/-- Two requests of one kind in the bucket 0, each with the largest number of items that there is. -/
def largestCounts : Int → List Event := fun w =>
  if w = 0 then
    [⟨"threads/7/http/search/r1/start", "\x7b\"current_time\":1000\x7d\n"⟩,
      ⟨"threads/7/http/search/r1/finish",
        "\x7b\"current_time\":1500\x7d\nItemCount:9223372036854775807\n"⟩,
      ⟨"threads/7/http/search/r2/start", "\x7b\"current_time\":2000\x7d\n"⟩,
      ⟨"threads/7/http/search/r2/finish",
        "\x7b\"current_time\":2500\x7d\nItemCount:9223372036854775807\n"⟩]
  else []

theorem cycle_ok_iff_largestCounts :
    let run := replay largestCounts [15000, 20000]
    (∃ s', Session.cycle SinkPort.silent (fun w => .ok (largestCounts w)) 20000 (run.state 1) =
      .error (.storage .integerOverflow) s') ∧
      ∃ c ∈ Category.metrics, ¬ (run.reader 1).SummableAfter 5000 [] c := by
  intro run
  have hd : run.Dispatches 1 5000 [] := ⟨_, rfl, by decide +kernel, rfl⟩
  have hfails : (match Session.cycle SinkPort.silent (fun w => .ok (largestCounts w)) 20000
      (run.state 1) with
    | .ok _ _ => false
    | .error _ _ => true) = true := by decide +kernel
  obtain ⟨hiff, -, herror⟩ := (replay_fresh largestCounts [15000, 20000]).cycle_ok_iff (j := 1) rfl
    SinkPort.silent_healthy fun w => ⟨largestCounts w, rfl⟩
  cases hcycle : Session.cycle SinkPort.silent (fun w => .ok (largestCounts w)) 20000
      (run.state 1) with
  | ok report s' => rw [hcycle] at hfails; cases hfails
  | error f s' =>
    obtain ⟨rfl, -⟩ := herror f s' hcycle
    refine ⟨⟨s', rfl⟩, ?_⟩
    by_contra hnone
    obtain ⟨report, s'', hok⟩ := hiff.2 fun w es hd' c hc => by
      obtain ⟨rfl, rfl⟩ := hd.unique hd'
      by_contra hnot
      exact hnone ⟨c, hc, hnot⟩
    exact nomatch hcycle.symm.trans hok

end History

end WindowAlign
