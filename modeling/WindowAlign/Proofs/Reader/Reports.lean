import WindowAlign.Proofs.Reader.Depth
import WindowAlign.Proofs.Reader.Selection

/-!
# What a report says

A cycle that took a bucket and came to its end has dispatched it, has aligned every metric category
in the store that the dispatch left, and has trimmed the series after that. What its report says of a
category is what alignment answered, whatever the sink made of it (`Session.conclude_reports`,
`History.Fresh.reported`).
-/

namespace WindowAlign

/-! ## Skipped categories -/

/-- A series that is too short is the first reason to skip a category, and it is given for nothing
else. -/
theorem AlignmentPolicy.select_lacking {p : AlignmentPolicy} {windows : List WriterWindow}
    {window : Window} : (∃ available required,
      p.select windows window = .error (.insufficientHistory available required)) ↔
        windows.length < p.minDepth := by
  unfold select
  constructor
  · rintro ⟨available, required, h⟩
    split at h
    · assumption
    · repeat' (split at h)
      all_goals cases h
  · exact fun hlt => ⟨_, _, if_pos hlt⟩

theorem Store.align_eq_skip {s : Store} {p : AlignmentPolicy} {c : Category} {window : Window}
    {reason : Skip} : s.align p c window = .ok (.error reason) ↔
      p.select (s.writerWindows c) window = .error reason := by
  unfold align
  cases p.select (s.writerWindows c) window with
  | error other => simp
  | ok chosen =>
    constructor
    · intro h
      cases chosen <;> simp only at h <;> repeat' (split at h)
      all_goals cases h
    · intro h; cases h

namespace Store

variable {s : Store} {p : AlignmentPolicy} {c : Category} {window : Window}

theorem align_of_left {left : WriterWindow}
    (h : p.select (s.writerWindows c) window = .ok (.left left)) :
    s.align p c window = (s.project c left.windowStart).map fun table =>
      .ok ⟨c, window, left.stop, left.windowStart, none, table⟩ := by
  unfold align
  rw [h]
  simp only
  cases s.project c left.windowStart <;> rfl

theorem align_of_straddle {left right : WriterWindow}
    (h : p.select (s.writerWindows c) window = .ok (.straddle left right)) :
    s.align p c window = (s.project c left.windowStart).bind fun leftTable =>
      (s.project c right.windowStart).map fun rightTable =>
        .ok ⟨c, window, left.stop, left.windowStart, some right.windowStart,
          leftTable.interpolate rightTable window left.stop⟩ := by
  unfold align
  rw [h]
  simp only
  cases s.project c left.windowStart with
  | error e => rfl
  | ok leftTable => cases s.project c right.windowStart <;> rfl

end Store

/-- A category was skipped because its series is too short. -/
def CategoryOutcome.lacksHistory : CategoryOutcome → Bool
  | .skipped (.insufficientHistory _ _) => true
  | _ => false

namespace Store

/-- The outcome of a category tells what alignment answers for a window. -/
inductive Reports (s : Store) (p : AlignmentPolicy) (w : Window) (c : Category) :
    CategoryOutcome → Prop where
  | skipped {reason : Skip} (answered : s.align p c w = .ok (.error reason)) :
      Reports s p w c (.skipped reason)
  | emitted {a : Aligned} (answered : s.align p c w = .ok (.ok a)) (values : Nat) :
      Reports s p w c (.emitted a.table.rows.length values)

theorem Reports.lacksHistory_iff {s : Store} {p : AlignmentPolicy} {w : Window} {c : Category}
    {o : CategoryOutcome} (h : s.Reports p w c o) :
    o.lacksHistory = true ↔ (s.snapshots c).length < p.minDepth := by
  have hlacking : (∃ available required,
      s.align p c w = .ok (.error (.insufficientHistory available required))) ↔
        (s.snapshots c).length < p.minDepth := by
    simp only [align_eq_skip, AlignmentPolicy.select_lacking, writerWindows, List.length_map]
  rw [← hlacking]
  cases h with
  | @skipped reason answered =>
    rw [answered]
    cases reason <;> simp [CategoryOutcome.lacksHistory]
  | emitted answered values =>
    rw [answered]
    simp [CategoryOutcome.lacksHistory]

end Store

/-! ## The report of a cycle -/

namespace Session

variable {σ : Type} {port : SinkPort σ} {s s' : Session σ}

theorem emit_reports {w : Window} {c : Category} {outcome : CategoryOutcome}
    (h : emit port w c s = .ok outcome s') :
    s.reader.intake.store.Reports s.reader.policy w c outcome := by
  have hget : (get : Action (Session σ) (Session σ)) s = .ok s s := rfl
  unfold emit at h
  rw [Action.bind_of_ok hget] at h
  cases hanswer : s.reader.intake.store.align s.reader.policy c w with
  | error e => rw [hanswer] at h; cases h
  | ok answer =>
    rw [hanswer] at h
    cases answer with
    | error reason => cases h; exact .skipped hanswer
    | ok a =>
      obtain ⟨values, s1, -, h⟩ := Action.bind_eq_ok.1 h
      cases h
      exact .emitted hanswer values

theorem emitEach_reports {w : Window} {cs : List Category} :
    ∀ {s : Session σ} {outcomes}, emitEach port w cs s = .ok outcomes s' →
      outcomes.map (·.1) = cs ∧
        ∀ o ∈ outcomes, s.reader.intake.store.Reports s.reader.policy w o.1 o.2 := by
  induction cs with
  | nil =>
    intro s outcomes h
    cases h
    exact ⟨rfl, fun o ho => by cases ho⟩
  | cons c cs ih =>
    intro s outcomes h
    obtain ⟨outcome, s1, hfirst, h⟩ := Action.bind_eq_ok.1 h
    obtain ⟨rest, s2, hrest, h⟩ := Action.bind_eq_ok.1 h
    cases h
    obtain ⟨hcats, houts⟩ := ih hrest
    -- the reader is the same for the categories that follow
    rw [(keeps_emit port w c).eq_of_ok hfirst] at houts
    refine ⟨by rw [List.map_cons, hcats], fun o ho => ?_⟩
    rcases List.mem_cons.1 ho with rfl | ho
    · exact emit_reports hfirst
    · exact houts o ho

theorem conclude_reports {bucket : Int} {w : Window} {stats : Stats} {report : Report}
    (h : conclude port bucket w stats s = .ok report s') :
    report.bucket = some bucket ∧ report.outcomes.map (·.1) = Category.metrics ∧
      ∀ o ∈ report.outcomes,
        s.reader.intake.store.Reports s.reader.policy w.previous o.1 o.2 := by
  have hmark : markTaken bucket s = .ok () (s.taken bucket) := rfl
  unfold conclude at h
  rw [Action.bind_of_ok hmark] at h
  obtain ⟨outcomes, s1, hemit, h⟩ := Action.bind_eq_ok.1 h
  obtain ⟨nodes, s2, -, h⟩ := Action.bind_eq_ok.1 h
  obtain ⟨⟨trimmed, orphaned⟩, s3, -, h⟩ := Action.bind_eq_ok.1 h
  obtain ⟨u, s4, -, h⟩ := Action.bind_eq_ok.1 h
  cases h
  obtain ⟨hcats, houts⟩ := emitEach_reports hemit
  exact ⟨rfl, hcats, houts⟩

theorem cycle_of_answer {t : Tick σ} {report : Report} (h : s.answer t = some report) :
    ∃ s', cycle t.port t.source t.now s = .ok report s' := by
  unfold answer step at h
  cases hcycle : cycle t.port t.source t.now s with
  | ok other s' =>
    rw [hcycle] at h
    cases h
    exact ⟨s', rfl⟩
  | error f s' =>
    rw [hcycle] at h
    cases h

end Session

/-- What a cycle that took the bucket `w` did and reported, where its dispatch left the intake
`after`. -/
structure Reader.Reported (r r' : Reader) (w : Int) (after : Intake) (report : Report) : Prop where
  interval : after.store.interval = r.settings.interval
  bucket : report.bucket = some w
  categories : report.outcomes.map (·.1) = Category.metrics
  outcomes : ∀ o ∈ report.outcomes,
    after.store.Reports r.policy ⟨w - r.settings.interval, w⟩ o.1 o.2
  series : ∀ c, r'.series c = Series.kept r.settings.retainDepth (after.store.snapshots c)

namespace History

variable {σ : Type} {settings : ReaderSettings} {h : History σ}

/-- A cycle that succeeds is idle or has dispatched a bucket. -/
theorem Fresh.idle_or_dispatched (hf : h.Fresh settings) {j : Nat} {report : Report}
    (hanswer : h.answer j = some report) : report = .idle ∨ ∃ w es, h.Dispatches j w es := by
  cases ht : h.ticks[j]? with
  | none => rw [answer, ht] at hanswer; cases hanswer
  | some t =>
    have hmove := hf.move ht
    rw [hanswer] at hmove
    cases hmove with
    | idle pick series last answered => exact .inl (Option.some.inj answered)
    | failed pick given series last answered => cases answered
    | loaded pick given series last answered => cases answered
    | trimmed pick given => exact .inr ⟨_, _, t, ht, pick, given⟩

/-- **A cycle that dispatches a bucket and succeeds** tells what alignment answered for every metric
category, and has trimmed the series. -/
theorem Fresh.reported (hf : h.Fresh settings) {j : Nat} {w : Int} {es : List Event}
    (hd : h.Dispatches j w es) {report : Report} (hanswer : h.answer j = some report) :
    ∃ t stats after, h.ticks[j]? = some t ∧ (h.reader j).pickBucket t.now = some w ∧
      Intake.run t.source (.ofStart w settings.interval) (h.reader j).intake = .ok stats after ∧
      (∀ c, after.store.snapshots c = (h.reader j).loaded w es c) ∧
      (h.reader j).Reported (h.reader (j + 1)) w after report := by
  obtain ⟨t, ht, hpick, hgiven⟩ := hd
  obtain ⟨hreg, hset⟩ := hf.regular j
  obtain ⟨stats, after, hrun, hreg', -, hload⟩ := hreg.run_ok w hgiven
  refine ⟨t, stats, after, ht, hpick, hset ▸ hrun, hload, ?_⟩
  obtain ⟨s', hcycle⟩ := Session.cycle_of_answer ((h.answer_eq ht).symm.trans hanswer)
  rw [Session.cycle_of_some (s := h.state j) hpick, Session.take_of_ok hrun] at hcycle
  obtain ⟨hbucket, hcats, houts⟩ := Session.conclude_reports hcycle
  rw [Window.previous_ofStart] at houts
  refine ⟨hreg'.interval, hbucket, hcats, houts, fun c => ?_⟩
  have hmove := hf.move ht
  rw [hanswer] at hmove
  cases hmove with
  | idle pick => exact nomatch hpick.symm.trans pick
  | failed pick given series last answered => cases answered
  | loaded pick given series last answered => cases answered
  | trimmed pick given series =>
    cases hpick.symm.trans pick
    cases hgiven.symm.trans given
    rw [series c, hload c]

end History

end WindowAlign
