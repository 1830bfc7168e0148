import WindowAlign.Proofs.Reader.History

/-!
# Taking a bucket again

A cycle whose source fails has bound the processors to the window of its bucket, and thereby opened
the window in every series and handed the open operations over to it. The next cycle for the same
bucket would do just that first, and binding twice is binding once (`Intake.bindAll_bindAll`). So the
attempt leaves a session that is like the one before it (`Session.Alike`), but for the number of
failures in a row, at which no cycle looks. However many attempts fail, the cycle that then comes
through makes the same of the session, and of the sink, as if it had been the first
(`History.Fresh.retry_outcome`).
-/

namespace WindowAlign

/-! ## Actions that do not look at a part of the state -/

namespace Action

variable {σ α β : Type}

/-- It makes no difference whether the state is changed by `f` before the action or after it. -/
def Commutes (f : σ → σ) (a : Action σ α) : Prop :=
  ∀ s, a.outcome (f s) = ((a.outcome s).1, f (a.outcome s).2)

variable {f : σ → σ}

theorem commutes_pure (x : α) : Commutes f (pure x : Action σ α) := fun _ => rfl

theorem commutes_throw (e : Fault) : Commutes f (throw e : Action σ α) := fun _ => rfl

theorem outcome_eq_ok {a : Action σ α} {s s' : σ} {x : α} :
    a.outcome s = (.ok x, s') ↔ a s = .ok x s' := by
  unfold outcome
  cases a s <;> simp

theorem outcome_eq_error {a : Action σ α} {s s' : σ} {e : Fault} :
    a.outcome s = (.error e, s') ↔ a s = .error e s' := by
  unfold outcome
  cases a s <;> simp

theorem Commutes.bind {a : Action σ α} {g : α → Action σ β} (ha : Commutes f a)
    (hg : ∀ x, Commutes f (g x)) : Commutes f (a >>= g) := by
  intro s
  have hs := ha s
  cases e : a s with
  | ok x s' =>
    rw [outcome_eq_ok.2 e, outcome_eq_ok] at hs
    simp only [outcome, bind_of_ok e, bind_of_ok hs]
    exact hg x s'
  | error d s' =>
    rw [outcome_eq_error.2 e, outcome_eq_error] at hs
    simp only [outcome, bind_of_error e, bind_of_error hs]

/-- What an action reads of the state may be anything that the change leaves alone. -/
theorem Commutes.get_bind {g : σ → Action σ β} (hread : ∀ s, g (f s) = g s)
    (hg : ∀ s, Commutes f (g s)) : Commutes f (get >>= g) := by
  intro s
  have hget : ∀ t : σ, (get : Action σ σ) t = .ok t t := fun _ => rfl
  simp only [outcome, bind_of_ok (hget _), hread s]
  exact hg s s

end Action

/-! ## Binding again -/

namespace Intake

variable {w : Window} {i i' : Intake}

/-- A pass begins with binding, so it sees of the intake what binding leaves. -/
theorem run_congr (source : Source) (h : i'.bindAll w = i.bindAll w) :
    Intake.run source w i' = Intake.run source w i := by
  have hbind : ∀ j : Intake, (modify (·.bindAll w) : Action Intake PUnit) j = .ok ⟨⟩ (j.bindAll w) :=
    fun _ => rfl
  unfold Intake.run
  rw [Action.bind_of_ok (hbind i'), Action.bind_of_ok (hbind i), h]

end Intake

/-! ## The number of failures in a row -/

namespace Session

variable {σ α : Type} {port : SinkPort σ} {n : Nat}

theorem commutes_onSink (a : Action σ α) : Action.Commutes (setFailures · n) (onSink a) := by
  intro s
  simp only [onSink, Action.onPart, Action.outcome, setFailures]
  cases a s.sink <;> rfl

theorem commutes_emit (w : Window) (c : Category) :
    Action.Commutes (setFailures · n) (emit port w c) := by
  refine .get_bind (fun _ => rfl) fun s => ?_
  simp only
  split
  · exact Action.commutes_throw _
  · exact Action.commutes_pure _
  · exact (commutes_onSink _).bind fun _ => Action.commutes_pure _

theorem commutes_emitEach (w : Window) (cs : List Category) :
    Action.Commutes (setFailures · n) (emitEach port w cs) := by
  induction cs with
  | nil => exact Action.commutes_pure _
  | cons c cs ih =>
    exact (commutes_emit w c).bind fun _ => ih.bind fun _ => Action.commutes_pure _

theorem commutes_emitTopology (w : Window) :
    Action.Commutes (setFailures · n) (emitTopology port w) := by
  refine .get_bind (fun _ => rfl) fun s => ?_
  simp only
  split
  · exact Action.commutes_pure _
  · exact (Action.commutes_pure _).bind fun _ => commutes_onSink _

theorem commutes_purge (w : Window) : Action.Commutes (setFailures · n) (purge port w) := by
  refine .get_bind (fun _ => rfl) fun s => ?_
  split
  · exact Action.commutes_pure _
  · exact (commutes_onSink _).bind fun _ => Action.commutes_pure _

/-- **No cycle looks at the number of failures in a row.** -/
theorem commutes_conclude (bucket : Int) (w : Window) (stats : Stats) :
    Action.Commutes (setFailures · n) (conclude port bucket w stats) := by
  have hmark : Action.Commutes (σ := Session σ) (setFailures · n) (markTaken bucket) :=
    fun _ => rfl
  have htrim : Action.Commutes (σ := Session σ) (setFailures · n) trim := fun _ => rfl
  refine hmark.bind fun _ => (commutes_emitEach _ _).bind fun _ =>
    (commutes_emitTopology _).bind fun _ => htrim.bind fun _ =>
      (commutes_purge _).bind fun _ => Action.commutes_pure _

/-- Two sessions are alike for a bucket if they differ in the number of failures in a row and in
what binding the processors to the window of the bucket makes equal. -/
structure Alike (w : Int) (s s' : Session σ) : Prop where
  sink : s'.sink = s.sink
  settings : s'.reader.settings = s.reader.settings
  retention : s'.reader.retention = s.reader.retention
  last : s'.reader.lastBucket = s.reader.lastBucket
  bound : s'.reader.intake.bindAll (.ofStart w s.reader.settings.interval) =
    s.reader.intake.bindAll (.ofStart w s.reader.settings.interval)

variable {w : Int} {s s' : Session σ}

theorem Alike.pickBucket (h : Alike w s s') (now : Int) :
    s'.reader.pickBucket now = s.reader.pickBucket now := by
  unfold Reader.pickBucket
  rw [h.settings, h.last]

theorem Alike.withIntake (h : Alike w s s') (i : Intake) :
    ({ s' with reader := { s'.reader with intake := i } } : Session σ) =
      ({ s with reader := { s.reader with intake := i } } : Session σ).setFailures
        s'.reader.failures := by
  obtain ⟨⟨settings, intake, retention, last, failures⟩, sink⟩ := s
  obtain ⟨⟨settings', intake', retention', last', failures'⟩, sink'⟩ := s'
  obtain ⟨rfl, rfl, rfl, rfl, -⟩ := h
  rfl

/-- An attempt that fails at the source leaves a session that is like the one before it. -/
theorem Alike.next (h : Alike w s s') (hr : s.reader.Regular) {t : Tick σ}
    (hpick : s.reader.pickBucket t.now = some w) {f : Fault} (hfails : t.source w = .error f) :
    Alike w s (s'.next t) ∧ (s'.next t).reader.failures = s'.reader.failures + 1 := by
  have hrun := Intake.run_error (w := .ofStart w s'.reader.settings.interval)
    (i := s'.reader.intake) hfails
  have hnext : s'.next t = ({ s' with reader := { s'.reader with
      intake := s'.reader.intake.bindAll (.ofStart w s'.reader.settings.interval) } } :
        Session σ).setFailures (s'.reader.failures + 1) := by
    unfold Session.next Session.step
    rw [cycle_of_some ((h.pickBucket t.now).trans hpick), take_of_error hrun]
  rw [hnext]
  refine ⟨⟨h.sink, h.settings, h.retention, h.last, ?_⟩, rfl⟩
  show (s'.reader.intake.bindAll _).bindAll _ = _
  rw [h.settings, h.bound]
  exact Intake.bindAll_bindAll _ fun c => (hr.sound c).toKeyed

/-- **A cycle for the bucket makes the same of sessions that are alike.** -/
theorem Alike.cycle_outcome (h : Alike w s s') {now : Int} (hpick : s.reader.pickBucket now = some w)
    (port : SinkPort σ) (source : Source) :
    (cycle port source now).outcome s' = (((cycle port source now).outcome s).1,
      ((cycle port source now).outcome s).2.setFailures s'.reader.failures) := by
  have hrun := Intake.run_congr source h.bound
  unfold Action.outcome
  rw [cycle_of_some hpick, cycle_of_some ((h.pickBucket now).trans hpick)]
  cases hs : Intake.run source (.ofStart w s.reader.settings.interval) s.reader.intake with
  | error f i =>
    rw [hs] at hrun
    rw [take_of_error hs, take_of_error (by rw [h.settings]; exact hrun), h.withIntake i]
  | ok stats i =>
    rw [hs] at hrun
    rw [take_of_ok hs, take_of_ok (by rw [h.settings]; exact hrun), h.withIntake i, h.settings]
    exact commutes_conclude w (.ofStart w s.reader.settings.interval) stats _

/-- A step that succeeds does not show how many failures there were. -/
theorem step_eq_some_congr {source : Source} {now : Int}
    (h : (cycle port source now).outcome s' = (((cycle port source now).outcome s).1,
      ((cycle port source now).outcome s).2.setFailures n)) (report : Report) (t : Session σ) :
    step port source now s' = (some report, t) ↔ step port source now s = (some report, t) := by
  unfold step
  cases hs : cycle port source now s with
  | ok r u =>
    rw [Action.outcome_eq_ok.2 hs, Action.outcome_eq_ok] at h
    rw [h]
    exact Iff.rfl
  | error f u =>
    rw [Action.outcome_eq_error.2 hs, Action.outcome_eq_error] at h
    rw [h]
    simp

end Session

namespace History

variable {σ : Type} {settings : ReaderSettings} {h : History σ}

/-- The cycle `j` takes the bucket `w`, and its source fails. -/
def FailsToRead (h : History σ) (j : Nat) (w : Int) : Prop :=
  ∃ t f, h.ticks[j]? = some t ∧ (h.reader j).pickBucket t.now = some w ∧ t.source w = .error f

theorem Fresh.alike_after_failed_reads (hf : h.Fresh settings) {j : Nat} {w : Int} (k : Nat)
    (hfails : ∀ m < k, h.FailsToRead (j + m) w) :
    Session.Alike w (h.state j) (h.state (j + k)) ∧
      (h.reader (j + k)).failures = (h.reader j).failures + k := by
  induction k with
  | zero => exact ⟨⟨rfl, rfl, rfl, rfl, rfl⟩, rfl⟩
  | succ k ih =>
    obtain ⟨halike, hcount⟩ := ih fun m hm => hfails m (Nat.lt_succ_of_lt hm)
    obtain ⟨t, f, ht, hpick, hgiven⟩ := hfails k (Nat.lt_succ_self k)
    obtain ⟨hnext, hone⟩ := halike.next (hf.regular j).1 ((halike.pickBucket t.now) ▸ hpick) hgiven
    have hstate : h.state (j + (k + 1)) = (h.state (j + k)).next t := h.state_succ ht
    refine ⟨hstate ▸ hnext, ?_⟩
    unfold reader at hcount ⊢
    rw [hstate, hone, hcount, Nat.add_assoc]

/-- **Reads that failed are invisible after a retry.** Let any number of cycles in a row take the
bucket `w` and fail at the source. A cycle that then takes the bucket has the same outcome as if it
had been the first: the same report, or the same fault, and the same session, its sink included,
but for the number of failures in a row. Once it succeeds, the step resets that number, and the
sessions are equal. -/
theorem Fresh.retry_outcome (hf : h.Fresh settings) {j k : Nat} {w : Int}
    (hfails : ∀ m < k, h.FailsToRead (j + m) w) {now : Int}
    (hpick : (h.reader j).pickBucket now = some w) (port : SinkPort σ) (source : Source) :
    (h.reader (j + k)).pickBucket now = some w ∧
    (Session.cycle port source now).outcome (h.state (j + k)) =
      (((Session.cycle port source now).outcome (h.state j)).1,
        ((Session.cycle port source now).outcome (h.state j)).2.setFailures
          ((h.reader j).failures + k)) ∧
    ∀ report s, (h.state (j + k)).step port source now = (some report, s) ↔
      (h.state j).step port source now = (some report, s) := by
  obtain ⟨halike, hcount⟩ := hf.alike_after_failed_reads k hfails
  have houtcome := halike.cycle_outcome hpick port source
  unfold reader at hcount
  rw [hcount] at houtcome
  exact ⟨(halike.pickBucket now).trans hpick, houtcome, Session.step_eq_some_congr houtcome⟩

/-- `replay` with a source that is down at some of the times. -/
def interrupted (events : Int → List Event) (times : List (Int × Bool)) : History Unit where
  start := (replay events []).start
  ticks := times.map fun time => ⟨.silent, fun bucket =>
    if time.2 then .error (.config (.unavailable "source")) else .ok (events bucket), time.1⟩

theorem interrupted_fresh (events : Int → List Event) (times : List (Int × Bool)) :
    (interrupted events times).Fresh .defaults :=
  .plain rfl

/-- A request that starts in the bucket 0 and finishes in the next one. -/
def crossingRequest : Int → List Event := fun w =>
  if w = 0 then [⟨"threads/7/http/search/r1/start", "\x7b\"current_time\":1000\x7d\n"⟩]
  else if w = 5000 then [⟨"threads/7/http/search/r1/finish", "\x7b\"current_time\":6000\x7d\n"⟩]
  else []

/-- The source fails twice for the bucket 5000, into which the request is carried. -/
theorem retry_outcome_crossingRequest :
    let run := interrupted crossingRequest [(15000, false), (20000, true), (21000, true)]
    let retry := Session.step .silent (fun w => .ok (crossingRequest w)) 22000
    (∀ m < 2, run.FailsToRead (1 + m) 5000) ∧ (run.reader 1).pickBucket 22000 = some 5000 ∧
      ∃ report s, retry (run.state 3) = (some report, s) ∧ retry (run.state 1) = (some report, s) := by
  intro run retry
  have hfails : ∀ m < 2, run.FailsToRead (1 + m) 5000 := by
    intro m hm
    obtain rfl | rfl : m = 0 ∨ m = 1 := by omega
    · exact ⟨_, _, rfl, by decide +kernel, rfl⟩
    · exact ⟨_, _, rfl, by decide +kernel, rfl⟩
  have hpick : (run.reader 1).pickBucket 22000 = some 5000 := by decide +kernel
  have hsome : (retry (run.state 1)).1.isSome = true := by decide +kernel
  obtain ⟨report, s, hfirst⟩ : ∃ report s, retry (run.state 1) = (some report, s) := by
    cases hstep : retry (run.state 1) with
    | mk answer s =>
      rw [hstep] at hsome
      obtain ⟨report, rfl⟩ := Option.isSome_iff_exists.1 hsome
      exact ⟨report, s, rfl⟩
  obtain ⟨-, -, hsame⟩ := (interrupted_fresh _ _).retry_outcome (j := 1) (k := 2) hfails hpick
    .silent fun w => .ok (crossingRequest w)
  exact ⟨hfails, hpick, report, s, (hsame report s).2 hfirst, hfirst⟩

end History

end WindowAlign
