import WindowAlign.Reader.Basic
import WindowAlign.Proofs.Ingest.Pass

/-!
# What a cycle does

Seen from its series a reader has four moves (`Reader.Move`). It is idle where no bucket is due.
Where the source fails it has opened the window of the bucket in every series and nothing else. A
bucket that was dispatched is loaded into the series, and they are trimmed after it unless an
alignment or the sink fails first. `Session.cycle_move` says that a cycle makes one of these moves,
whatever the sink does, and that the reader stays regular.
-/

namespace WindowAlign

/-! ## Actions that keep a part of the state -/

namespace Action

variable {σ α β γ : Type}

/-- An action leaves a part of the state as it is, whether it answers or fails. -/
def Keeps (part : σ → γ) (a : Action σ α) : Prop :=
  ∀ s, part (a.outcome s).2 = part s

theorem keeps_pure (part : σ → γ) (x : α) : Keeps part (pure x : Action σ α) := fun _ => rfl

theorem keeps_throw (part : σ → γ) (e : Fault) : Keeps part (throw e : Action σ α) := fun _ => rfl

theorem keeps_get (part : σ → γ) : Keeps part (get : Action σ σ) := fun _ => rfl

theorem Keeps.eq_of_ok {part : σ → γ} {a : Action σ α} (h : Keeps part a) {s s' : σ} {x : α}
    (e : a s = .ok x s') : part s' = part s := by
  have := h s
  rwa [outcome, e] at this

theorem Keeps.eq_of_error {part : σ → γ} {a : Action σ α} (h : Keeps part a) {s s' : σ} {f : Fault}
    (e : a s = .error f s') : part s' = part s := by
  have := h s
  rwa [outcome, e] at this

theorem Keeps.bind {part : σ → γ} {a : Action σ α} {f : α → Action σ β} (ha : Keeps part a)
    (hf : ∀ x, Keeps part (f x)) : Keeps part (a >>= f) := by
  intro s
  cases e : a s with
  | ok x s' =>
    rw [outcome, bind_of_ok e]
    exact (hf x s').trans (ha.eq_of_ok e)
  | error g s' =>
    rw [outcome, bind_of_error e]
    exact ha.eq_of_error e

end Action

/-! ## Trimming -/

theorem Category.all_nodup : Category.all.Nodup := by decide

namespace Series

/-- What trimming to a depth drops. -/
def doomed (depth : Nat) (l : List Snapshot) : List Snapshot :=
  l.take (l.length - depth)

def kept (depth : Nat) (l : List Snapshot) : List Snapshot :=
  l.drop (l.length - depth)

theorem doomed_append_kept (depth : Nat) (l : List Snapshot) :
    doomed depth l ++ kept depth l = l :=
  List.take_append_drop ..

def orphans (c : Category) (l : List Snapshot) : List Record :=
  if c.schema.isStartFinish then (l.flatMap (·.records)).filter c.schema.isOrphan else []

end Series

/-! ## What a reader meets -/

structure SinkPort.Healthy {σ : Type} (p : SinkPort σ) : Prop where
  aggregated : ∀ c t a s, ∃ n s', p.writeAggregated c t a s = .ok n s'
  topology : ∀ t n s, ∃ m s', p.writeTopology t n s = .ok m s'
  purge : ∀ t s, ∃ n s', p.purgeBefore t s = .ok n s'

/-- A sink that drops what it is asked to drop. -/
def SinkPort.Purges {σ : Type} (p : SinkPort σ) : Prop :=
  ∀ t s, ∃ n s', p.purgeBefore t s = .ok n s'

/-- What a reader meets in one cycle. -/
structure Tick (σ : Type) where
  port : SinkPort σ
  source : Source
  now : Int

namespace Reader

def series (r : Reader) (c : Category) : List Snapshot :=
  r.intake.store.snapshots c

theorem trimEach_eq (depth : Nat) {cs : List Category} (hcs : cs.Nodup) :
    ∀ s : Store, (trimEach depth cs s).2.interval = s.interval ∧
      (∀ c, (trimEach depth cs s).2.snapshots c =
        if c ∈ cs then Series.kept depth (s.snapshots c) else s.snapshots c) ∧
      (trimEach depth cs s).1.1 =
        (cs.flatMap fun c => Series.doomed depth (s.snapshots c)).length ∧
      (trimEach depth cs s).1.2 =
        (cs.flatMap fun c => Series.orphans c (Series.doomed depth (s.snapshots c))).length := by
  induction cs with
  | nil => intro s; simp [trimEach]
  | cons c cs ih =>
    intro s
    obtain ⟨hc, hcs⟩ := List.nodup_cons.1 hcs
    obtain ⟨h1, h2, h3, h4⟩ := ih hcs (s.trim c depth).2
    have hsame : ∀ d ∈ cs, (s.trim c depth).2.snapshots d = s.snapshots d := fun d hd => by
      rw [Store.snapshots_trim, if_neg (by rintro rfl; exact hc hd)]
    refine ⟨h1, fun d => ?_, ?_, ?_⟩
    · refine (h2 d).trans ?_
      rw [Store.snapshots_trim]
      by_cases hd : c = d
      · subst hd; simp [hc, Series.kept]
      · simp [hd, Ne.symm hd]
    · show (s.trim c depth).1.removed.length + (trimEach depth cs (s.trim c depth).2).1.1 = _
      rw [h3, List.flatMap_cons, List.length_append,
        List.flatMap_congr fun d hd => by rw [hsame d hd]]
      congr 1
      exact List.length_map ..
    · show (s.trim c depth).1.orphaned + (trimEach depth cs (s.trim c depth).2).1.2 = _
      rw [h4, List.flatMap_cons, List.length_append,
        List.flatMap_congr fun d hd => by rw [hsame d hd]]
      congr 1
      unfold Store.trim Series.orphans
      split
      · exact List.countP_eq_length_filter ..
      · rfl

/-! ## Moves -/

/-- The series after the window of a bucket was opened. -/
def opened (r : Reader) (w : Int) (c : Category) : List Snapshot :=
  Series.opened c r.settings.maxInFlightAge w (r.series c)

def rowsOf (r : Reader) (w : Int) (es : List Event) (c : Category) : List Row :=
  es.flatMap (·.rowsFor c (Window.ofStart w r.settings.interval))

/-- The series after a bucket was dispatched. -/
def loaded (r : Reader) (w : Int) (es : List Event) (c : Category) : List Snapshot :=
  Series.load c w (r.rowsOf w es c) (r.opened w c)

/-- What holds of a reader between two cycles. -/
structure Regular (r : Reader) : Prop where
  roster : r.intake.roster = Category.all.map (·, r.settings.maxInFlightAge)
  interval : r.intake.store.interval = r.settings.interval
  sound : ∀ c, Series.Sound c (r.series c)
  deep : 2 ≤ r.settings.alignmentDepth
  retaining : r.settings.alignmentDepth ≤ r.settings.retainDepth

theorem Regular.retains {r : Reader} (h : r.Regular) : 0 < r.settings.retainDepth := by
  have hdeep := h.deep
  have hretain := h.retaining
  omega

/-- What a cycle does to the series of a reader, and what it answers. -/
inductive Move {σ : Type} (t : Tick σ) (r r' : Reader) (answer : Option Report) : Prop where
  | idle (pick : r.pickBucket t.now = none) (series : ∀ c, r'.series c = r.series c)
      (last : r'.lastBucket = r.lastBucket) (answered : answer = some .idle)
  | failed {w : Int} {f : Fault} (pick : r.pickBucket t.now = some w) (given : t.source w = .error f)
      (series : ∀ c, r'.series c = r.opened w c) (last : r'.lastBucket = r.lastBucket)
      (answered : answer = none)
  | loaded {w : Int} {es : List Event} (pick : r.pickBucket t.now = some w)
      (given : t.source w = .ok es) (series : ∀ c, r'.series c = r.loaded w es c)
      (last : r'.lastBucket = some w) (answered : answer = none)
  | trimmed {w : Int} {es : List Event} (pick : r.pickBucket t.now = some w)
      (given : t.source w = .ok es)
      (series : ∀ c, r'.series c = Series.kept r.settings.retainDepth (r.loaded w es c))
      (last : r'.lastBucket = some w)
      (answered : ∀ report, answer = some report → report.bucket = some w ∧
        report.trimmed = (Category.all.flatMap fun c =>
          Series.doomed r.settings.retainDepth (r.loaded w es c)).length ∧
        report.orphaned = (Category.all.flatMap fun c =>
          Series.orphans c (Series.doomed r.settings.retainDepth (r.loaded w es c))).length)
      (heard : t.port.Healthy → answer.isSome = true)

theorem trim_eq (r : Reader) :
    (∀ c, r.trim.2.series c = Series.kept r.settings.retainDepth (r.series c)) ∧
      r.trim.1.1 = (Category.all.flatMap fun c =>
        Series.doomed r.settings.retainDepth (r.series c)).length ∧
      r.trim.1.2 = (Category.all.flatMap fun c =>
        Series.orphans c (Series.doomed r.settings.retainDepth (r.series c))).length := by
  obtain ⟨-, h2, h3, h4⟩ :=
    trimEach_eq r.settings.retainDepth Category.all_nodup r.intake.store
  exact ⟨fun c => (h2 c).trans (if_pos (Category.mem_all c)), h3, h4⟩

theorem Regular.trim {r : Reader} (h : r.Regular) : r.trim.2.Regular where
  roster := h.roster
  interval := (trimEach_eq _ Category.all_nodup r.intake.store).1.trans h.interval
  sound c := by rw [r.trim_eq.1 c]; exact (h.sound c).drop _
  deep := h.deep
  retaining := h.retaining

theorem Regular.run_ok {r : Reader} (h : r.Regular) (w : Int) {source : Source} {es : List Event}
    (hs : source w = .ok es) :
    ∃ stats i, Intake.run source (.ofStart w r.settings.interval) r.intake = .ok stats i ∧
      ({ r with intake := i, lastBucket := some w } : Reader).Regular ∧
      Stats.Counted (.ofStart w r.settings.interval) es .zero stats ∧
      ∀ c, i.store.snapshots c = r.loaded w es c := by
  obtain ⟨stats, i, hrun, hroster, hi, hcount, hload⟩ :=
    Intake.run_ok (w := .ofStart w r.settings.interval) h.roster h.sound hs
  refine ⟨stats, i, hrun, ⟨hroster.trans h.roster, hi.trans h.interval, fun c => ?_, h.deep,
    h.retaining⟩, hcount, hload⟩
  show Series.Sound c (i.store.snapshots c)
  rw [hload c]
  refine (h.sound c).opened.load fun row hrow => ?_
  obtain ⟨e, -, hrow⟩ := List.mem_flatMap.1 hrow
  exact (fits_of_mem_rowsFor hrow).1

/-- A move is about the series and the bucket that was taken last. -/
theorem Move.of_eq {σ : Type} {t : Tick σ} {r r' r'' : Reader} {answer : Option Report}
    (h : Move t r r' answer) (hs : ∀ c, r''.series c = r'.series c)
    (hl : r''.lastBucket = r'.lastBucket) : Move t r r'' answer := by
  cases h with
  | idle pick series last answered =>
    exact .idle pick (fun c => (hs c).trans (series c)) (hl.trans last) answered
  | failed pick given series last answered =>
    exact .failed pick given (fun c => (hs c).trans (series c)) (hl.trans last) answered
  | loaded pick given series last answered =>
    exact .loaded pick given (fun c => (hs c).trans (series c)) (hl.trans last) answered
  | trimmed pick given series last answered heard =>
    exact .trimmed pick given (fun c => (hs c).trans (series c)) (hl.trans last) answered heard

end Reader

namespace Session

variable {σ α : Type}

/-! ## The sink -/

theorem keeps_onSink (a : Action σ α) : Action.Keeps reader (onSink a) := by
  intro s
  simp only [onSink, Action.onPart, Action.outcome]
  cases a s.sink <;> rfl

theorem onSink_of_ok {a : Action σ α} {s : Session σ} {x : α} {k : σ} (h : a s.sink = .ok x k) :
    onSink a s = .ok x { s with sink := k } := by
  simp only [onSink, Action.onPart, h]

theorem keeps_emit (port : SinkPort σ) (w : Window) (c : Category) :
    Action.Keeps reader (emit port w c) := by
  refine (Action.keeps_get _).bind fun s => ?_
  simp only
  split
  · exact Action.keeps_throw _ _
  · exact Action.keeps_pure _ _
  · exact (keeps_onSink _).bind fun _ => Action.keeps_pure _ _

theorem keeps_emitEach (port : SinkPort σ) (w : Window) (cs : List Category) :
    Action.Keeps reader (emitEach port w cs) := by
  induction cs with
  | nil => exact Action.keeps_pure _ _
  | cons c cs ih =>
    exact (keeps_emit port w c).bind fun _ => ih.bind fun _ => Action.keeps_pure _ _

theorem keeps_emitTopology (port : SinkPort σ) (w : Window) :
    Action.Keeps reader (emitTopology port w) := by
  refine (Action.keeps_get _).bind fun s => ?_
  simp only
  split
  · exact Action.keeps_pure _ _
  · exact (Action.keeps_pure _ _).bind fun _ => keeps_onSink _

theorem keeps_purge (port : SinkPort σ) (w : Window) : Action.Keeps reader (purge port w) := by
  refine (Action.keeps_get _).bind fun s => ?_
  split
  · exact Action.keeps_pure _ _
  · exact (keeps_onSink _).bind fun _ => Action.keeps_pure _ _

theorem purge_ok {port : SinkPort σ} (h : port.Purges) (w : Window) (s : Session σ) :
    ∃ s', purge port w s = .ok () s' := by
  have hget : (get : Action (Session σ) (Session σ)) s = .ok s s := rfl
  unfold purge
  rw [Action.bind_of_ok hget]
  cases s.reader.retention with
  | none => exact ⟨s, rfl⟩
  | some retention =>
    obtain ⟨n, k, hk⟩ := h (w.start - retention) s.sink
    exact ⟨_, Action.bind_of_ok (onSink_of_ok hk)⟩

/-! ## Steps -/

/-- What a cycle does once its bucket was dispatched. -/
def conclude (port : SinkPort σ) (bucket : Int) (w : Window) (stats : Stats) :
    Action (Session σ) Report := do
  markTaken bucket
  let outcomes ← emitEach port w.previous Category.metrics
  let topologyNodes ← emitTopology port w.previous
  let (trimmed, orphaned) ← trim
  purge port w.previous
  return ⟨some bucket, some w.previous, stats, outcomes, topologyNodes, trimmed, orphaned⟩

def taken (s : Session σ) (bucket : Int) : Session σ :=
  { s with reader := { s.reader with lastBucket := some bucket } }

theorem cycle_of_none {s : Session σ} {now : Int} (h : s.reader.pickBucket now = none)
    (port : SinkPort σ) (source : Source) : cycle port source now s = .ok .idle s := by
  have hget : (get : Action (Session σ) (Session σ)) s = .ok s s := rfl
  unfold cycle
  rw [Action.bind_of_ok hget, h]
  rfl

theorem cycle_of_some {s : Session σ} {now w : Int} (h : s.reader.pickBucket now = some w)
    (port : SinkPort σ) (source : Source) : cycle port source now s = take port source w s := by
  have hget : (get : Action (Session σ) (Session σ)) s = .ok s s := rfl
  unfold cycle
  rw [Action.bind_of_ok hget, h]

theorem take_of_error {s : Session σ} {w : Int} {source : Source} {f : Fault} {i : Intake}
    (h : Intake.run source (.ofStart w s.reader.settings.interval) s.reader.intake = .error f i)
    (port : SinkPort σ) :
    take port source w s = .error f { s with reader := { s.reader with intake := i } } := by
  have hrun : onIntake (Intake.run source (.ofStart w s.reader.settings.interval)) s =
      .error f { s with reader := { s.reader with intake := i } } := by
    unfold onIntake Action.onPart
    rw [h]
  exact Action.bind_of_error (f := conclude port w (.ofStart w s.reader.settings.interval)) hrun

theorem take_of_ok {s : Session σ} {w : Int} {source : Source} {stats : Stats} {i : Intake}
    (h : Intake.run source (.ofStart w s.reader.settings.interval) s.reader.intake = .ok stats i)
    (port : SinkPort σ) :
    take port source w s = conclude port w (.ofStart w s.reader.settings.interval) stats
      { s with reader := { s.reader with intake := i } } := by
  have hrun : onIntake (Intake.run source (.ofStart w s.reader.settings.interval)) s =
      .ok stats { s with reader := { s.reader with intake := i } } := by
    unfold onIntake Action.onPart
    rw [h]
  exact Action.bind_of_ok (f := conclude port w (.ofStart w s.reader.settings.interval)) hrun

/-- The end of a cycle marks the bucket and trims the store, unless an alignment or the sink fails
before that. Once it has trimmed it can fail to purge the sink, and in no other way. -/
theorem conclude_cases (port : SinkPort σ) (w : Int) (window : Window) (stats : Stats)
    (s : Session σ) :
    (∃ f s', conclude port w window stats s = .error f s' ∧ s'.reader = (s.taken w).reader) ∨
      ∃ s', s'.reader = (s.taken w).reader.trim.2 ∧
        ((¬ port.Purges ∧ ∃ f, conclude port w window stats s = .error f s') ∨
          ∃ report, conclude port w window stats s = .ok report s' ∧ report.bucket = some w ∧
            (report.trimmed, report.orphaned) = (s.taken w).reader.trim.1) := by
  have hmark : markTaken w s = .ok () (s.taken w) := rfl
  unfold conclude
  rw [Action.bind_of_ok hmark]
  cases he : emitEach port window.previous Category.metrics (s.taken w) with
  | error f s1 =>
    exact .inl ⟨f, s1, Action.bind_of_error he, (keeps_emitEach _ _ _).eq_of_error he⟩
  | ok outcomes s1 =>
    have h1 := (keeps_emitEach _ _ _).eq_of_ok he
    rw [Action.bind_of_ok he]
    cases ht : emitTopology port window.previous s1 with
    | error f s2 =>
      exact .inl ⟨f, s2, Action.bind_of_error ht, ((keeps_emitTopology _ _).eq_of_error ht).trans h1⟩
    | ok nodes s2 =>
      have h2 := ((keeps_emitTopology _ _).eq_of_ok ht).trans h1
      have htrim : trim s2 = .ok s2.reader.trim.1 { s2 with reader := s2.reader.trim.2 } := rfl
      rw [Action.bind_of_ok ht, Action.bind_of_ok htrim]
      cases hp : purge port window.previous { s2 with reader := s2.reader.trim.2 } with
      | error f s3 =>
        refine .inr ⟨s3, ?_, .inl ⟨fun hport => ?_, f, Action.bind_of_error hp⟩⟩
        · rw [(keeps_purge _ _).eq_of_error hp, h2]
        · obtain ⟨s', hs'⟩ := purge_ok hport window.previous { s2 with reader := s2.reader.trim.2 }
          rw [hp] at hs'
          cases hs'
      | ok u s3 =>
        refine .inr ⟨s3, ?_, .inr ⟨_, (Action.bind_of_ok hp).trans rfl, rfl, ?_⟩⟩
        · rw [(keeps_purge _ _).eq_of_ok hp, h2]
        · rw [h2]

/-- Where the source fails the window of the bucket was opened in every series. -/
theorem take_of_failed {s : Session σ} (hr : s.reader.Regular) {w : Int} {source : Source}
    {f : Fault} (hgiven : source w = .error f) (port : SinkPort σ) :
    ∃ s', take port source w s = .error f s' ∧ s'.reader.Regular ∧
      s'.reader.settings = s.reader.settings ∧ s'.reader.lastBucket = s.reader.lastBucket ∧
      ∀ c, s'.reader.series c = s.reader.opened w c := by
  have hrun := Intake.run_error (w := .ofStart w s.reader.settings.interval)
    (i := s.reader.intake) hgiven
  obtain ⟨hroster, hi, hsound, hopen⟩ :=
    Intake.bindAll_bound (.ofStart w s.reader.settings.interval) hr.roster hr.sound
  exact ⟨_, take_of_error hrun port, ⟨hroster.trans hr.roster, hi.trans hr.interval, hsound,
    hr.deep, hr.retaining⟩, rfl, rfl, hopen⟩

/-- Where the source answers the bucket is loaded, and the cycle goes on to its end. -/
theorem take_of_given {s : Session σ} (hr : s.reader.Regular) {w : Int} {source : Source}
    {es : List Event} (hgiven : source w = .ok es) (port : SinkPort σ) :
    ∃ stats s1, take port source w s =
        conclude port w (.ofStart w s.reader.settings.interval) stats s1 ∧
      Stats.Counted (.ofStart w s.reader.settings.interval) es .zero stats ∧
      (s1.taken w).reader.Regular ∧ (s1.taken w).reader.settings = s.reader.settings ∧
      ∀ c, (s1.taken w).reader.series c = s.reader.loaded w es c := by
  obtain ⟨stats, i, hrun, hreg, hcount, hload⟩ := hr.run_ok w hgiven
  exact ⟨stats, _, take_of_ok hrun port, hcount, hreg, rfl, hload⟩

/-- **A cycle makes one of the four moves**, and the reader stays regular. -/
theorem cycle_move {s : Session σ} (hr : s.reader.Regular) (t : Tick σ) :
    Reader.Move t s.reader ((cycle t.port t.source t.now).outcome s).2.reader
        ((cycle t.port t.source t.now).outcome s).1.toOption ∧
      ((cycle t.port t.source t.now).outcome s).2.reader.settings = s.reader.settings ∧
      ((cycle t.port t.source t.now).outcome s).2.reader.Regular := by
  obtain ⟨port, source, now⟩ := t
  simp only
  unfold Action.outcome
  cases hpick : s.reader.pickBucket now with
  | none =>
    rw [cycle_of_none hpick]
    exact ⟨.idle hpick (fun _ => rfl) rfl rfl, rfl, hr⟩
  | some w =>
    rw [cycle_of_some hpick]
    cases hgiven : source w with
    | error f =>
      obtain ⟨s', htake, hreg, hset, hlast, hopen⟩ := take_of_failed hr hgiven port
      rw [htake]
      exact ⟨.failed hpick hgiven hopen hlast rfl, hset, hreg⟩
    | ok es =>
      obtain ⟨stats, s1, htake, -, hreg, hset, hload⟩ := take_of_given hr hgiven port
      obtain ⟨h1, h2, h3⟩ := (s1.taken w).reader.trim_eq
      simp only [hset, hload] at h1 h2 h3
      rw [htake]
      rcases conclude_cases port w (.ofStart w s.reader.settings.interval) stats s1 with
        ⟨f, s', hc, hs'⟩ | ⟨s', hs', ⟨hport, f, hc⟩ | ⟨report, hc, hbucket, hcount⟩⟩
      · rw [hc]
        simp only [hs']
        exact ⟨.loaded hpick hgiven hload rfl rfl, hset, hreg⟩
      · rw [hc]
        simp only [hs']
        exact ⟨.trimmed hpick hgiven h1 rfl (fun _ h => by cases h)
          (fun h => absurd h.purge hport), hset, hreg.trim⟩
      · rw [hc]
        simp only [hs']
        refine ⟨.trimmed hpick hgiven h1 rfl (fun r hr => ?_) (fun _ => rfl), hset, hreg.trim⟩
        cases hr
        exact ⟨hbucket, (congrArg Prod.fst hcount).trans h2, (congrArg Prod.snd hcount).trans h3⟩

end Session

end WindowAlign
