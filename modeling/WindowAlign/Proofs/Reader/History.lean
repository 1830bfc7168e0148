import WindowAlign.Proofs.Reader.Cycle

/-!
# Histories

A history is a reader that has seen nothing together with the cycles that follow: at each tick the
clock shows some time, the source answers as it likes, and the sink does what it likes. It covers
dispatched, idle and failed cycles in any order. Every cycle makes one of the four moves
(`History.Fresh.move`), so that what the reader has at the start and every move keeps holds
throughout (`History.Fresh.induct`).
-/

namespace WindowAlign

/-- A reader with its sink, and the cycles that it goes through. -/
structure History (σ : Type) where
  start : Session σ
  ticks : List (Tick σ)

namespace Session

variable {σ : Type}

def next (s : Session σ) (t : Tick σ) : Session σ :=
  (s.step t.port t.source t.now).2

def answer (s : Session σ) (t : Tick σ) : Option Report :=
  (s.step t.port t.source t.now).1

theorem next_move {s : Session σ} (hr : s.reader.Regular) (t : Tick σ) :
    Reader.Move t s.reader (s.next t).reader (s.answer t) ∧
      (s.next t).reader.settings = s.reader.settings ∧ (s.next t).reader.Regular := by
  obtain ⟨hmove, hset, hreg⟩ := cycle_move hr t
  unfold next answer step
  unfold Action.outcome at hmove hset hreg
  cases hc : cycle t.port t.source t.now s with
  | ok report s' =>
    rw [hc] at hmove hset hreg
    exact ⟨hmove.of_eq (fun _ => rfl) rfl, hset, hreg.roster, hreg.interval, hreg.sound, hreg.deep,
      hreg.retaining⟩
  | error f s' =>
    rw [hc] at hmove hset hreg
    exact ⟨hmove.of_eq (fun _ => rfl) rfl, hset, hreg.roster, hreg.interval, hreg.sound, hreg.deep,
      hreg.retaining⟩

end Session

/-! ## The bucket that is due -/

section Grid

variable {i : Int}

theorem dvd_alignDown (t i : Int) : i ∣ alignDown t i :=
  Int.dvd_self_sub_emod

theorem alignDown_eq (t i : Int) : alignDown t i = i * (t / i) := by
  have := Int.emod_add_mul_ediv t i
  unfold alignDown
  omega

/-- Rounding down keeps the order, whatever the interval. -/
theorem alignDown_mono {s t : Int} (h : s ≤ t) (i : Int) : alignDown s i ≤ alignDown t i := by
  rw [alignDown_eq, alignDown_eq]
  rcases Int.lt_trichotomy i 0 with hi | rfl | hi
  · obtain ⟨k, rfl⟩ : ∃ k, i = -k := ⟨-i, by omega⟩
    rw [Int.ediv_neg, Int.ediv_neg, Int.neg_mul_neg, Int.neg_mul_neg]
    exact Int.mul_le_mul_of_nonneg_left (Int.ediv_le_ediv (by omega) h) (by omega)
  · simp
  · exact Int.mul_le_mul_of_nonneg_left (Int.ediv_le_ediv hi h) (by omega)

theorem alignDown_le (hi : 0 < i) (t : Int) : alignDown t i ≤ t := by
  have := Int.emod_nonneg t (show i ≠ 0 by omega)
  unfold alignDown
  omega

theorem lt_alignDown_add (hi : 0 < i) (t : Int) : t < alignDown t i + i := by
  have := Int.emod_lt_of_pos t hi
  unfold alignDown
  omega

/-- Grid points that differ are an interval apart. -/
theorem add_le_of_lt_of_dvd {a b : Int} (ha : i ∣ a) (hb : i ∣ b) (h : a < b) : a + i ≤ b := by
  have := Int.le_of_dvd (by omega) (Int.dvd_sub hb ha)
  omega

end Grid

namespace Reader

/-- The bucket that is due at a time, whether it was taken or not. -/
def due (r : Reader) (now : Int) : Int :=
  alignDown (now - r.settings.writerLag) r.settings.interval

theorem pickBucket_eq_some {r : Reader} {now w : Int} :
    r.pickBucket now = some w ↔ r.due now = w ∧ ∀ last, r.lastBucket = some last → last < w := by
  unfold pickBucket
  simp only [due]
  cases r.lastBucket with
  | none => simp
  | some last =>
    simp only [Option.some.injEq, forall_eq']
    split
    · constructor
      · intro h; cases h
      · rintro ⟨rfl, h⟩; omega
    · rw [Option.some.injEq]
      constructor
      · rintro rfl; exact ⟨rfl, by omega⟩
      · exact fun h => h.1

theorem pickBucket_eq_none {r : Reader} {now : Int} :
    r.pickBucket now = none ↔ ∃ last, r.lastBucket = some last ∧ r.due now ≤ last := by
  unfold pickBucket
  simp only [due]
  cases r.lastBucket with
  | none => simp
  | some last => simp

theorem dvd_of_pickBucket {r : Reader} {now w : Int} (h : r.pickBucket now = some w) :
    r.settings.interval ∣ w :=
  (pickBucket_eq_some.1 h).1 ▸ dvd_alignDown _ _

/-- A reader that has seen nothing, with or without retention. -/
inductive Fresh (settings : ReaderSettings) : Reader → Prop where
  | plain {r : Reader} (h : fresh? settings = .ok r) : Fresh settings r
  | retaining {r : Reader} (h : fresh? settings = .ok r) (windows : Nat) :
      Fresh settings (r.withRetention windows)

theorem valid_of_fresh? {settings : ReaderSettings} {r : Reader} (h : fresh? settings = .ok r) :
    settings.validate = .ok () := by
  unfold fresh? at h
  split at h
  · cases h
  · assumption

theorem fresh?_eq_ok {settings : ReaderSettings} {r : Reader} (h : fresh? settings = .ok r) :
    r.settings = settings ∧ (∀ c, r.series c = []) ∧ r.lastBucket = none ∧ r.Regular := by
  have hv := valid_of_fresh? h
  rw [fresh?, hv] at h
  unfold ReaderSettings.validate at hv
  split at hv
  · cases hv
  split at hv
  · cases hv
  split at hv
  · cases hv
  rename_i hdeep hretain
  have hnil : ∀ c : Category, (Store.empty settings.interval).snapshots c = [] := by
    intro c; simp [Store.snapshots, Store.empty]
  cases h
  refine ⟨rfl, hnil, rfl, rfl, by simp only [Intake.fresh, Store.empty], fun c => ?_,
    by simp only; omega, by simp only; omega⟩
  simp only [series, Intake.fresh, hnil]
  exact .nil c

theorem Fresh.spec {settings : ReaderSettings} {r : Reader} (h : Fresh settings r) :
    r.settings = settings ∧ (∀ c, r.series c = []) ∧ r.lastBucket = none ∧ r.Regular := by
  cases h with
  | plain h => exact fresh?_eq_ok h
  | retaining h windows =>
    obtain ⟨h1, h2, h3, h4⟩ := fresh?_eq_ok h
    exact ⟨h1, h2, h3, h4.roster, h4.interval, h4.sound, h4.deep, h4.retaining⟩

theorem Fresh.valid {settings : ReaderSettings} {r : Reader} (h : Fresh settings r) :
    settings.validate = .ok () := by
  cases h with
  | plain h => exact valid_of_fresh? h
  | retaining h => exact valid_of_fresh? h

end Reader

/-! ## States -/

/-- A sink that takes everything and keeps nothing. -/
def SinkPort.silent : SinkPort Unit :=
  ⟨fun _ _ _ => pure 0, fun _ _ => pure 0, fun _ => pure 0⟩

theorem SinkPort.silent_healthy : SinkPort.silent.Healthy :=
  ⟨fun _ _ _ _ => ⟨0, (), rfl⟩, fun _ _ _ => ⟨0, (), rfl⟩, fun _ _ => ⟨0, (), rfl⟩⟩

namespace History

variable {σ : Type}

def state (h : History σ) (j : Nat) : Session σ :=
  (h.ticks.take j).foldl Session.next h.start

def reader (h : History σ) (j : Nat) : Reader :=
  (h.state j).reader

def series (h : History σ) (j : Nat) (c : Category) : List Snapshot :=
  (h.reader j).series c

def answer (h : History σ) (j : Nat) : Option Report :=
  (h.ticks[j]?).bind (h.state j).answer

/-- The reader has seen nothing at the start. -/
def Fresh (settings : ReaderSettings) (h : History σ) : Prop :=
  Reader.Fresh settings h.start.reader

/-- The clock does not run backwards. -/
def Steady (h : History σ) : Prop :=
  h.ticks.Pairwise (·.now ≤ ·.now)

/-- The cycle `j` takes the bucket `w`, whether or not its source then fails. -/
def Picks (h : History σ) (j : Nat) (w : Int) : Prop :=
  ∃ t, h.ticks[j]? = some t ∧ (h.reader j).pickBucket t.now = some w

/-- The cycle `j` dispatches the bucket `w`, which has the events `es`. -/
def Dispatches (h : History σ) (j : Nat) (w : Int) (es : List Event) : Prop :=
  ∃ t, h.ticks[j]? = some t ∧ (h.reader j).pickBucket t.now = some w ∧ t.source w = .ok es

/-- The history of a reader with default settings over a source that always answers and a silent
sink, with the times that the clock shows. -/
def replay (events : Int → List Event) (times : List Int) : History Unit where
  start := ⟨⟨.defaults, .fresh (Intake.allProcessors ReaderSettings.defaults.maxInFlightAge)
    ReaderSettings.defaults.batchRows ReaderSettings.defaults.interval, none, none, 0⟩, ()⟩
  ticks := times.map fun now => ⟨.silent, fun bucket => .ok (events bucket), now⟩

theorem replay_fresh (events : Int → List Event) (times : List Int) :
    (replay events times).Fresh .defaults :=
  .plain rfl

theorem replay_dispatches {events : Int → List Event} {times : List Int} {j : Nat} {w : Int}
    {es : List Event} (hd : (replay events times).Dispatches j w es) : es = events w := by
  obtain ⟨t, ht, -, hgiven⟩ := hd
  obtain ⟨now, -, rfl⟩ := List.mem_map.1 (List.mem_of_getElem? ht)
  exact (Except.ok.inj hgiven).symm

theorem Dispatches.picks {h : History σ} {j : Nat} {w : Int} {es : List Event}
    (hd : h.Dispatches j w es) : h.Picks j w := by
  obtain ⟨t, ht, hp, -⟩ := hd
  exact ⟨t, ht, hp⟩

theorem Dispatches.unique {h : History σ} {j : Nat} {u w : Int} {es es' : List Event}
    (hu : h.Dispatches j u es) (hw : h.Dispatches j w es') : u = w ∧ es = es' := by
  obtain ⟨t, ht, hpick, hgiven⟩ := hu
  obtain ⟨t', ht', hpick', hgiven'⟩ := hw
  rw [ht] at ht'
  cases ht'
  rw [hpick] at hpick'
  cases hpick'
  rw [hgiven] at hgiven'
  cases hgiven'
  exact ⟨rfl, rfl⟩

theorem state_succ (h : History σ) {j : Nat} {t : Tick σ} (ht : h.ticks[j]? = some t) :
    h.state (j + 1) = (h.state j).next t := by
  simp only [state, List.take_add_one, ht, Option.toList_some, List.foldl_append, List.foldl_cons,
    List.foldl_nil]

theorem state_succ_of_none (h : History σ) {j : Nat} (ht : h.ticks[j]? = none) :
    h.state (j + 1) = h.state j := by
  simp only [state, List.take_add_one, ht, Option.toList_none, List.append_nil]

theorem reader_succ_of_none (h : History σ) {j : Nat} (ht : h.ticks[j]? = none) :
    h.reader (j + 1) = h.reader j :=
  congrArg Session.reader (h.state_succ_of_none ht)

theorem series_succ_of_none (h : History σ) {j : Nat} (ht : h.ticks[j]? = none) (c : Category) :
    h.series (j + 1) c = h.series j c :=
  congrArg (·.series c) (h.reader_succ_of_none ht)

theorem answer_eq (h : History σ) {j : Nat} {t : Tick σ} (ht : h.ticks[j]? = some t) :
    h.answer j = (h.state j).answer t := by
  rw [answer, ht]; rfl

variable {settings : ReaderSettings} {h : History σ}

theorem Fresh.regular (hf : h.Fresh settings) (j : Nat) :
    (h.reader j).Regular ∧ (h.reader j).settings = settings := by
  induction j with
  | zero =>
    obtain ⟨h1, -, -, h4⟩ := Reader.Fresh.spec hf
    exact ⟨h4, h1⟩
  | succ j ih =>
    obtain ⟨hreg, hset⟩ := ih
    cases ht : h.ticks[j]? with
    | none => rw [h.reader_succ_of_none ht]; exact ⟨hreg, hset⟩
    | some t =>
      unfold reader
      rw [h.state_succ ht]
      obtain ⟨-, h2, h3⟩ := Session.next_move (s := h.state j) hreg t
      exact ⟨h3, h2.trans hset⟩

theorem Fresh.series_zero (hf : h.Fresh settings) (c : Category) : h.series 0 c = [] :=
  (Reader.Fresh.spec hf).2.1 c

/-- **Every cycle of a history makes one of the four moves.** -/
theorem Fresh.move (hf : h.Fresh settings) {j : Nat} {t : Tick σ} (ht : h.ticks[j]? = some t) :
    Reader.Move t (h.reader j) (h.reader (j + 1)) (h.answer j) := by
  have := (Session.next_move (s := h.state j) (hf.regular j).1 t).1
  unfold reader
  rw [h.state_succ ht, h.answer_eq ht]
  exact this

/-- What holds at the start and is kept by every move holds throughout. -/
theorem Fresh.induct (hf : h.Fresh settings) {P : Reader → Prop} (zero : P (h.reader 0))
    (move : ∀ (t : Tick σ) (r r' : Reader) (answer : Option Report),
      r.Regular → r.settings = settings → r'.settings = settings → P r →
        Reader.Move t r r' answer → P r') (j : Nat) : P (h.reader j) := by
  induction j with
  | zero => exact zero
  | succ j ih =>
    cases ht : h.ticks[j]? with
    | none => rw [h.reader_succ_of_none ht]; exact ih
    | some t =>
      exact move _ _ _ _ (hf.regular j).1 (hf.regular j).2 (hf.regular (j + 1)).2 ih (hf.move ht)

end History

end WindowAlign
