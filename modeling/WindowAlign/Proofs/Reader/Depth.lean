import WindowAlign.Proofs.Reader.Retry

/-!
# How many snapshots a reader holds

A cycle adds the snapshot of its bucket to a series before it asks the source, and trims the series
when it is almost done. So a series holds what the settings retain, and what was added since a cycle
last came to its end (`History.Fresh.length_within_arrears`). Nothing bounds the second part: a
source that is down for a number of buckets leaves as many snapshots behind
(`History.Fresh.length_after_failed_reads`).
-/

namespace WindowAlign

namespace Series

theorem length_insertSnapshot (n : Snapshot) (l : List Snapshot) :
    (Store.insertSnapshot n l).length = l.length + 1 := by
  induction l with
  | nil => rfl
  | cons a l ih =>
    unfold Store.insertSnapshot
    split
    · rfl
    · rw [List.length_cons, ih, List.length_cons]

/-- The number of snapshots that opening a window adds. -/
def missing (w : Int) (l : List Snapshot) : Nat :=
  if (at? w l).isSome then 0 else 1

theorem missing_le_one (w : Int) (l : List Snapshot) : missing w l ≤ 1 := by
  unfold missing
  split <;> omega

theorem missing_of_absent {w : Int} {l : List Snapshot} (h : ∀ n ∈ l, n.windowStart ≠ w) :
    missing w l = 1 := by
  rw [missing, at?_eq_none.2 h]
  rfl

theorem length_opened (c : Category) (maxAge w : Int) (l : List Snapshot) :
    (opened c maxAge w l).length = l.length + missing w l := by
  unfold opened missing
  cases at? w l with
  | some n => rfl
  | none => exact length_insertSnapshot _ _

theorem length_load (c : Category) (w : Int) (rows : List Row) (l : List Snapshot) :
    (load c w rows l).length = l.length :=
  List.length_map ..

theorem length_kept (depth : Nat) (l : List Snapshot) :
    (kept depth l).length = min depth l.length := by
  rw [kept, List.length_drop]
  omega

end Series

/-! ## One cycle -/

namespace Reader

variable {σ : Type} {t : Tick σ} {r r' : Reader} {answer : Option Report}

def additions (r : Reader) (now : Int) (c : Category) : Nat :=
  match r.pickBucket now with
  | none => 0
  | some w => Series.missing w (r.series c)

theorem additions_of_none {now : Int} (h : r.pickBucket now = none) (c : Category) :
    r.additions now c = 0 := by
  rw [additions, h]

theorem length_opened {now w : Int} (h : r.pickBucket now = some w) (c : Category) :
    (r.opened w c).length = (r.series c).length + r.additions now c := by
  rw [opened, Series.length_opened, additions, h]

theorem length_loaded {now w : Int} (h : r.pickBucket now = some w) (es : List Event)
    (c : Category) : (r.loaded w es c).length = (r.series c).length + r.additions now c := by
  rw [loaded, Series.length_load, length_opened h]

/-- **What a move does to the length of a series.** The cycle that has trimmed it took a bucket, and
a report that it gives says so. -/
theorem Move.length_series (hm : Move t r r' answer) (c : Category) :
    ((r'.series c).length = (r.series c).length + r.additions t.now c ∧
        ∀ report, answer = some report → report.isIdle = true) ∨
      (r'.series c).length =
          min r.settings.retainDepth ((r.series c).length + r.additions t.now c) ∧
        ∀ report, answer = some report → report.isIdle = false := by
  cases hm with
  | idle pick series last answered =>
    rw [series c, additions_of_none pick]
    refine .inl ⟨rfl, fun report h => ?_⟩
    cases answered.symm.trans h
    rfl
  | failed pick given series last answered =>
    rw [series c, length_opened pick]
    exact .inl ⟨rfl, fun report h => nomatch answered.symm.trans h⟩
  | loaded pick given series last answered =>
    rw [series c, length_loaded pick]
    exact .inl ⟨rfl, fun report h => nomatch answered.symm.trans h⟩
  | trimmed pick given series last answered =>
    rw [series c, Series.length_kept, length_loaded pick]
    refine .inr ⟨rfl, fun report h => ?_⟩
    rw [Report.isIdle, (answered report h).1]
    rfl

end Reader

namespace Session

variable {σ : Type} {s : Session σ} {t : Tick σ}

/-- A cycle that fails before the sink is purged has not trimmed anything. -/
theorem length_of_answer_none (hr : s.reader.Regular) (hport : t.port.Purges)
    (hnone : s.answer t = none) (c : Category) :
    ((s.next t).reader.series c).length =
      (s.reader.series c).length + s.reader.additions t.now c := by
  have hfault : ∃ f s', cycle t.port t.source t.now s = .error f s' ∧
      (s.next t).reader.series c = s'.reader.series c := by
    unfold answer next step at *
    cases hcycle : cycle t.port t.source t.now s with
    | ok report s' => rw [hcycle] at hnone; cases hnone
    | error f s' => exact ⟨f, s', rfl, rfl⟩
  obtain ⟨f, s', hcycle, hseries⟩ := hfault
  rw [hseries]
  cases hpick : s.reader.pickBucket t.now with
  | none => exact nomatch (cycle_of_none hpick t.port t.source).symm.trans hcycle
  | some w =>
    rw [cycle_of_some hpick] at hcycle
    cases hgiven : t.source w with
    | error g =>
      obtain ⟨s1, htake, -, -, -, hopened⟩ := take_of_failed hr hgiven t.port
      cases htake.symm.trans hcycle
      rw [hopened c, Reader.length_opened hpick]
    | ok es =>
      obtain ⟨stats, s1, htake, -, -, -, hload⟩ := take_of_given hr hgiven t.port
      rw [htake] at hcycle
      rcases conclude_cases t.port w (.ofStart w s.reader.settings.interval) stats s1 with
        ⟨g, s2, hend, hreader⟩ | ⟨s2, -, ⟨hnot, -⟩ | ⟨report, hend, -⟩⟩
      · cases hend.symm.trans hcycle
        rw [hreader, hload c, Reader.length_loaded hpick]
      · exact absurd hport hnot
      · exact nomatch hend.symm.trans hcycle

end Session

/-! ## Histories -/

namespace History

variable {σ : Type} {settings : ReaderSettings} {h : History σ}

/-- The cycle `j` has taken a bucket and came to its end. -/
def completes (h : History σ) (j : Nat) : Bool :=
  (h.answer j).any (!·.isIdle)

/-- The number of snapshots that were added to a series since a cycle last took a bucket and came
to its end. -/
def arrears (h : History σ) (c : Category) : Nat → Nat
  | 0 => 0
  | j + 1 =>
    if h.completes j then 0
    else h.arrears c j + ((h.ticks[j]?).elim 0 fun t => (h.reader j).additions t.now c)

theorem arrears_succ (h : History σ) (c : Category) {j : Nat} {t : Tick σ}
    (ht : h.ticks[j]? = some t) : h.arrears c (j + 1) =
      if h.completes j then 0 else h.arrears c j + (h.reader j).additions t.now c := by
  rw [arrears, ht]
  rfl

theorem arrears_succ_of_none (h : History σ) (c : Category) {j : Nat} (ht : h.ticks[j]? = none) :
    h.arrears c (j + 1) = h.arrears c j := by
  rw [arrears, completes, answer, ht]
  rfl

theorem completes_iff {j : Nat} :
    h.completes j = true ↔ ∃ report, h.answer j = some report ∧ report.isIdle = false := by
  simp [completes, Option.any_eq_true]

theorem Fresh.length_le (hf : h.Fresh settings) (c : Category) (j : Nat) :
    (h.series j c).length ≤ settings.retainDepth + h.arrears c j := by
  induction j with
  | zero => simp [hf.series_zero c]
  | succ j ih =>
    cases ht : h.ticks[j]? with
    | none => rwa [h.series_succ_of_none ht, h.arrears_succ_of_none c ht]
    | some t =>
      have hlength := (hf.move ht).length_series c
      rw [(hf.regular j).2] at hlength
      rw [h.arrears_succ c ht]
      unfold series at ih ⊢
      rcases hlength with ⟨hlength, hidle⟩ | ⟨hlength, -⟩
      · have hnot : ¬ h.completes j = true := fun hcompletes => by
          obtain ⟨report, hanswer, hbusy⟩ := completes_iff.1 hcompletes
          rw [hidle report hanswer] at hbusy
          cases hbusy
        rw [hlength, if_neg hnot]
        omega
      · rw [hlength]
        omega

/-- If purging the sink never fails, a series holds what was added since a cycle last came to its
end. -/
theorem Fresh.arrears_le (hf : h.Fresh settings) (hports : ∀ t ∈ h.ticks, t.port.Purges)
    (c : Category) (j : Nat) : h.arrears c j ≤ (h.series j c).length := by
  induction j with
  | zero => exact Nat.zero_le _
  | succ j ih =>
    cases ht : h.ticks[j]? with
    | none => rwa [h.series_succ_of_none ht, h.arrears_succ_of_none c ht]
    | some t =>
      rw [h.arrears_succ c ht]
      split
      · exact Nat.zero_le _
      rename_i hnot
      -- a cycle that does not come to its end is idle or fails, and trims nothing in either case
      suffices hgrown : (h.series (j + 1) c).length =
          (h.series j c).length + (h.reader j).additions t.now c by omega
      cases hanswer : h.answer j with
      | none =>
        rw [h.answer_eq ht] at hanswer
        unfold series reader
        rw [h.state_succ ht]
        exact Session.length_of_answer_none (hf.regular j).1 (hports t (List.mem_of_getElem? ht))
          hanswer c
      | some report =>
        rcases (hf.move ht).length_series c with ⟨hlength, -⟩ | ⟨-, hbusy⟩
        · exact hlength
        · exact absurd (completes_iff.2 ⟨report, hanswer, hbusy report hanswer⟩) hnot

/-- **How many snapshots a series holds, whatever fails.** Between two cycles it holds no more than
is retained and what was added since a cycle last came to its end, and while a cycle is under way one
more. If purging the sink never fails, what was added since is all there. -/
theorem Fresh.length_within_arrears (hf : h.Fresh settings) (c : Category) (j : Nat) :
    (h.series j c).length ≤ settings.retainDepth + h.arrears c j ∧
      (∀ w, ((h.reader j).opened w c).length ≤ settings.retainDepth + h.arrears c j + 1) ∧
      ((∀ t ∈ h.ticks, t.port.Purges) → h.arrears c j ≤ (h.series j c).length) := by
  refine ⟨hf.length_le c j, fun w => ?_, fun hports => hf.arrears_le hports c j⟩
  have hbetween := hf.length_le c j
  have hone := Series.missing_le_one w (h.series j c)
  rw [Reader.opened, Series.length_opened]
  unfold series at hbetween hone
  omega

/-- The reads of six buckets in a row fail, and all six snapshots are held, although four are
retained. -/
theorem length_within_arrears_outage :
    let run := interrupted (fun _ => []) ([15000, 20000, 25000, 30000, 35000, 40000].map (·, true))
    run.Fresh .defaults ∧
      ReaderSettings.defaults.retainDepth + 1 < (run.series 6 .osMetrics).length := by
  intro run
  have hf : run.Fresh .defaults := interrupted_fresh _ _
  have harrears : run.arrears .osMetrics 6 = 6 := by decide +kernel
  have hports : ∀ t ∈ run.ticks, t.port.Purges := fun t ht => by
    obtain ⟨_, -, rfl⟩ := List.mem_map.1 ht
    exact SinkPort.silent_healthy.purge
  obtain ⟨-, -, hall⟩ := hf.length_within_arrears .osMetrics 6
  have hheld := hall hports
  rw [harrears] at hheld
  exact ⟨hf, hheld⟩

theorem Fresh.series_of_failsToRead (hf : h.Fresh settings) {j : Nat} {w : Int}
    (hfails : h.FailsToRead j w) (c : Category) : h.series (j + 1) c = (h.reader j).opened w c := by
  obtain ⟨t, f, ht, hpick, hgiven⟩ := hfails
  cases hf.move ht with
  | idle pick => exact nomatch hpick.symm.trans pick
  | failed pick given series =>
    cases hpick.symm.trans pick
    exact series c
  | loaded pick given =>
    cases hpick.symm.trans pick
    exact nomatch hgiven.symm.trans given
  | trimmed pick given =>
    cases hpick.symm.trans pick
    exact nomatch hgiven.symm.trans given

/-- **A series grows with every bucket whose read fails**, and by as much. -/
theorem Fresh.length_after_failed_reads (hf : h.Fresh settings) {i : Nat} {w : Nat → Int}
    (hw : ∀ l m, l < m → w l < w m) (c : Category) (n : Nat)
    (hfails : ∀ m < n, h.FailsToRead (i + m) (w m))
    (hnew : ∀ m < n, ∀ s ∈ h.series i c, s.windowStart ≠ w m) :
    (h.series (i + n) c).length = (h.series i c).length + n ∧
      ∀ s ∈ h.series (i + n) c, s ∈ h.series i c ∨ ∃ m < n, s.windowStart = w m := by
  induction n with
  | zero => exact ⟨rfl, fun s hs => .inl hs⟩
  | succ n ih =>
    obtain ⟨hlength, hmem⟩ := ih (fun m hm => hfails m (by omega)) fun m hm => hnew m (by omega)
    have hopened : h.series (i + (n + 1)) c = (h.reader (i + n)).opened (w n) c :=
      hf.series_of_failsToRead (hfails n (Nat.lt_succ_self n)) c
    have habsent : ∀ s ∈ h.series (i + n) c, s.windowStart ≠ w n := by
      intro s hs
      rcases hmem s hs with hs | ⟨m, hm, e⟩
      · exact hnew n (Nat.lt_succ_self n) s hs
      · -- the buckets ascend, so none of the failed reads had this one
        have := hw m n hm
        omega
    rw [hopened]
    refine ⟨?_, fun s hs => ?_⟩
    · rw [Reader.opened, Series.length_opened]
      show (h.series (i + n) c).length + Series.missing (w n) (h.series (i + n) c) = _
      rw [hlength, Series.missing_of_absent habsent, Nat.add_assoc]
    · rcases Series.mem_opened.1 hs with hs | ⟨-, rfl⟩
      · rcases hmem s hs with hs | ⟨m, hm, e⟩
        · exact .inl hs
        · exact .inr ⟨m, by omega, e⟩
      · exact .inr ⟨n, Nat.lt_succ_self n, rfl⟩

end History

end WindowAlign
