import WindowAlign.Proofs.Reader.Offers

/-!
# How the reader advances

Whatever the clock shows and whatever fails, a reader moves on from bucket to bucket and never comes
back: a bucket is taken only if it is later than the one that was dispatched last, and a dispatch is
remembered at once, before anything that follows can fail. So the dispatched buckets ascend
(`History.Fresh.buckets_ascend`), and what is offered to the sink in different cycles is about
different windows (`History.Fresh.offered_nodup`).
-/

namespace WindowAlign

/-- A step that takes no bucket only resets the number of failures. -/
theorem Session.step_of_none {σ : Type} {s : Session σ} {now : Int}
    (h : s.reader.pickBucket now = none) (port : SinkPort σ) (source : Source) :
    s.step port source now = (some .idle, s.setFailures 0) := by
  unfold step
  rw [cycle_of_none h]

/-! ## The metrics that are offered -/

def SinkCall.metrics? : SinkCall → Option (Category × Int)
  | metrics c start _ => some (c, start)
  | members _ _ => none
  | purge _ => none

theorem SinkCall.start?_of_metrics? {x : SinkCall} {k : Category × Int}
    (h : x.metrics? = some k) : x.start? = some k.2 := by
  cases x <;> cases h
  rfl

theorem Category.metrics_nodup : Category.metrics.Nodup := by decide

namespace Reader

theorem metrics?_of_offer? {r : Reader} {w : Window} {c : Category} {k : Category × Int}
    (h : (r.offer? w c).bind SinkCall.metrics? = some k) : k.1 = c := by
  unfold offer? at h
  split at h
  · cases h
    rfl
  · cases h

theorem plan_nodup (r : Reader) (source : Source) (now : Int) :
    ((r.plan source now).filterMap SinkCall.metrics?).Nodup := by
  have hcalls : ∀ (r : Reader) w, ((r.calls w).filterMap SinkCall.metrics?).Nodup := by
    intro r w
    have hmembers : (r.memberCalls w).filterMap SinkCall.metrics? = [] := by
      unfold memberCalls
      split <;> rfl
    have hpurge : (r.purgeCalls w).filterMap SinkCall.metrics? = [] := by
      unfold purgeCalls
      cases r.retention <;> rfl
    rw [calls, List.filterMap_append, List.filterMap_append, hmembers, hpurge, List.append_nil,
      List.append_nil, List.filterMap_filterMap]
    exact Category.metrics_nodup.filterMap fun c d k hc hd =>
      (metrics?_of_offer? hc).symm.trans (metrics?_of_offer? hd)
  unfold plan
  split
  · exact List.nodup_nil
  · split
    · exact List.nodup_nil
    · exact hcalls _ _

end Reader

namespace History

variable {σ : Type} {settings : ReaderSettings} {h : History σ} {j : Nat}

/-- The bucket that the cycle `j` has dispatched, if it has. -/
def dispatched? (h : History σ) (j : Nat) : Option Int :=
  (h.ticks[j]?).bind fun t => ((h.reader j).pickBucket t.now).bind fun w =>
    ((Intake.run t.source (.ofStart w (h.reader j).settings.interval)).outcome
      (h.reader j).intake).1.toOption.map fun _ => w

/-- The buckets that the first cycles have dispatched. -/
def buckets (h : History σ) (j : Nat) : List Int :=
  (List.range j).filterMap h.dispatched?

/-- The categories and windows for which the first cycles have offered metrics. -/
def offered (h : History σ) (j : Nat) : List (Category × Int) :=
  (List.range j).flatMap fun i => (h.calls i).filterMap SinkCall.metrics?

theorem Fresh.dispatched?_eq_some (hf : h.Fresh settings) {w : Int} :
    h.dispatched? j = some w ↔ ∃ es, h.Dispatches j w es := by
  unfold dispatched? Dispatches
  constructor
  · intro hd
    obtain ⟨t, ht, hd⟩ := Option.bind_eq_some_iff.1 hd
    obtain ⟨v, hpick, hd⟩ := Option.bind_eq_some_iff.1 hd
    obtain ⟨stats, hrun, rfl⟩ := Option.map_eq_some_iff.1 hd
    cases hgiven : t.source v with
    | ok es => exact ⟨es, t, ht, hpick, hgiven⟩
    | error f =>
      rw [Action.outcome, Intake.run_error hgiven] at hrun
      cases hrun
  · rintro ⟨es, t, ht, hpick, hgiven⟩
    obtain ⟨stats, i, hrun, -⟩ := (hf.regular j).1.run_ok w hgiven
    rw [ht, Option.bind_some, hpick, Option.bind_some, Action.outcome, hrun]
    rfl

theorem buckets_succ (h : History σ) (j : Nat) :
    h.buckets (j + 1) = h.buckets j ++ (h.dispatched? j).toList := by
  rw [buckets, List.range_succ, List.filterMap_append]
  cases hd : h.dispatched? j <;> simp [buckets, hd]

theorem Fresh.buckets_ascend (hf : h.Fresh settings) (j : Nat) :
    (h.buckets j).Pairwise (· < ·) := by
  refine List.pairwise_filterMap.2 (List.pairwise_lt_range.imp fun {i m} him u hu w hw => ?_)
  obtain ⟨es, hi⟩ := hf.dispatched?_eq_some.1 hu
  obtain ⟨es', hm⟩ := hf.dispatched?_eq_some.1 hw
  exact hf.dispatched_lt him hi hm.picks

theorem Fresh.lastBucket_eq (hf : h.Fresh settings) (j : Nat) :
    (h.reader j).lastBucket = (h.buckets j).getLast? := by
  induction j with
  | zero => exact (Reader.Fresh.spec hf).2.2.1
  | succ j ih =>
    rw [h.buckets_succ]
    cases hd : h.dispatched? j with
    | some w =>
      obtain ⟨es, hdispatch⟩ := hf.dispatched?_eq_some.1 hd
      rw [(hf.dispatched hdispatch).1, Option.toList_some, List.getLast?_concat]
    | none =>
      have hnot : ∀ w es, ¬ h.Dispatches j w es := fun w es hdispatch => by
        rw [hf.dispatched?_eq_some.2 ⟨es, hdispatch⟩] at hd
        cases hd
      rw [Option.toList_none, List.append_nil, ← ih]
      cases ht : h.ticks[j]? with
      | none => rw [h.reader_succ_of_none ht]
      | some t =>
        cases hf.move ht with
        | idle pick series last => exact last
        | failed pick given series last => exact last
        | loaded pick given => exact absurd ⟨t, ht, pick, given⟩ (hnot _ _)
        | trimmed pick given => exact absurd ⟨t, ht, pick, given⟩ (hnot _ _)

/-- A cycle that calls its sink has dispatched a bucket, and its calls are about the window before
it. -/
theorem Fresh.dispatches_of_mem_calls (hf : h.Fresh settings) {x : SinkCall} (hx : x ∈ h.calls j) :
    ∃ w es, h.Dispatches j w es ∧ ∀ a, x.start? = some a → a = w - settings.interval := by
  cases ht : h.ticks[j]? with
  | none =>
    rw [calls, ht] at hx
    cases hx
  | some t =>
    have hplan := (calls_spec ht).1.subset hx
    obtain ⟨w, hpick, hstart⟩ := Reader.exists_of_mem_plan hplan
    rw [(hf.regular j).2] at hstart
    cases hgiven : t.source w with
    | ok es => exact ⟨w, es, ⟨t, ht, hpick, hgiven⟩, hstart⟩
    | error f =>
      have hrun := Intake.run_error (w := .ofStart w (h.reader j).settings.interval)
        (i := (h.reader j).intake) hgiven
      unfold Reader.plan at hplan
      simp only [hpick, hrun] at hplan
      cases hplan

/-- **No category is offered twice for one window.** -/
theorem Fresh.offered_nodup (hf : h.Fresh settings) (j : Nat) : (h.offered j).Nodup := by
  refine List.nodup_flatMap.2
    ⟨fun i _ => ?_, List.pairwise_lt_range.imp fun {i m} him k hi hm => ?_⟩
  · cases ht : h.ticks[i]? with
    | none =>
      rw [calls, ht]
      exact List.nodup_nil
    | some t =>
      exact ((h.reader i).plan_nodup t.source t.now).sublist
        ((calls_spec ht).1.sublist.filterMap _)
  · obtain ⟨x, hx, hxk⟩ := List.mem_filterMap.1 hi
    obtain ⟨y, hy, hyk⟩ := List.mem_filterMap.1 hm
    obtain ⟨w, es, hd, hstart⟩ := hf.dispatches_of_mem_calls hx
    have hlt := hf.start_lt_of_dispatched hd him hy (SinkCall.start?_of_metrics? hyk)
    rw [hstart _ (SinkCall.start?_of_metrics? hxk)] at hlt
    exact absurd hlt (Int.lt_irrefl _)

/-- **The reader advances, and offers each window once.** A bucket that is dispatched is the last grid
point that is not later than the clock of its cycle less the lag. The dispatched buckets ascend, the
latest is the one that is remembered, and a step for which no later one is due only resets the number
of failures. No two offers of metrics are about one category and one window. -/
theorem Fresh.buckets_advance (hf : h.Fresh settings) (hi : 0 < settings.interval) :
    (∀ j w, h.dispatched? j = some w → ∃ t, h.ticks[j]? = some t ∧ settings.interval ∣ w ∧
      w ≤ t.now - settings.writerLag ∧ t.now - settings.writerLag < w + settings.interval) ∧
    (∀ j, (h.buckets j).Pairwise (· < ·)) ∧
    (∀ j, (h.reader j).lastBucket = (h.buckets j).getLast?) ∧
    (∀ j last now, (h.buckets j).getLast? = some last →
      alignDown (now - settings.writerLag) settings.interval ≤ last →
      ∀ port source, (h.state j).step port source now =
        (some .idle, (h.state j).setFailures 0)) ∧
    ∀ j, (h.offered j).Nodup := by
  refine ⟨fun j w hw => ?_, hf.buckets_ascend, hf.lastBucket_eq, fun j last now hlast hle => ?_,
    hf.offered_nodup⟩
  · obtain ⟨es, t, ht, hpick, -⟩ := hf.dispatched?_eq_some.1 hw
    obtain ⟨hdue, -⟩ := Reader.pickBucket_eq_some.1 hpick
    unfold Reader.due at hdue
    rw [(hf.regular j).2] at hdue
    subst hdue
    exact ⟨t, ht, dvd_alignDown _ _, alignDown_le hi _, lt_alignDown_add hi _⟩
  · refine Session.step_of_none (Reader.pickBucket_eq_none.2 ⟨last, ?_, ?_⟩)
    · exact (hf.lastBucket_eq j).trans hlast
    · rw [← (hf.regular j).2] at hle
      exact hle

/-- The sink refuses what it is offered for the bucket 5000, then the clock goes back and shows again
the time of that cycle. -/
theorem buckets_advance_clockRegression :
    let source : Source := fun w => .ok (shortRequest w)
    let run : History Unit := ⟨(replay shortRequest []).start, [⟨.silent, source, 15000⟩,
      ⟨refusing, source, 20000⟩, ⟨.silent, source, 12000⟩, ⟨.silent, source, 20000⟩]⟩
    run.Fresh .defaults ∧ 0 < ReaderSettings.defaults.interval ∧ run.buckets 4 = [0, 5000] ∧
      run.offered 4 = [(.httpRequests, 0)] ∧ (run.reader 4).lastBucket = some 5000 ∧
      (run.state 2).step .silent source 12000 = (some .idle, (run.state 2).setFailures 0) := by
  intro source run
  have hf : run.Fresh .defaults := .plain rfl
  have hi : 0 < ReaderSettings.defaults.interval := by decide
  have htwo : run.buckets 2 = [0, 5000] := by decide +kernel
  have hall : run.buckets 4 = [0, 5000] := by decide +kernel
  obtain ⟨-, -, hlast, hidle, -⟩ := hf.buckets_advance hi
  refine ⟨hf, hi, hall, by decide +kernel, ?_, ?_⟩
  · rw [hlast 4, hall]
    rfl
  · exact hidle 2 5000 12000 (by rw [htwo]; rfl) (by decide) .silent source

end History

end WindowAlign
