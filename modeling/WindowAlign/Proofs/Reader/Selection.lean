import WindowAlign.Alignment
import WindowAlign.Proofs.Reader.Placement

/-!
# Which snapshots cover a window

After the bucket `w` was dispatched the reader window that ends at `w` is aligned. On the series
that a reader can come to have, the search of alignment is settled by two snapshots, those of the
window `w` and of the one before (`Series.selection`). The grid leaves nothing between them, and a
snapshot after `w` exists only where a dispatch failed and the clock then went back. The right
snapshot always ends late enough, so the tolerance for a stale one is never asked for as long as adding
it to that end does not overflow (`Series.Tolerates`).
-/

namespace WindowAlign

namespace Series

/-- The end of the snapshot of a window, if it was written to. -/
def observedEnd? (w : Int) (l : List Snapshot) : Option Int :=
  (at? w l).bind (·.writerEnd)

/-- The first snapshot after a window. -/
def after? (w : Int) (l : List Snapshot) : Option Snapshot :=
  l.find? (w < ·.windowStart)

/-- The bounds of the snapshot of a window. -/
def boundsAt (i w : Int) (l : List Snapshot) : WriterWindow :=
  ((at? w l).getD (.fresh w)).writerWindow i

/-- The snapshots that cover the reader window from `w - i` to `w`, or why there are none: the
snapshot of that window straddles its end together with the next one; without it the snapshot of
`w` counts alone where it ends after `w`, and together with a later one where it ends at `w`. -/
def selection (depth : Nat) (i w : Int) (l : List Snapshot) : Except Skip Selection :=
  if l.length < depth then .error (.insufficientHistory l.length depth)
  else
    match observedEnd? (w - i) l, observedEnd? w l with
    | some t, _ => .ok (.straddle ⟨w - i, t, true⟩ (boundsAt i w l))
    | none, some t =>
      if w < t then .ok (.left ⟨w, t, true⟩)
      else
        match after? w l with
        | none => .error .rightNotReady
        | some n => .ok (.straddle ⟨w, t, true⟩ (n.writerWindow i))
    | none, none => .error .noSnapshotAfterStart

/-- The tolerance can be added to the end of every snapshot from the window `w` on. -/
def Tolerates (tolerance i w : Int) (l : List Snapshot) : Prop :=
  ∀ n ∈ l, w ≤ n.windowStart → Signed64.fits ((n.writerWindow i).stop + tolerance) = true

variable {c : Category} {i w : Int} {l : List Snapshot} {n : Snapshot}

theorem observedEnd?_eq_some (h : Ascending l) {t : Int} :
    observedEnd? w l = some t ↔ ∃ n ∈ l, n.windowStart = w ∧ n.writerEnd = some t := by
  unfold observedEnd?
  rw [Option.bind_eq_some_iff]
  constructor
  · rintro ⟨n, hn, ht⟩
    obtain ⟨hmem, hw⟩ := (at?_eq_some h).1 hn
    exact ⟨n, hmem, hw, ht⟩
  · rintro ⟨n, hmem, hw, ht⟩
    exact ⟨n, (at?_eq_some h).2 ⟨hmem, hw⟩, ht⟩

theorem boundsAt_of_mem (h : Ascending l) (hn : n ∈ l) (hw : n.windowStart = w) :
    boundsAt i w l = n.writerWindow i := by
  rw [boundsAt, (at?_eq_some h).2 ⟨hn, hw⟩, Option.getD_some]

theorem writerWindow_observed (i : Int) {t : Int} (ht : n.writerEnd = some t) :
    n.writerWindow i = ⟨n.windowStart, t, true⟩ := by
  simp [Snapshot.writerWindow, Snapshot.windowEnd, ht]

theorem dropWhile_passed {a : Int} {before : List Snapshot}
    (h : ∀ m ∈ before, AlignmentPolicy.canBeLeft a (m.writerWindow i) = false)
    (rest : List WriterWindow) :
    (before.map (·.writerWindow i) ++ rest).dropWhile
        (fun x => !AlignmentPolicy.canBeLeft a x) =
      rest.dropWhile fun x => !AlignmentPolicy.canBeLeft a x := by
  refine List.dropWhile_append_of_pos fun x hx => ?_
  obtain ⟨m, hm, rfl⟩ := List.mem_map.1 hx
  rw [h m hm]; rfl

theorem canBeLeft_of_not_observed {a : Int} (h : n.writerEnd = none) :
    AlignmentPolicy.canBeLeft a (n.writerWindow i) = false := by
  simp [AlignmentPolicy.canBeLeft, Snapshot.writerWindow, h]

theorem canBeLeft_of_end_lt {a t : Int} (h : n.writerEnd = some t) (ht : t < a) :
    AlignmentPolicy.canBeLeft a (n.writerWindow i) = false := by
  rw [writerWindow_observed i h]
  simp only [AlignmentPolicy.canBeLeft, Bool.true_and, decide_eq_false_iff_not]
  omega

theorem canBeLeft_of_le_end {a t : Int} (h : n.writerEnd = some t) (ht : a ≤ t) :
    AlignmentPolicy.canBeLeft a (n.writerWindow i) = true := by
  rw [writerWindow_observed i h]
  simp [AlignmentPolicy.canBeLeft, ht]

theorem Placed.canBeLeft_before (h : Placed c i l) (hw : i ∣ w) (hn : n ∈ l)
    (hlt : n.windowStart < w) (hne : n.windowStart ≠ w - i ∨ n.writerEnd = none) :
    AlignmentPolicy.canBeLeft (w - i) (n.writerWindow i) = false := by
  cases ht : n.writerEnd with
  | none => exact canBeLeft_of_not_observed ht
  | some t =>
    obtain ⟨h1, h2⟩ := h.observed n hn t ht
    have hgrid := add_le_of_lt_of_dvd (h.grid n hn) hw hlt
    -- `n` ends inside its own window, and on the grid that window is before `w - i`
    refine canBeLeft_of_end_lt ht ?_
    rcases hne with hne | hne
    · have := add_le_of_lt_of_dvd (h.grid n hn) (Int.dvd_sub hw (Int.dvd_refl i))
        (show n.windowStart < w - i by omega)
      omega
    · rw [ht] at hne; cases hne

theorem le_stop (h : Placed c i l) (hn : n ∈ l) (hi : 0 < i) :
    n.windowStart ≤ (n.writerWindow i).stop := by
  unfold Snapshot.writerWindow Snapshot.windowEnd
  cases ht : n.writerEnd with
  | none => simp only [Option.getD_none]; omega
  | some t => simpa using (h.observed n hn t ht).1

/-- The snapshot before `w` is the left one where it was written to: the grid leaves no other
between it and the snapshot of `w`. -/
theorem dropWhile_previous (h : Placed c i l) (ha : Ascending l) (hw : i ∣ w) (hn : n ∈ l)
    (hnw : n.windowStart = w) {m : Snapshot} (hm : m ∈ l) (hmw : m.windowStart = w - i) {t : Int}
    (hmt : m.writerEnd = some t) :
    ∃ rest, (l.map (·.writerWindow i)).dropWhile
        (fun x => !AlignmentPolicy.canBeLeft (w - i) x) =
      m.writerWindow i :: n.writerWindow i :: rest := by
  obtain ⟨ht1, ht2⟩ := h.observed m hm t hmt
  obtain ⟨before, after, rfl, hbefore, hafter⟩ := ha.split hm
  have hskip : ∀ k ∈ before, AlignmentPolicy.canBeLeft (w - i) (k.writerWindow i) = false :=
    fun k hk => h.canBeLeft_before hw (by simp [hk])
      (by have := hbefore k hk; omega) (.inl (by have := hbefore k hk; omega))
  have hna : n ∈ after := by
    rcases List.mem_append.1 hn with hn | hn
    · have := hbefore n hn; omega
    · rcases List.mem_cons.1 hn with rfl | hn
      · omega
      · exact hn
  obtain ⟨between, rest, rfl, hbetween, -⟩ :=
    Ascending.split (List.pairwise_cons.1 (List.pairwise_append.1 ha).2.1).2 hna
  have hnone : between = [] := by
    refine List.eq_nil_iff_forall_not_mem.2 fun k hk => ?_
    have h1 := hafter k (by simp [hk])
    have h2 := hbetween k hk
    have h3 := add_le_of_lt_of_dvd (h.grid m (by simp)) (h.grid k (by simp [hk])) h1
    omega
  subst hnone
  refine ⟨rest.map (·.writerWindow i), ?_⟩
  simp only [List.map_append, List.map_cons, List.nil_append]
  rw [dropWhile_passed hskip, List.dropWhile_cons_of_neg]
  rw [canBeLeft_of_le_end hmt (by omega)]
  decide

theorem dropWhile_own (h : Placed c i l) (ha : Ascending l) (hw : i ∣ w) (hn : n ∈ l)
    (hnw : n.windowStart = w) (hprev : observedEnd? (w - i) l = none) :
    ∃ after, (∀ m ∈ after, m ∈ l ∧ w < m.windowStart) ∧ after? w l = after.head? ∧
      (l.map (·.writerWindow i)).dropWhile (fun x => !AlignmentPolicy.canBeLeft (w - i) x) =
        ((n :: after).map (·.writerWindow i)).dropWhile
          (fun x => !AlignmentPolicy.canBeLeft (w - i) x) := by
  obtain ⟨before, after, hl, hbefore, hafter⟩ := ha.split hn
  refine ⟨after, fun m hm => ⟨by simp [hl, hm], hnw ▸ hafter m hm⟩, ?_, ?_⟩
  · rw [after?, hl, List.find?_append, List.find?_eq_none.2 (fun k hk => by
      have := hbefore k hk; simp only [decide_eq_true_eq]; omega), Option.none_or,
      List.find?_cons_of_neg (by simp only [decide_eq_true_eq]; omega)]
    cases after with
    | nil => rfl
    | cons k after =>
      exact List.find?_cons_of_pos (by
        have := hafter k List.mem_cons_self; simp only [decide_eq_true_eq]; omega)
  · have hskip : ∀ k ∈ before, AlignmentPolicy.canBeLeft (w - i) (k.writerWindow i) = false := by
      intro k hk
      have hkl : k ∈ l := by simp [hl, hk]
      refine h.canBeLeft_before hw hkl (by have := hbefore k hk; omega) ?_
      by_cases hkw : k.windowStart = w - i
      · refine .inr (Option.eq_none_iff_forall_ne_some.2 fun t hk' => ?_)
        have := (observedEnd?_eq_some ha).2 ⟨k, hkl, hkw, hk'⟩
        rw [hprev] at this
        cases this
      · exact .inl hkw
    rw [hl, List.map_append, dropWhile_passed hskip]

/-- Without the snapshot before `w` and with that of `w` not written to the search is in vain, since
no later one was written to. -/
theorem dropWhile_none (h : Placed c i l) (ha : Ascending l) (hw : i ∣ w) (hn : n ∈ l)
    (hnw : n.windowStart = w) (hprev : observedEnd? (w - i) l = none) (hend : n.writerEnd = none)
    (hlate : ∀ m ∈ l, m.writerEnd.isSome = true → m.windowStart ≤ w) :
    (l.map (·.writerWindow i)).dropWhile
      (fun x => !AlignmentPolicy.canBeLeft (w - i) x) = [] := by
  obtain ⟨after, hafter, -, hdrop⟩ := dropWhile_own h ha hw hn hnw hprev
  have hrest : ∀ k ∈ n :: after,
      AlignmentPolicy.canBeLeft (w - i) (k.writerWindow i) = false := by
    intro k hk
    rcases List.mem_cons.1 hk with rfl | hk
    · exact canBeLeft_of_not_observed hend
    · obtain ⟨hkl, hlt⟩ := hafter k hk
      refine canBeLeft_of_not_observed (Option.eq_none_iff_forall_ne_some.2 fun t ht => ?_)
      have := hlate k hkl (by rw [ht]; rfl)
      omega
  have hall := dropWhile_passed hrest []
  rw [List.append_nil] at hall
  rw [hdrop, hall]
  rfl

/-- A snapshot of the window before `w` that was written to is the left one, and that of `w` is the
right one, unless the policy finds it stale. -/
theorem select_straddle (p : AlignmentPolicy) (h : Placed c i l) (ha : Ascending l) (hw : i ∣ w)
    (hn : n ∈ l) (hnw : n.windowStart = w) {m : Snapshot} (hm : m ∈ l)
    (hmw : m.windowStart = w - i) {t : Int} (hmt : m.writerEnd = some t)
    (hdeep : p.minDepth ≤ l.length) :
    p.select (l.map (·.writerWindow i)) ⟨w - i, w⟩ =
      if Signed64.add (n.writerWindow i).stop p.staleTolerance < w then
        .error (.staleRight (n.writerWindow i).stop w)
      else .ok (.straddle (m.writerWindow i) (n.writerWindow i)) := by
  obtain ⟨-, ht⟩ := h.observed m hm t hmt
  obtain ⟨rest, hdrop⟩ := dropWhile_previous h ha hw hn hnw hm hmw hmt
  have hcut : ¬ w < (m.writerWindow i).stop := by
    rw [writerWindow_observed i hmt]
    simp only
    omega
  unfold AlignmentPolicy.select
  rw [List.length_map, if_neg (by omega), hdrop]
  simp only
  rw [if_neg hcut]

/-- **The search of alignment is settled by two snapshots.** -/
theorem select_eq (depth : Nat) {tolerance : Int} (htol : 0 ≤ tolerance)
    (hfits : Tolerates tolerance i w l) (h : Placed c i l) (ha : Ascending l) (hw : i ∣ w)
    (hn : n ∈ l) (hnw : n.windowStart = w)
    (hlate : ∀ m ∈ l, m.writerEnd.isSome = true → m.windowStart ≤ w) :
    AlignmentPolicy.select ⟨depth, tolerance⟩ (l.map (·.writerWindow i)) ⟨w - i, w⟩ =
      selection depth i w l := by
  by_cases hdeep : l.length < depth
  · rw [AlignmentPolicy.select, selection, List.length_map, if_pos hdeep, if_pos hdeep]
  rw [selection, if_neg hdeep]
  cases hprev : observedEnd? (w - i) l with
  | some t =>
    obtain ⟨m, hm, hmw, hmt⟩ := (observedEnd?_eq_some ha).1 hprev
    obtain ⟨ht1, ht2⟩ := h.observed m hm t hmt
    have hright := le_stop h hn (by omega)
    rw [select_straddle ⟨depth, tolerance⟩ h ha hw hn hnw hm hmw hmt (Nat.le_of_not_lt hdeep),
      boundsAt_of_mem ha hn hnw, writerWindow_observed i hmt, hmw,
      Signed64.add_of_fits (hfits n hn (by omega))]
    simp only
    rw [if_neg (by omega)]
  | none =>
    rw [AlignmentPolicy.select, List.length_map, if_neg hdeep]
    simp only
    cases hend : n.writerEnd with
    | some t =>
      obtain ⟨after, hafter, hafter?, hdrop⟩ := dropWhile_own h ha hw hn hnw hprev
      obtain ⟨ht1, ht2⟩ := h.observed n hn t hend
      rw [hdrop, hafter?, (observedEnd?_eq_some ha).2 ⟨n, hn, hnw, hend⟩, List.map_cons,
        List.dropWhile_cons_of_neg (by rw [canBeLeft_of_le_end hend (by omega)]; decide),
        writerWindow_observed i hend, hnw]
      simp only
      split
      · rfl
      cases after with
      | nil => rfl
      | cons k after =>
        obtain ⟨hk, hlt⟩ := hafter k List.mem_cons_self
        have := le_stop h hk (by omega)
        simp only [List.map_cons, List.head?_cons]
        rw [Signed64.add_of_fits (hfits k hk (by omega)), if_neg (by omega)]
    | none =>
      have hnot : observedEnd? w l = none := by
        rw [observedEnd?, (at?_eq_some ha).2 ⟨hn, hnw⟩]
        exact hend
      rw [dropWhile_none h ha hw hn hnw hprev hend hlate, hnot]

/-- No choice among the snapshots of a reader finds the right one stale. -/
theorem selection_ne_staleRight (depth : Nat) (i w a b : Int) (l : List Snapshot) :
    selection depth i w l ≠ .error (.staleRight a b) := by
  unfold selection
  split
  · intro h; cases h
  split
  · intro h; cases h
  · split
    · intro h; cases h
    · split <;> intro h <;> cases h
  · intro h; cases h

end Series

theorem Window.previous_ofStart (w i : Int) : (Window.ofStart w i).previous = ⟨w - i, w⟩ := by
  have : w - (w + i - w) = w - i := by omega
  simp only [Window.previous, Window.ofStart, Window.length, this]

theorem ReaderSettings.tolerance_nonneg {settings : ReaderSettings}
    (h : settings.staleTolerance ≤ Signed64.greatest) : 0 ≤ settings.tolerance := by
  unfold Signed64.greatest at h
  unfold tolerance Signed64.wrap
  rw [Int.bmod_def]
  omega

/-- What alignment answers for a category whose series is `l`, once the bucket `w` was dispatched. A
snapshot of the window before `w` ends in that window, one of `w` not before `w`, and a later one
was never written to. -/
structure Selects (settings : ReaderSettings) (w : Int) (l : List Snapshot)
    (answer : Except Skip Selection) : Prop where
  chosen : answer = Series.selection settings.alignmentDepth settings.interval w l
  previous : ∀ t, Series.observedEnd? (w - settings.interval) l = some t →
    w - settings.interval ≤ t ∧ t < w
  own : ∀ t, Series.observedEnd? w l = some t → w ≤ t
  later : ∀ n, Series.after? w l = some n → n.writerEnd = none
  fresh : ∀ rightEnd windowEnd, answer ≠ .error (.staleRight rightEnd windowEnd)

namespace History

variable {σ : Type} {settings : ReaderSettings} {h : History σ}

/-- **What alignment chooses after a dispatch, in every reachable state**, where adding the tolerance
does not overflow. -/
theorem Fresh.selection_exact (hf : h.Fresh settings) (ht : settings.staleTolerance ≤ Signed64.greatest)
    {j : Nat} {w : Int} {es : List Event} (hd : h.Dispatches j w es) :
    ∃ tick stats after, h.ticks[j]? = some tick ∧
      Intake.run tick.source (.ofStart w settings.interval) (h.reader j).intake =
        .ok stats after ∧
      ∀ c, Series.Tolerates settings.tolerance settings.interval w (after.store.snapshots c) →
        Selects settings w (after.store.snapshots c)
          ((h.reader j).policy.select (after.store.writerWindows c)
            (Window.ofStart w settings.interval).previous) := by
  obtain ⟨tick, htick, hpick, hgiven⟩ := hd
  obtain ⟨hreg, hset⟩ := hf.regular j
  obtain ⟨hplaced, htaken⟩ := hf.placed j
  subst hset
  obtain ⟨stats, after, hrun, hreg', -, hload⟩ := hreg.run_ok w hgiven
  refine ⟨tick, stats, after, htick, hrun, fun c hfits => ?_⟩
  have hpl := Reader.loaded_placed hreg (Reader.dvd_of_pickBucket hpick) hplaced es c
  have hlate := Reader.loaded_taken htaken hpick es c
  have hsound := Reader.loaded_sound hreg w es c
  obtain ⟨n, hn, hnw⟩ := (h.reader j).exists_mem_loaded w es c
  rw [← hload c] at hpl hlate hsound hn
  have ha := hsound.ascending
  have hint := hreg'.interval
  simp only at hint
  have htol := ReaderSettings.tolerance_nonneg ht
  have hselect : (h.reader j).policy.select (after.store.writerWindows c)
      (Window.ofStart w (h.reader j).settings.interval).previous =
        Series.selection (h.reader j).settings.alignmentDepth (h.reader j).settings.interval w
          (after.store.snapshots c) := by
    rw [Window.previous_ofStart, Store.writerWindows, hint, Reader.policy]
    exact Series.select_eq _ htol hfits hpl ha (Reader.dvd_of_pickBucket hpick) hn hnw hlate
  refine ⟨hselect, fun t hobs => ?_, fun t hobs => ?_, fun m hm => ?_, fun a b => ?_⟩
  · obtain ⟨m, hm, hmw, hmt⟩ := (Series.observedEnd?_eq_some ha).1 hobs
    have := hpl.observed m hm t hmt
    omega
  · obtain ⟨m, hm, hmw, hmt⟩ := (Series.observedEnd?_eq_some ha).1 hobs
    have := hpl.observed m hm t hmt
    omega
  · refine Option.eq_none_iff_forall_ne_some.2 fun t hmt => ?_
    have h1 := hlate m (List.mem_of_find?_eq_some hm) (by rw [hmt]; rfl)
    have h2 : w < m.windowStart := by simpa using List.find?_some hm
    omega
  · rw [hselect]
    exact Series.selection_ne_staleRight _ _ _ _ _ _

/-- The bucket 5000 is dispatched after that of 0, in which a request has started. -/
theorem selection_exact_second_bucket :
    let run := replay (fun w => if w = 0 then
      [⟨"threads/7/http/search/r1/start", "\x7b\"current_time\":1000\x7d\n"⟩] else []) [15000, 20000]
    run.Dispatches 1 5000 [] ∧ ∃ tick stats after, run.ticks[1]? = some tick ∧
      Intake.run tick.source (.ofStart 5000 ReaderSettings.defaults.interval)
        (run.reader 1).intake = .ok stats after ∧
      ∀ c, Selects .defaults 5000 (after.store.snapshots c)
        ((run.reader 1).policy.select (after.store.writerWindows c)
          (Window.ofStart 5000 ReaderSettings.defaults.interval).previous) := by
  intro run
  have hd : run.Dispatches 1 5000 [] := ⟨_, rfl, by decide +kernel, rfl⟩
  have hfits : ∀ c ∈ Category.all, ∀ n ∈ (run.reader 1).loaded 5000 [] c, 5000 ≤ n.windowStart →
      Signed64.fits ((n.writerWindow ReaderSettings.defaults.interval).stop +
        ReaderSettings.defaults.tolerance) = true := by decide +kernel
  have hf : run.Fresh .defaults := replay_fresh _ _
  obtain ⟨tick, stats, after, htick, hrun, hselects⟩ := hf.selection_exact (by decide) hd
  obtain ⟨tick', htick', -, hgiven⟩ := id hd
  cases htick.symm.trans htick'
  obtain ⟨_, _, hrun', -, -, hload⟩ := (hf.regular 1).1.run_ok 5000 hgiven
  rw [(hf.regular 1).2, hrun] at hrun'
  cases hrun'
  exact ⟨hd, tick, stats, after, htick, hrun, fun c =>
    hselects c (hload c ▸ hfits c (Category.mem_all c))⟩

end History

end WindowAlign
