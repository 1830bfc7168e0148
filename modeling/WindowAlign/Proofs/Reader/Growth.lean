import WindowAlign.Proofs.Reader.Placement

/-!
# How series grow

A move touches the snapshot of the bucket that is due and no other, and it never drops the newest
snapshot. If the clock does not run backwards, no snapshot is later than the bucket that is due
(`History.Steady.behind`), so that a new snapshot comes last and takes over from the newest one.
-/

namespace WindowAlign

namespace Series

variable {c : Category} {maxAge w : Int} {l : List Snapshot}

/-- A snapshot newer than all others takes over from the newest of them. -/
theorem before?_of_forall_lt (h : ∀ n ∈ l, n.windowStart < w) : before? w l = l.getLast? := by
  rw [before?, List.filter_eq_self.2 fun n hn => by simpa using h n hn]

theorem forall_lt_of_absent (hw : at? w l = none) (hle : ∀ n ∈ l, n.windowStart ≤ w) :
    ∀ n ∈ l, n.windowStart < w := fun n hn => by
  have h1 := hle n hn
  have h2 := at?_eq_none.1 hw n hn
  omega

theorem opened_of_absent (hw : at? w l = none) (hle : ∀ n ∈ l, n.windowStart ≤ w) :
    opened c maxAge w l = l ++ [⟨w, none, inherited c maxAge w l⟩] := by
  rw [opened, hw]
  exact insertSnapshot_append (forall_lt_of_absent hw hle)

theorem Ascending.le_getLast (ha : Ascending l) {n p : Snapshot} (hn : n ∈ l)
    (hp : l.getLast? = some p) : n.windowStart ≤ p.windowStart := by
  obtain ⟨init, rfl⟩ := List.getLast?_eq_some_iff.1 hp
  rcases List.mem_append.1 hn with hn | hn
  · have := (List.pairwise_append.1 ha).2.2 n hn p (List.mem_singleton.2 rfl)
    omega
  · obtain rfl := List.mem_singleton.1 hn
    exact Int.le_refl _

theorem Ascending.getLast?_eq (ha : Ascending l) {n : Snapshot} (hn : n ∈ l)
    (hle : ∀ m ∈ l, m.windowStart ≤ n.windowStart) : l.getLast? = some n := by
  cases hp : l.getLast? with
  | none => rw [List.getLast?_eq_none_iff.1 hp] at hn; cases hn
  | some p =>
    have hpl := List.mem_of_getLast? hp
    have h1 := ha.le_getLast hn hp
    have h2 := hle p hpl
    rw [eq_of_windowStart ha hpl hn (by omega)]

theorem getLast?_kept {depth : Nat} (hd : 0 < depth) (l : List Snapshot) :
    (kept depth l).getLast? = l.getLast? := by
  unfold kept
  rw [List.getLast?_drop]
  split
  · have : l = [] := by
      rw [← List.length_eq_zero_iff]
      omega
    rw [this]; rfl
  · rfl

theorem exists_mem_kept {depth : Nat} (ha : Ascending l) (hd : 0 < depth) {n : Snapshot}
    (hn : n ∈ l) : ∃ m ∈ kept depth l, n.windowStart ≤ m.windowStart := by
  cases hp : l.getLast? with
  | none => rw [List.getLast?_eq_none_iff.1 hp] at hn; cases hn
  | some p =>
    exact ⟨p, List.mem_of_getLast? ((getLast?_kept hd l).trans hp), ha.le_getLast hn hp⟩

end Series

namespace Reader

variable {σ : Type} {t : Tick σ} {r r' : Reader} {answer : Option Report} {c : Category}

theorem mem_loaded_of_ne {w : Int} {es : List Event} {n : Snapshot} (hne : n.windowStart ≠ w) :
    n ∈ r.loaded w es c ↔ n ∈ r.series c := by
  constructor
  · intro hn
    rcases Series.mem_load.1 hn with ⟨hn, -⟩ | ⟨m, -, hm, rfl⟩
    · rcases Series.mem_opened.1 hn with hn | ⟨-, rfl⟩
      · exact hn
      · exact absurd rfl hne
    · exact absurd hm hne
  · intro hn
    exact Series.mem_load.2 (.inl ⟨Series.mem_opened.2 (.inl hn), hne⟩)

theorem exists_mem_loaded_of_mem {w : Int} {n : Snapshot} (hn : n ∈ r.opened w c)
    (es : List Event) : ∃ m ∈ r.loaded w es c, m.windowStart = n.windowStart := by
  by_cases hw : n.windowStart = w
  · exact ⟨_, Series.mem_load.2 (.inr ⟨n, hn, hw, rfl⟩), rfl⟩
  · exact ⟨n, Series.mem_load.2 (.inl ⟨hn, hw⟩), rfl⟩

/-- **A move touches the bucket that is due and no other.** -/
theorem Move.mem_of_ne (hm : Move t r r' answer) {n : Snapshot} (hn : n ∈ r'.series c)
    (hne : n.windowStart ≠ r.due t.now) : n ∈ r.series c := by
  cases hm with
  | idle pick series => exact series c ▸ hn
  | failed pick given series =>
    rw [series c] at hn
    rcases Series.mem_opened.1 hn with hn | ⟨-, rfl⟩
    · exact hn
    · exact absurd (pickBucket_eq_some.1 pick).1.symm hne
  | loaded pick given series =>
    rw [(pickBucket_eq_some.1 pick).1] at hne
    exact (mem_loaded_of_ne hne).1 (series c ▸ hn)
  | trimmed pick given series =>
    rw [(pickBucket_eq_some.1 pick).1] at hne
    rw [series c] at hn
    exact (mem_loaded_of_ne hne).1 (List.mem_of_mem_drop hn)

/-- A snapshot of a window that had none is that of the bucket. -/
theorem Move.pick_of_new (hm : Move t r r' answer) {n : Snapshot} (hn : n ∈ r'.series c)
    (hnew : ∀ m ∈ r.series c, m.windowStart ≠ n.windowStart) :
    r.pickBucket t.now = some n.windowStart := by
  have hdue : n.windowStart = r.due t.now := by
    by_contra hne
    exact hnew n (hm.mem_of_ne hn hne) rfl
  cases hm with
  | idle pick series => exact absurd rfl (hnew n (series c ▸ hn))
  | failed pick => rw [pick, hdue, (pickBucket_eq_some.1 pick).1]
  | loaded pick => rw [pick, hdue, (pickBucket_eq_some.1 pick).1]
  | trimmed pick => rw [pick, hdue, (pickBucket_eq_some.1 pick).1]

/-- **What a move reaches.** The newest snapshot is never dropped, and a bucket that is taken has
its snapshot or a newer one afterwards. -/
theorem Move.reaches (hm : Move t r r' answer) (hr : r.Regular) {u : Int}
    (h : (∃ n ∈ r.series c, u ≤ n.windowStart) ∨ r.pickBucket t.now = some u) :
    ∃ n ∈ r'.series c, u ≤ n.windowStart := by
  have hopen : ∀ w, r.pickBucket t.now = some w → ∃ n ∈ r.opened w c, u ≤ n.windowStart := by
    intro w hw
    rcases h with ⟨n, hn, hu⟩ | hu
    · exact ⟨n, Series.mem_opened.2 (.inl hn), hu⟩
    · rw [hw] at hu
      cases hu
      obtain ⟨n, hn, hnw⟩ := Series.exists_mem_opened c r.settings.maxInFlightAge u (r.series c)
      exact ⟨n, hn, by omega⟩
  have hload : ∀ w es, r.pickBucket t.now = some w →
      ∃ n ∈ r.loaded w es c, u ≤ n.windowStart := by
    intro w es hw
    obtain ⟨n, hn, hu⟩ := hopen w hw
    obtain ⟨m, hm, e⟩ := exists_mem_loaded_of_mem hn es
    exact ⟨m, hm, e ▸ hu⟩
  cases hm with
  | idle pick series =>
    rw [series c]
    rcases h with h | hu
    · exact h
    · rw [pick] at hu; cases hu
  | failed pick given series => rw [series c]; exact hopen _ pick
  | loaded pick given series => rw [series c]; exact hload _ _ pick
  | trimmed pick given series =>
    rw [series c]
    obtain ⟨n, hn, hu⟩ := hload _ _ pick
    obtain ⟨m, hm, hle⟩ :=
      Series.exists_mem_kept (loaded_sound hr _ _ c).ascending hr.retains hn
    exact ⟨m, hm, by omega⟩

/-- The bucket that was taken last only moves on. -/
theorem Move.last_le (hm : Move t r r' answer) {b : Int}
    (h : ∃ last, r.lastBucket = some last ∧ b ≤ last) :
    ∃ last, r'.lastBucket = some last ∧ b ≤ last := by
  obtain ⟨last, hlast, hb⟩ := h
  cases hm with
  | idle pick series last' => exact ⟨last, last'.trans hlast, hb⟩
  | failed pick given series last' => exact ⟨last, last'.trans hlast, hb⟩
  | loaded pick given series last' =>
    have := (pickBucket_eq_some.1 pick).2 last hlast
    exact ⟨_, last', by omega⟩
  | trimmed pick given series last' =>
    have := (pickBucket_eq_some.1 pick).2 last hlast
    exact ⟨_, last', by omega⟩

end Reader

namespace History

variable {σ : Type} {settings : ReaderSettings} {h : History σ} {c : Category}

theorem Fresh.induct_from (hf : h.Fresh settings) {P : Nat → Prop} {i : Nat} (start : P i)
    (move : ∀ j t, i ≤ j → h.ticks[j]? = some t → P j →
      Reader.Move t (h.reader j) (h.reader (j + 1)) (h.answer j) → P (j + 1))
    (still : ∀ j, i ≤ j → h.reader (j + 1) = h.reader j → P j → P (j + 1)) :
    ∀ j, i ≤ j → P j := by
  intro j hj
  induction j with
  | zero => exact (Nat.le_zero.1 hj) ▸ start
  | succ j ih =>
    rcases Nat.lt_or_ge j i with hlt | hge
    · have : i = j + 1 := by omega
      exact this ▸ start
    · cases ht : h.ticks[j]? with
      | none => exact still j hge (h.reader_succ_of_none ht) (ih hge)
      | some t => exact move j t hge ht (ih hge) (hf.move ht)

theorem Fresh.due_eq (hf : h.Fresh settings) (i j : Nat) (now : Int) :
    (h.reader i).due now = (h.reader j).due now := by
  unfold Reader.due
  rw [(hf.regular i).2, (hf.regular j).2]

theorem Steady.due_le (hs : h.Steady) (hf : h.Fresh settings) {i j : Nat} {t t' : Tick σ}
    (hij : i < j) (ht : h.ticks[i]? = some t) (ht' : h.ticks[j]? = some t') (k l : Nat) :
    (h.reader k).due t.now ≤ (h.reader l).due t'.now := by
  rw [hf.due_eq k l]
  obtain ⟨hi, rfl⟩ := List.getElem?_eq_some_iff.1 ht
  obtain ⟨hj, rfl⟩ := List.getElem?_eq_some_iff.1 ht'
  have := List.pairwise_iff_getElem.1 hs i j hi hj hij
  exact alignDown_mono (by omega) _

/-- **With a clock that does not run backwards no snapshot is later than the bucket that is due.** -/
theorem Steady.behind (hs : h.Steady) (hf : h.Fresh settings) (j : Nat) :
    ∀ i t, j ≤ i → h.ticks[i]? = some t → ∀ n ∈ h.series j c,
      n.windowStart ≤ (h.reader j).due t.now := by
  induction j with
  | zero => intro i t _ _ n hn; rw [hf.series_zero c] at hn; cases hn
  | succ j ih =>
    intro i t hi ht n hn
    cases ht' : h.ticks[j]? with
    | none =>
      have : h.ticks.length ≤ j := List.getElem?_eq_none_iff.1 ht'
      have := (List.getElem?_eq_some_iff.1 ht).1
      omega
    | some t' =>
      by_cases hne : n.windowStart = (h.reader j).due t'.now
      · rw [hne]
        exact hs.due_le hf (by omega) ht' ht _ _
      · rw [hf.due_eq (j + 1) j]
        exact ih i t (by omega) ht n ((hf.move ht').mem_of_ne hn hne)

/-- A series never loses its newest snapshot, so it reaches at least as far later on. -/
theorem Fresh.exists_le_of_le (hf : h.Fresh settings) {i : Nat} {u : Int}
    (hu : ∃ n ∈ h.series i c, u ≤ n.windowStart) :
    ∀ j, i ≤ j → ∃ n ∈ h.series j c, u ≤ n.windowStart :=
  hf.induct_from (P := fun j => ∃ n ∈ h.series j c, u ≤ n.windowStart) hu
    (fun j _ _ _ ih hm => hm.reaches (hf.regular j).1 (.inl ih))
    (fun j _ e ih => by unfold series; rw [e]; exact ih)

theorem Fresh.exists_le_of_picks (hf : h.Fresh settings) {i : Nat} {w : Int} (hp : h.Picks i w) :
    ∀ j, i < j → ∃ n ∈ h.series j c, w ≤ n.windowStart := by
  obtain ⟨t, ht, hpick⟩ := hp
  exact hf.exists_le_of_le ((hf.move ht).reaches (hf.regular i).1 (.inr hpick))

/-- **Snapshots older than the newest are never changed.** -/
theorem Steady.mem_of_lt (hs : h.Steady) (hf : h.Fresh settings) {i : Nat} {u : Int}
    (hu : ∃ n ∈ h.series i c, u ≤ n.windowStart) :
    ∀ j, i ≤ j → ∀ n ∈ h.series j c, n.windowStart < u → n ∈ h.series i c := by
  refine hf.induct_from (P := fun j => ∀ n ∈ h.series j c, n.windowStart < u → n ∈ h.series i c)
    (fun n hn _ => hn) (fun j t hij ht ih hm n hn hnu => ?_)
    (fun j _ e ih => by unfold series at ih ⊢; rw [e]; exact ih)
  obtain ⟨m, hm', hum⟩ := hf.exists_le_of_le hu j hij
  have := hs.behind hf j j t (Nat.le_refl j) ht m hm'
  exact ih n (hm.mem_of_ne hn (by omega)) hnu

theorem Fresh.last_le_of_le (hf : h.Fresh settings) {i : Nat} {b : Int}
    (hb : ∃ last, (h.reader i).lastBucket = some last ∧ b ≤ last) :
    ∀ j, i ≤ j → ∃ last, (h.reader j).lastBucket = some last ∧ b ≤ last :=
  hf.induct_from (P := fun j => ∃ last, (h.reader j).lastBucket = some last ∧ b ≤ last) hb
    (fun _ _ _ _ ih hm => hm.last_le ih) (fun j _ e ih => by rw [e]; exact ih)

/-- What a dispatch comes to: the bucket is loaded, and perhaps the series are trimmed after it. -/
theorem Fresh.dispatched (hf : h.Fresh settings) {j : Nat} {w : Int} {es : List Event}
    (hd : h.Dispatches j w es) :
    (h.reader (j + 1)).lastBucket = some w ∧
      ((∀ c, h.series (j + 1) c = (h.reader j).loaded w es c) ∨
        ∀ c, h.series (j + 1) c = Series.kept settings.retainDepth ((h.reader j).loaded w es c)) := by
  obtain ⟨t, ht, hpick, hgiven⟩ := hd
  cases hf.move ht with
  | idle pick => rw [hpick] at pick; cases pick
  | failed pick given =>
    rw [hpick] at pick
    cases pick
    rw [hgiven] at given
    cases given
  | loaded pick given series last =>
    rw [hpick] at pick
    cases pick
    rw [hgiven] at given
    cases given
    exact ⟨last, .inl series⟩
  | trimmed pick given series last =>
    rw [hpick] at pick
    cases pick
    rw [hgiven] at given
    cases given
    rw [(hf.regular j).2] at series
    exact ⟨last, .inr series⟩

theorem Fresh.dvd_of_dispatches (hf : h.Fresh settings) {j : Nat} {w : Int} {es : List Event}
    (hd : h.Dispatches j w es) : settings.interval ∣ w := by
  obtain ⟨t, -, hpick, -⟩ := hd
  have := Reader.dvd_of_pickBucket hpick
  rwa [(hf.regular j).2] at this

theorem Fresh.dispatched_lt (hf : h.Fresh settings) {i j : Nat} {u w : Int} {es : List Event}
    (hij : i < j) (hi : h.Dispatches i u es) (hj : h.Picks j w) : u < w := by
  obtain ⟨last, hlast, hle⟩ := hf.last_le_of_le ⟨u, (hf.dispatched hi).1, Int.le_refl u⟩ j hij
  obtain ⟨t, -, hpick⟩ := hj
  have := (Reader.pickBucket_eq_some.1 hpick).2 last hlast
  omega

end History

end WindowAlign
