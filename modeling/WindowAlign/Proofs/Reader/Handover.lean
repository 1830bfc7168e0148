import Mathlib.Logic.Relation
import WindowAlign.Proofs.Reader.Growth

/-!
# Handovers

A cycle that creates the snapshot of its bucket hands the open operations of the snapshot before it
over to it: the young ones are copied, the others are abandoned and counted (`HandsOver.counted`). After
the cycle the new snapshot has what it was created with and what its bucket adds (`Steady.becomes`). If
the clock does not run backwards a handover is the last thing that happens to the snapshot before
(`Steady.frozen`). Every snapshot but the newest has been handed over, exactly as it is
(`Steady.handed_over`), and only once (`Steady.handsOver_unique`).
-/

namespace WindowAlign

namespace History

variable {σ : Type} {settings : ReaderSettings} {h : History σ} {c : Category}

/-- The cycle `j` creates the snapshot of the window `w`, and `p` is the one before it. -/
structure HandsOver (h : History σ) (c : Category) (j : Nat) (p : Snapshot) (w : Int) : Prop where
  picks : h.Picks j w
  absent : (h.reader j).intake.store.snapshot? c w = none
  previous : (h.reader j).intake.store.previous? c w = some p

/-- The intake of the cycle `j` once its processors are bound to the window of `w`. -/
def bound (h : History σ) (j : Nat) (w : Int) : Intake :=
  (h.reader j).intake.bindAll (.ofStart w (h.reader j).settings.interval)

/-- The records that the cycle `j` creates the snapshot of the window `w` with. -/
def copied (h : History σ) (c : Category) (j : Nat) (w : Int) : List Record :=
  (h.bound j w).store.records c w

/-- The open records of `p` that the snapshot of the window `w` is created without. -/
def leftBehind (h : History σ) (c : Category) (j : Nat) (p : Snapshot) (w : Int) : List Record :=
  (p.records.filter c.schema.isOpen).filter fun r =>
    (c.schema.recordOf? (c.schema.identity r) (h.copied c j w)).isNone

/-- What the handover of a category counts when the cycle `j` binds its processors. -/
def counted? (h : History σ) (c : Category) (j : Nat) (w : Int) : Option Carried :=
  (Intake.handovers (.ofStart w (h.reader j).settings.interval) (h.reader j).intake.processors
    (h.reader j).intake.store).lookup c

/-- The rows of one identity that the cycle `j` takes from the events of the bucket `w`. -/
def rowsOf (h : History σ) (j : Nat) (c : Category) (w : Int) (es : List Event) (k : List String) :
    List Row :=
  ((h.reader j).rowsOf w es c).filter fun row => c.schema.identity row.cells = k

/-- The rows of one identity that the cycle `j` writes, none if its source fails. -/
def arrivals (h : History σ) (c : Category) (j : Nat) (w : Int) (k : List String) : List Row :=
  ((h.ticks[j]?).bind fun t => (t.source w).toOption).elim [] fun es => h.rowsOf j c w es k

/-- After the cycle `j` the snapshot of `w` has of the identity `k` what the rows of the bucket make of
the record `r`, or of none. -/
def Becomes (h : History σ) (c : Category) (j : Nat) (w : Int) (k : List String)
    (r : Option Record) : Prop :=
  ∃ m ∈ h.series (j + 1) c, m.windowStart = w ∧
    c.schema.recordOf? k m.records = c.schema.joinRows (h.arrivals c j w k) r

section Rollover

variable {i j : Nat} {p n : Snapshot} {u w : Int}

theorem HandsOver.mem (ho : h.HandsOver c j p w) : p ∈ h.series j c ∧ p.windowStart < w :=
  Series.before?_mem ho.previous

theorem Fresh.series_bound (hf : h.Fresh settings) (j : Nat) (w : Int) (c : Category) :
    (h.bound j w).store.snapshots c = (h.reader j).opened w c := by
  have hreg := (hf.regular j).1
  exact (Intake.bindAll_bound _ hreg.roster hreg.sound).2.2.2 c

/-- The new snapshot is created with what was copied. -/
theorem HandsOver.mem_opened (ho : h.HandsOver c j p w) (hf : h.Fresh settings) :
    ⟨w, none, h.copied c j w⟩ ∈ (h.reader j).opened w c := by
  have hnew : ⟨w, none, Series.inherited c (h.reader j).settings.maxInFlightAge w
      (h.series j c)⟩ ∈ (h.reader j).opened w c := Series.mem_opened.2 (.inr ⟨ho.absent, rfl⟩)
  have hasc := (Reader.opened_sound (hf.regular j).1 w c).ascending
  have hcopied := Store.records_of_mem (s := (h.bound j w).store) (c := c)
    (hf.series_bound j w c ▸ hasc) (hf.series_bound j w c ▸ hnew)
  rw [copied, hcopied]
  exact hnew

/-- **The young open records are copied**, as they are. -/
theorem HandsOver.copied_eq (ho : h.HandsOver c j p w) (hf : h.Fresh settings)
    (hc : c.schema.isStartFinish = true) :
    h.copied c j w = c.schema.carriable (w - settings.maxInFlightAge) p.records := by
  have hasc := (Reader.opened_sound (hf.regular j).1 w c).ascending
  have hsame := Series.eq_of_windowStart hasc (ho.mem_opened hf)
    (Series.mem_opened.2 (.inr ⟨ho.absent, rfl⟩)) rfl
  have hprevious : Series.before? w ((h.reader j).series c) = some p := ho.previous
  rw [(Snapshot.mk.inj hsame).2.2, Series.inherited, hprevious, (hf.regular j).2]
  exact if_pos hc

theorem HandsOver.leftBehind_eq (ho : h.HandsOver c j p w) (hf : h.Fresh settings)
    (hc : c.schema.isStartFinish = true) :
    h.leftBehind c j p w = c.schema.abandoned (w - settings.maxInFlightAge) p.records := by
  have hu := ((hf.regular j).1.sound c).unique p ho.mem.1
  refine List.filter_congr fun r hr => ?_
  obtain ⟨hr, hopen⟩ := List.mem_filter.1 hr
  rw [ho.copied_eq hf hc, Schema.recordOf?_carriable hu, (Schema.recordOf?_eq_some hu).2 ⟨hr, rfl⟩]
  cases hage : c.schema.startedSince (w - settings.maxInFlightAge) r with
  | true => simp [Option.filter, hopen, hage]
  | false => simp [Option.filter, hage]

/-- **The handover counts what it copies and what it leaves behind.** -/
theorem HandsOver.counted (ho : h.HandsOver c j p w) (hf : h.Fresh settings)
    (hc : c.schema.isStartFinish = true) :
    h.counted? c j w = some ⟨(h.copied c j w).length, (h.leftBehind c j p w).length⟩ := by
  obtain ⟨hreg, hset⟩ := hf.regular j
  have hlookup := Intake.lookup_handovers hc (w := .ofStart w (h.reader j).settings.interval)
    (h.reader j).intake.processors (fun c => (hreg.sound c).toKeyed) ho.absent ho.previous
  rw [Intake.maxAgeOf?_eq hreg.roster, hset] at hlookup
  rw [ho.copied_eq hf hc, ho.leftBehind_eq hf hc, counted?, hset]
  exact hlookup

theorem HandsOver.mem_leftBehind (ho : h.HandsOver c j p w) (hf : h.Fresh settings)
    (hc : c.schema.isStartFinish = true) {r : Record} :
    r ∈ h.leftBehind c j p w ↔ r ∈ p.records ∧ c.schema.isOpen r = true ∧
      c.schema.startedSince (w - settings.maxInFlightAge) r = false := by
  rw [ho.leftBehind_eq hf hc, Schema.abandoned, List.mem_filter, List.mem_filter, and_assoc,
    Bool.not_eq_true']

theorem Fresh.mem_dispatched (hf : h.Fresh settings) {j : Nat} {w : Int} {es : List Event}
    (hd : h.Dispatches j w es) (hs : h.Steady) {n : Snapshot} (hn : n ∈ (h.reader j).opened w c)
    (hw : n.windowStart = w) :
    n.load c ((h.reader j).rowsOf w es c) ∈ h.series (j + 1) c := by
  have hmem : n.load c ((h.reader j).rowsOf w es c) ∈ (h.reader j).loaded w es c :=
    Series.mem_load.2 (.inr ⟨n, hn, hw, rfl⟩)
  rcases (hf.dispatched hd).2 with e | e
  · rw [e c]; exact hmem
  · obtain ⟨hreg, hset⟩ := hf.regular j
    have hretains := hreg.retains
    rw [hset] at hretains
    have ha := (Reader.loaded_sound hreg w es c).ascending
    obtain ⟨m, hm, hle⟩ := Series.exists_mem_kept ha hretains hmem
    -- the newest snapshot is that of `w`, so it is the one that trimming keeps
    have hmw : m.windowStart ≤ w := by
      obtain ⟨t, ht, hpick, -⟩ := hd
      by_contra hgt
      have hold := (Reader.mem_loaded_of_ne (by omega)).1 (List.mem_of_mem_drop hm)
      have := hs.behind hf j j t (Nat.le_refl j) ht m hold
      rw [(Reader.pickBucket_eq_some.1 hpick).1] at this
      exact hgt this
    have hsame := Series.eq_of_windowStart ha (List.mem_of_mem_drop hm) hmem
      (show m.windowStart = n.windowStart by rw [Series.load_windowStart] at hle; omega)
    rw [e c, ← hsame]
    exact hm

/-- **What a snapshot is created with and what its bucket adds.** After the cycle the snapshot has of
each identity what the rows of the bucket make of the record that was copied, if one was. -/
theorem Steady.becomes (hs : h.Steady) (hf : h.Fresh settings) (ho : h.HandsOver c j p w)
    (k : List String) : h.Becomes c j w k (c.schema.recordOf? k (h.copied c j w)) := by
  obtain ⟨t, ht, hpick⟩ := ho.picks
  have hnew := ho.mem_opened hf
  have hsound := Reader.opened_sound (hf.regular j).1 w c
  have hload : ∀ es, t.source w = .ok es →
      h.Becomes c j w k (c.schema.recordOf? k (h.copied c j w)) := by
    intro es hgiven
    refine ⟨_, hf.mem_dispatched ⟨t, ht, hpick, hgiven⟩ hs hnew rfl, rfl, ?_⟩
    have hrows : h.arrivals c j w k = h.rowsOf j c w es k := by
      rw [arrivals, ht, Option.bind_some, hgiven]
      rfl
    rw [hrows]
    exact Schema.recordOf?_upserts_typed (fun _ hrow => (Reader.mem_rowsOf hrow).1.typed)
      (hsound.stored _ hnew) k
  cases hf.move ht with
  | idle pick => rw [hpick] at pick; cases pick
  | failed pick given series =>
    rw [hpick] at pick
    cases pick
    have hrows : h.arrivals c j w k = [] := by
      rw [arrivals, ht, Option.bind_some, given]
      rfl
    refine ⟨_, (series c).symm ▸ hnew, rfl, ?_⟩
    rw [hrows]
    rfl
  | loaded pick given =>
    rw [hpick] at pick
    cases pick
    exact hload _ given
  | trimmed pick given =>
    rw [hpick] at pick
    cases pick
    exact hload _ given

/-- **A handover is the last that happens to a snapshot.** -/
theorem Steady.frozen (hs : h.Steady) (hf : h.Fresh settings) (ho : h.HandsOver c i p w)
    (hij : i < j) (hn : n ∈ h.series j c) (hp : n.windowStart = p.windowStart) : n = p := by
  obtain ⟨hp', hlt⟩ := ho.mem
  have hreached := hf.exists_le_of_picks (c := c) ho.picks (i + 1) (Nat.lt_succ_self i)
  have hmem := hs.mem_of_lt hf hreached j hij n hn (by omega)
  obtain ⟨t, ht, hpick⟩ := ho.picks
  have hold := (hf.move ht).mem_of_ne hmem
    (by rw [(Reader.pickBucket_eq_some.1 hpick).1]; omega)
  exact Series.eq_of_windowStart ((hf.regular i).1.sound c).ascending hold hp' hp

theorem Steady.le_previous (hs : h.Steady) (hf : h.Fresh settings) (ho : h.HandsOver c j p w)
    (hn : n ∈ h.series j c) : n.windowStart ≤ p.windowStart := by
  obtain ⟨t, ht, hpick⟩ := ho.picks
  have hbehind := hs.behind (c := c) hf j j t (Nat.le_refl j) ht
  rw [(Reader.pickBucket_eq_some.1 hpick).1] at hbehind
  have hlast := ho.previous
  rw [Store.previous?_eq, Series.before?_of_forall_lt
    (Series.forall_lt_of_absent ho.absent hbehind)] at hlast
  exact ((hf.regular j).1.sound c).ascending.le_getLast hn hlast

/-- **A snapshot is handed over once.** -/
theorem Steady.handsOver_unique (hs : h.Steady) (hf : h.Fresh settings) {p' : Snapshot} {w' : Int}
    (h1 : h.HandsOver c i p w) (h2 : h.HandsOver c j p' w')
    (hp : p.windowStart = p'.windowStart) : i = j := by
  have hbefore : ∀ {i j : Nat} {p p' : Snapshot} {w w' : Int}, h.HandsOver c i p w →
      h.HandsOver c j p' w' → p.windowStart = p'.windowStart → ¬ i < j := by
    intro i j p p' w w' h1 h2 hp hlt
    obtain ⟨n, hn, hw⟩ := hf.exists_le_of_picks h1.picks j hlt
    have h3 := hs.le_previous hf h2 hn
    have h4 := h1.mem.2
    omega
  have h3 := hbefore h1 h2 hp
  have h4 := hbefore h2 h1 hp.symm
  omega

theorem HandsOver.window_unique {p' : Snapshot} {w' : Int} (h1 : h.HandsOver c j p w)
    (h2 : h.HandsOver c j p' w') : w = w' ∧ p = p' := by
  obtain ⟨t, ht, hw⟩ := h1.picks
  obtain ⟨t', ht', hw'⟩ := h2.picks
  rw [ht] at ht'
  cases ht'
  rw [hw] at hw'
  cases hw'
  exact ⟨rfl, Option.some.inj (h1.previous.symm.trans h2.previous)⟩

theorem Fresh.handsOver_of_newest (hf : h.Fresh settings) (hn : n ∈ h.series j c)
    (hnewest : ∀ k ∈ h.series j c, k.windowStart ≤ n.windowStart) {m : Snapshot}
    (hm : m ∈ h.series (j + 1) c) (hlt : n.windowStart < m.windowStart) :
    h.HandsOver c j n m.windowStart := by
  have hnew : ∀ k ∈ h.series j c, k.windowStart ≠ m.windowStart := fun k hk => by
    have := hnewest k hk
    omega
  have hpick : h.Picks j m.windowStart := by
    cases ht : h.ticks[j]? with
    | none =>
      rw [h.series_succ_of_none ht] at hm
      exact absurd rfl (hnew m hm)
    | some t => exact ⟨t, ht, (hf.move ht).pick_of_new hm hnew⟩
  refine ⟨hpick, Series.at?_eq_none.2 hnew, ?_⟩
  rw [Store.previous?_eq, Series.before?_of_forall_lt fun k hk => by
    have := hnewest k hk
    omega]
  exact ((hf.regular j).1.sound c).ascending.getLast?_eq hn hnewest

/-- **Every snapshot but the newest has been handed over, exactly as it is.** -/
theorem Steady.handed_over (hs : h.Steady) (hf : h.Fresh settings) (j : Nat) :
    ∀ n ∈ h.series j c, (∃ m ∈ h.series j c, n.windowStart < m.windowStart) →
      ∃ i w, i < j ∧ h.HandsOver c i n w := by
  induction j with
  | zero => intro n hn; rw [hf.series_zero c] at hn; cases hn
  | succ j ih =>
    rintro n hn ⟨m, hm, hlt⟩
    have hnj : n ∈ h.series j c := by
      cases ht : h.ticks[j]? with
      | none => rwa [h.series_succ_of_none ht] at hn
      | some t =>
        have hbehind := hs.behind (c := c) hf j j t (Nat.le_refl j) ht
        have hmdue : m.windowStart ≤ (h.reader j).due t.now := by
          by_cases hne : m.windowStart = (h.reader j).due t.now
          · omega
          · exact hbehind m ((hf.move ht).mem_of_ne hm hne)
        exact (hf.move ht).mem_of_ne hn (by omega)
    by_cases hnewest : ∃ k ∈ h.series j c, n.windowStart < k.windowStart
    · obtain ⟨i, w, hi, ho⟩ := ih n hnj hnewest
      exact ⟨i, w, by omega, ho⟩
    · refine ⟨j, m.windowStart, Nat.lt_succ_self j, hf.handsOver_of_newest hnj ?_ hm hlt⟩
      intro k hk
      by_contra hgt
      exact hnewest ⟨k, hk, by omega⟩

end Rollover

/-! ## Lineages -/

/-- The operation `k` is copied from the snapshot of `u` into the new one of `w`. -/
def Copies (h : History σ) (c : Category) (k : List String) (u w : Int) : Prop :=
  ∃ j p, h.HandsOver c j p w ∧ p.windowStart = u ∧
    ∃ r ∈ h.copied c j w, c.schema.identity r = k

/-- The cycle `j` leaves the operation `k` of the snapshot of `u` behind. -/
def Abandons (h : History σ) (c : Category) (k : List String) (j : Nat) (u : Int) : Prop :=
  ∃ p w, h.HandsOver c j p w ∧ p.windowStart = u ∧
    ∃ r ∈ h.leftBehind c j p w, c.schema.identity r = k

section Lineage

variable {k : List String} {i j : Nat} {u v w : Int}

theorem Steady.handsOver_eq (hs : h.Steady) (hf : h.Fresh settings) {p p' : Snapshot} {w w' : Int}
    (h1 : h.HandsOver c i p w) (h2 : h.HandsOver c j p' w')
    (hp : p.windowStart = p'.windowStart) : i = j ∧ p = p' ∧ w = w' := by
  obtain rfl := hs.handsOver_unique hf h1 h2 hp
  obtain ⟨hw, hp⟩ := h1.window_unique h2
  exact ⟨rfl, hp, hw⟩

theorem Steady.copies_rightUnique (hs : h.Steady) (hf : h.Fresh settings) :
    Relator.RightUnique (h.Copies c k) := by
  rintro u v w ⟨i, p, h1, hp, -⟩ ⟨j, p', h2, hp', -⟩
  exact (hs.handsOver_eq hf h1 h2 (by omega)).2.2

theorem Steady.not_copies_of_abandons (hs : h.Steady) (hf : h.Fresh settings)
    (hc : c.schema.isStartFinish = true) (ha : h.Abandons c k j u) : ¬ h.Copies c k u w := by
  rintro ⟨i, p, h1, hp, r, hr, hk⟩
  obtain ⟨p', w', h2, hp', r', hr', hk'⟩ := ha
  obtain ⟨rfl, rfl, rfl⟩ := hs.handsOver_eq hf h1 h2 (by omega)
  rw [h1.copied_eq hf hc, Schema.mem_carriable] at hr
  rw [h1.mem_leftBehind hf hc] at hr'
  -- both are the record of `k` in the one snapshot, which is young or is not
  have hu := ((hf.regular i).1.sound c).unique p h1.mem.1
  have h3 := (Schema.recordOf?_eq_some hu).2 ⟨hr.1, hk⟩
  have h4 := (Schema.recordOf?_eq_some hu).2 ⟨hr'.1, hk'⟩
  rw [h3] at h4
  cases h4
  rw [hr.2.2] at hr'
  exact absurd hr'.2.2 (by decide)

/-- **An operation is abandoned once at most**, however many snapshots it was copied through. -/
theorem Steady.abandoned_once (hs : h.Steady) (hf : h.Fresh settings)
    (hc : c.schema.isStartFinish = true) (hv : Relation.ReflTransGen (h.Copies c k) u v)
    (hw : Relation.ReflTransGen (h.Copies c k) u w) (hi : h.Abandons c k i v)
    (hj : h.Abandons c k j w) : i = j ∧ v = w := by
  have hends : ∀ {i j : Nat} {v w : Int}, h.Abandons c k i v → h.Abandons c k j w →
      Relation.ReflTransGen (h.Copies c k) v w → v = w := by
    intro i j v w hi _ hvw
    rcases Relation.ReflTransGen.cases_head hvw with e | ⟨x, hx, -⟩
    · exact e
    · exact absurd hx (hs.not_copies_of_abandons hf hc hi)
  have hvw : v = w := by
    rcases Relation.ReflTransGen.total_of_right_unique (hs.copies_rightUnique hf) hv hw with e | e
    · exact hends hi hj e
    · exact (hends hj hi e).symm
  obtain ⟨p, x, h1, hp, -⟩ := hi
  obtain ⟨q, y, h2, hq, -⟩ := hj
  exact ⟨hs.handsOver_unique hf h1 h2 (by omega), hvw⟩

theorem lt_of_copies (hcop : h.Copies c k u w) : u < w := by
  obtain ⟨j, p, ho, hp, -⟩ := hcop
  have := ho.mem.2
  omega

theorem le_of_copies (hcop : Relation.ReflTransGen (h.Copies c k) u w) : u ≤ w := by
  induction hcop with
  | refl => exact Int.le_refl u
  | tail _ hstep ih => exact Int.le_trans ih (Int.le_of_lt (lt_of_copies hstep))

theorem Steady.isOpen_of_copies (hs : h.Steady) (hf : h.Fresh settings)
    (hc : c.schema.isStartFinish = true) (hcop : h.Copies c k u v) {n : Snapshot}
    (hv : ∃ m ∈ h.series i c, v ≤ m.windowStart) (hij : i ≤ j) (hn : n ∈ h.series j c)
    (hnu : n.windowStart = u) :
    ∃ r, c.schema.recordOf? k n.records = some r ∧ c.schema.isOpen r = true := by
  obtain ⟨i', p, ho, hp, r, hr, hk⟩ := hcop
  have hlt : i' < j := by
    by_contra hge
    obtain ⟨m, hm, hvm⟩ := hf.exists_le_of_le hv i' (by omega)
    have h1 := hs.le_previous hf ho hm
    have h2 := ho.mem.2
    omega
  obtain rfl := hs.frozen hf ho hlt hn (by omega)
  rw [ho.copied_eq hf hc, Schema.mem_carriable] at hr
  exact ⟨r, (Schema.recordOf?_eq_some (((hf.regular i').1.sound c).unique n ho.mem.1)).2
    ⟨hr.1, hk⟩, hr.2.1⟩

end Lineage

end History

end WindowAlign
