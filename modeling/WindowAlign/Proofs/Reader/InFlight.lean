import WindowAlign.Proofs.Reader.Handover

/-!
# Operations in flight

An operation that is left open in one bucket and finished in a later one meets its start there,
however many cycles were idle, failed or dispatched other buckets in between. What carries it is that
from its bucket on every snapshot has its record as it was left (`History.Steady.carries`): each new
snapshot takes it over from the newest one, nothing writes to it, and the newest snapshot is never
dropped. The finish then meets the record in its own snapshot only, so the operation is completed once.

`History.Steady.follows` is the run lemma behind this: whatever is said of one identity, window by
window (`Series.Follows`), holds throughout if it says what is carried and no row of the identity
comes.
-/

namespace WindowAlign

namespace Cell

def isInt (n : Int) : Cell → Bool
  | int m => decide (m = n)
  | _ => false

theorem eq_int {v : Cell} {n : Int} (h : v.isInt n = true) : v = .int n := by
  cases v with
  | int m => rw [of_decide_eq_true h]
  | _ => cases h

theorem eq_null {v : Cell} (h : v.isNull = true) : v = .null := by
  cases v with
  | null => rfl
  | _ => cases h

end Cell

/-- Every snapshot from the window `u` on has what `f` says of the identity `k`, and there is such a
snapshot. -/
structure Series.Follows (c : Category) (k : List String) (f : Int → Option Record) (u : Int)
    (l : List Snapshot) : Prop where
  reaches : ∃ n ∈ l, u ≤ n.windowStart
  record : ∀ n ∈ l, u ≤ n.windowStart → c.schema.recordOf? k n.records = f n.windowStart

namespace Series

variable {c : Category} {k : List String} {f : Int → Option Record} {r : Record}
  {u w maxAge : Int} {l : List Snapshot}

/-- What is carried to the window `w` of an operation, in the words of `f`. -/
def StepsTo (c : Category) (f : Int → Option Record) (maxAge u w : Int) : Prop :=
  ∀ v, u ≤ v → v < w →
    (f v).filter (fun r => c.schema.isOpen r && c.schema.startedSince (w - maxAge) r) = f w

theorem Follows.opened (h : Follows c k f u l) (hs : Sound c l)
    (hc : c.schema.isStartFinish = true) (hle : ∀ n ∈ l, n.windowStart ≤ w)
    (hstep : StepsTo c f maxAge u w) : Follows c k f u (opened c maxAge w l) where
  reaches := by
    obtain ⟨n, hn, hu⟩ := h.reaches
    exact ⟨n, mem_opened.2 (.inl hn), hu⟩
  record n hn hun := by
    rcases mem_opened.1 hn with hn | ⟨hw, rfl⟩
    · exact h.record n hn hun
    obtain ⟨m, hm, hum⟩ := h.reaches
    have hlt := forall_lt_of_absent hw hle
    cases hp : l.getLast? with
    | none => rw [List.getLast?_eq_none_iff.1 hp] at hm; cases hm
    | some p =>
      have hpl := List.mem_of_getLast? hp
      have hmp := hs.ascending.le_getLast hm hp
      have hup : u ≤ p.windowStart := by omega
      simp only [inherited, before?_of_forall_lt hlt, hp, hc, ↓reduceIte]
      rw [Schema.recordOf?_carriable (hs.unique p hpl), h.record p hpl hup]
      exact hstep _ hup (hlt p hpl)

theorem Follows.load (h : Follows c k f u l) (hs : Sound c l) {rows : List Row}
    (hr : ∀ row ∈ rows, Fits c row)
    (hk : rows.filter (fun row => c.schema.identity row.cells = k) = []) :
    Follows c k f u (load c w rows l) where
  reaches := by
    obtain ⟨n, hn, hu⟩ := h.reaches
    by_cases hw : n.windowStart = w
    · exact ⟨_, mem_load.2 (.inr ⟨n, hn, hw, rfl⟩), hu⟩
    · exact ⟨n, mem_load.2 (.inl ⟨hn, hw⟩), hu⟩
  record n hn hun := by
    rcases mem_load.1 hn with ⟨hn, -⟩ | ⟨m, hm, -, rfl⟩
    · exact h.record n hn hun
    · have := Schema.recordOf?_upserts_typed (fun row hrow => (hr row hrow).typed) (hs.stored m hm) k
      rw [hk, h.record m hm hun] at this
      exact this

theorem Follows.kept (h : Follows c k f u l) (ha : Ascending l) {depth : Nat} (hd : 0 < depth) :
    Follows c k f u (kept depth l) where
  reaches := by
    obtain ⟨n, hn, hu⟩ := h.reaches
    obtain ⟨m, hm, hle⟩ := exists_mem_kept ha hd hn
    exact ⟨m, hm, by omega⟩
  record n hn := h.record n (List.mem_of_mem_drop hn)

theorem stepsTo_some (ho : c.schema.isOpen r = true)
    (hage : c.schema.startedSince (w - maxAge) r = true) :
    StepsTo c (fun _ => some r) maxAge u w := fun _ _ _ => by
  simp [Option.filter, ho, hage]

end Series

namespace History

variable {σ : Type} {settings : ReaderSettings} {h : History σ} {c : Category}

/-- The records of one identity in the snapshot of a window after a number of cycles. -/
def recordsOf (h : History σ) (j : Nat) (c : Category) (w : Int) (k : List String) : List Record :=
  ((h.reader j).intake.store.records c w).filter fun r => c.schema.identity r = k

/-- No row of an identity is accepted in a bucket strictly between two others. -/
def Silent (h : History σ) (c : Category) (k : List String) (u w : Int) : Prop :=
  ∀ j v es, h.Dispatches j v es → u < v → v < w → h.rowsOf j c v es k = []

theorem Fresh.recordsOf_eq (hf : h.Fresh settings) {j : Nat} {n : Snapshot}
    (hn : n ∈ h.series j c) (k : List String) :
    h.recordsOf j c n.windowStart k = (c.schema.recordOf? k n.records).toList := by
  have hs := (hf.regular j).1.sound c
  rw [recordsOf, Store.records_of_mem hs.ascending hn]
  exact Schema.filter_identity (hs.unique n hn) k

theorem recordsOf_of_absent {j : Nat} {w : Int} (hw : Series.at? w (h.series j c) = none)
    (k : List String) : h.recordsOf j c w k = [] := by
  have : (h.reader j).intake.store.records c w = [] := by
    rw [Store.records, Store.snapshot?_eq]
    exact congrArg (fun o => (Option.map Snapshot.records o).getD []) hw
  rw [recordsOf, this]
  rfl

theorem exists_of_recordsOf {j : Nat} {w : Int} {k : List String} {r : Record}
    (hr : h.recordsOf j c w k = [r]) : ∃ n ∈ h.series j c, n.windowStart = w := by
  cases hat : Series.at? w (h.series j c) with
  | none => exact nomatch (recordsOf_of_absent hat k).symm.trans hr
  | some n => exact ⟨n, List.mem_of_find?_eq_some hat, by simpa using List.find?_some hat⟩

section Carried

variable {k : List String} {u w : Int} {r : Record} {i j : Nat} {es es' : List Event}

/-- The bucket that left the record `r` starts the chain. -/
theorem Steady.follows_first (hs : h.Steady) (hf : h.Fresh settings) (hd : h.Dispatches i u es)
    (hr : h.recordsOf (i + 1) c u k = [r]) {f : Int → Option Record} (hu : f u = some r) :
    Series.Follows c k f u (h.series (i + 1) c) := by
  obtain ⟨n, hn, hnu⟩ := exists_of_recordsOf hr
  refine ⟨⟨n, hn, by omega⟩, fun m hm hum => ?_⟩
  obtain ⟨t, ht, hpick, -⟩ := hd
  have hdue := (Reader.pickBucket_eq_some.1 hpick).1
  have hmu : m.windowStart = u := by
    by_contra hne
    have hmem := (hf.move ht).mem_of_ne hm (by omega)
    have := hs.behind hf i i t (Nat.le_refl i) ht m hmem
    omega
  have := hf.recordsOf_eq hm k
  rw [hmu, hr] at this
  rw [hmu, hu]
  exact Option.toList_eq_singleton_iff.1 this.symm

/-- **What is said of an operation goes on to hold**, while it says what is carried to each bucket
that is taken and no row of the identity comes. -/
theorem Steady.follows (hs : h.Steady) (hf : h.Fresh settings) (hc : c.schema.isStartFinish = true)
    {f : Int → Option Record} (start : Series.Follows c k f u (h.series i c))
    (hstep : ∀ m v, i ≤ m → m < j → h.Picks m v → Series.StepsTo c f settings.maxInFlightAge u v)
    (hsilent : ∀ m v es, i ≤ m → m < j → h.Dispatches m v es → h.rowsOf m c v es k = []) :
    ∀ m, i ≤ m → m ≤ j → Series.Follows c k f u (h.series m c) := by
  refine hf.induct_from (P := fun m => m ≤ j → Series.Follows c k f u (h.series m c))
    (fun _ => start) (fun m t him ht ih hm hmj => ?_)
    (fun m _ e ih hmj => by unfold series; rw [e]; exact ih (by omega))
  have hfollows := ih (by omega)
  obtain ⟨hreg, hset⟩ := hf.regular m
  have hbehind := hs.behind (c := c) hf m m t (Nat.le_refl m) ht
  have hopen : ∀ v, (h.reader m).pickBucket t.now = some v →
      Series.Follows c k f u ((h.reader m).opened v c) := fun v hv => by
    have hdue := (Reader.pickBucket_eq_some.1 hv).1
    exact hfollows.opened (hreg.sound c) hc (hdue ▸ hbehind)
      (hset ▸ hstep m v him (by omega) ⟨t, ht, hv⟩)
  have hload : ∀ v es, (h.reader m).pickBucket t.now = some v → t.source v = .ok es →
      Series.Follows c k f u ((h.reader m).loaded v es c) := fun v es hv hes =>
    (hopen v hv).load (Reader.opened_sound hreg v c) (fun _ h => (Reader.mem_rowsOf h).1)
      (hsilent m v es him (by omega) ⟨t, ht, hv, hes⟩)
  show Series.Follows c k f u ((h.reader (m + 1)).series c)
  cases hm with
  | idle pick series => rw [series c]; exact hfollows
  | failed pick given series => rw [series c]; exact hopen _ pick
  | loaded pick given series => rw [series c]; exact hload _ _ pick given
  | trimmed pick given series =>
    rw [series c]
    exact (hload _ _ pick given).kept (Reader.loaded_sound hreg _ _ c).ascending hreg.retains

/-- **The chain goes on** up to the cycle that takes the bucket `w`, while no row of the identity
comes and the operation is young enough for `w`. -/
theorem Steady.carries (hs : h.Steady) (hf : h.Fresh settings)
    (hc : c.schema.isStartFinish = true) (hd : h.Dispatches i u es)
    (hr : h.recordsOf (i + 1) c u k = [r]) (ho : c.schema.isOpen r = true) {s : Int}
    (hstart : c.schema.startTime r = .int s) (hage : w - settings.maxInFlightAge ≤ s)
    (hw : h.Picks j w) (hsilent : h.Silent c k u w) :
    ∀ m, i + 1 ≤ m → m ≤ j → Series.Follows c k (fun _ => some r) u (h.series m c) := by
  have hfirst := hs.follows_first hf hd hr (f := fun _ => some r) rfl
  refine hs.follows hf hc hfirst (fun m v him hmj hv => ?_) (fun m v es him hmj hv => ?_)
  · obtain ⟨t, ht, hpick⟩ := hv
    obtain ⟨t', ht', hpick'⟩ := hw
    have hle := hs.due_le hf hmj ht ht' m j
    rw [(Reader.pickBucket_eq_some.1 hpick).1, (Reader.pickBucket_eq_some.1 hpick').1] at hle
    exact Series.stepsTo_some ho ((Schema.startedSince_iff hstart).2 (by omega))
  · -- both ends of the bucket's range follow from the order of dispatches
    exact hsilent m v es hv (hf.dispatched_lt (by omega) hd hv.picks) (hf.dispatched_lt hmj hv hw)

end Carried

theorem Fresh.lt_of_dispatched (hf : h.Fresh settings) {i j : Nat} {u w : Int}
    {es es' : List Event} (hi : h.Dispatches i u es) (hj : h.Dispatches j w es') (huw : u < w) :
    i < j := by
  rcases Nat.lt_trichotomy i j with hlt | rfl | hgt
  · exact hlt
  · have := hi.unique hj
    omega
  · have := hf.dispatched_lt hgt hj hi.picks
    omega

section Completed

variable {k : List String} {u w : Int} {r : Record} {i j : Nat} {es es' : List Event}

theorem Fresh.updated_before (hf : h.Fresh settings) (hc : c.schema.isStartFinish = true)
    {n : Snapshot} (hn : n ∈ h.series j c) (hr : r ∈ n.records) (hw : settings.interval ∣ w)
    (hlt : n.windowStart < w) : Series.UpdatedBefore c w r := by
  have hp := (hf.placed j).1 c
  obtain ⟨x, hx, hxlt⟩ := hp.updated hc n hn r hr
  have := add_le_of_lt_of_dvd (hp.grid n hn) hw hlt
  exact ⟨x, hx, by omega⟩

theorem Fresh.mem_of_recordsOf (hf : h.Fresh settings) {n : Snapshot} (hn : n ∈ h.series j c)
    (hr : h.recordsOf j c n.windowStart k = [r]) : r ∈ n.records := by
  rw [hf.recordsOf_eq hn] at hr
  exact List.mem_of_find?_eq_some (Option.toList_eq_singleton_iff.1 hr)

/-- The snapshot of a bucket that has inherited a record, with the only row of the operation in the
bucket merged into it. -/
theorem Steady.merged (hs : h.Steady) (hf : h.Fresh settings)
    (hc : c.schema.isStartFinish = true) (hw : h.Dispatches j w es) {n : Snapshot}
    (hn : n ∈ (h.reader j).opened w c) (hnw : n.windowStart = w)
    (hrec : c.schema.recordOf? k n.records = some r) {row : Row}
    (hrow : h.rowsOf j c w es k = [row]) :
    h.recordsOf (j + 1) c w k = [c.schema.merge r row.cells] := by
  have hsound := Reader.opened_sound (hf.regular j).1 w c
  have htyped : ∀ row ∈ (h.reader j).rowsOf w es c, c.schema.Typed row.cells :=
    fun _ h => (Reader.mem_rowsOf h).1.typed
  have hmem : row ∈ (h.reader j).rowsOf w es c :=
    List.mem_of_mem_filter (show row ∈ h.rowsOf j c w es k from hrow ▸ List.mem_singleton.2 rfl)
  have hafter := Schema.recordOf?_upserts_typed htyped (hsound.stored n hn) k
  rw [show List.filter _ _ = [row] from hrow, hrec] at hafter
  have hjoin : c.schema.joinRows [row] (some r) = some (c.schema.merge r row.cells) := by
    simp [Schema.joinRows, (Reader.mem_rowsOf hmem).1.keep_eq hc]
  have := hf.recordsOf_eq (hf.mem_dispatched hw hs hn hnw) k
  rw [Series.load_windowStart, hnw] at this
  rw [this]
  exact congrArg Option.toList (hafter.trans hjoin)

/-- The finish meets the record that its bucket inherited. -/
theorem Steady.finish_meets (hs : h.Steady) (hf : h.Fresh settings)
    (hc : c.schema.isStartFinish = true) (hw : h.Dispatches j w es)
    (hcar : Series.Follows c k (fun _ => some r) u (h.series j c)) (huw : u ≤ w)
    (ho : c.schema.isOpen r = true) {s : Int} (hstart : c.schema.startTime r = .int s)
    (hage : w - settings.maxInFlightAge ≤ s) (hupd : Series.UpdatedBefore c w r)
    {row : Row} (hrow : h.rowsOf j c w es k = [row])
    (hnone : c.schema.startTime row.cells = .null) {f : Int}
    (hfinish : c.schema.endTime row.cells = .int f) :
    ∃ r', h.recordsOf (j + 1) c w k = [r'] ∧ c.schema.startTime r' = .int s ∧
      c.schema.endTime r' = .int f ∧ r' = List.zipWith Cell.orElse row.cells r := by
  obtain ⟨t, ht, hpick, -⟩ := id hw
  have hdue := (Reader.pickBucket_eq_some.1 hpick).1
  obtain ⟨hreg, hset⟩ := hf.regular j
  have hyoung : c.schema.startedSince (w - (h.reader j).settings.maxInFlightAge) r = true := by
    rw [Schema.startedSince_iff hstart, hset]
    exact hage
  obtain ⟨n, hn, hnw⟩ := Series.exists_mem_opened c (h.reader j).settings.maxInFlightAge w
    ((h.reader j).series c)
  have hbehind := hs.behind (c := c) hf j j t (Nat.le_refl j) ht
  have hrec := (hcar.opened (hreg.sound c) hc (hdue ▸ hbehind)
    (Series.stepsTo_some ho hyoung)).record n hn (by omega)
  have hsound := Reader.opened_sound hreg w c
  obtain ⟨hrn, hid⟩ := (Schema.recordOf?_eq_some (hsound.unique n hn)).1 hrec
  have hr := hsound.typed n hn r hrn
  have hmem : row ∈ (h.reader j).rowsOf w es c ∧ c.schema.identity row.cells = k := by
    have : row ∈ h.rowsOf j c w es k := hrow ▸ List.mem_singleton.2 rfl
    simpa [rowsOf] using this
  obtain ⟨hfit, hlow, -⟩ := Reader.mem_rowsOf hmem.1
  have hle : (c.schema.lastUpdated r).le (c.schema.lastUpdated row.cells) = true := by
    obtain ⟨x, hx, hlt⟩ := hupd
    rw [hx, hfit.updated]
    simp only [Cell.le, decide_eq_true_eq]
    omega
  refine ⟨c.schema.merge r row.cells, hs.merged hf hc hw hn hnw hrec hrow, ?_, ?_, ?_⟩
  · rw [Schema.startTime_merge hc hr hfit.typed, hnone, hstart]; rfl
  · rw [Schema.endTime_merge hc hr hfit.typed, hfinish]; rfl
  · exact Schema.merge_eq_orElse hc hr hfit.typed (hid.trans hmem.2.symm) hle

theorem Steady.settled_since (hs : h.Steady) (hf : h.Fresh settings) (hw : h.Dispatches j w es)
    {m : Nat} (hjm : j + 1 ≤ m) {n : Snapshot} (hn : n ∈ h.series m c) (hnw : n.windowStart < w) :
    n ∈ h.series (j + 1) c :=
  hs.mem_of_lt hf (hf.exists_le_of_picks hw.picks (j + 1) (Nat.lt_succ_self j)) m hjm n hn hnw

/-- **No operation in flight is lost, and none is completed twice.** Let the bucket `u` leave the
operation `k` with the start `s` and no end, let no row of `k` be accepted between `u` and `w`, and
let the only row of `k` in `w` be a finish at `f` without a start. If the operation is young enough
for `w`, then after the dispatch of `w` its snapshot has one record for `k`, which has both times and
otherwise what the finish says, or what was carried where the finish says nothing. In the older
snapshots the operation stays unfinished for good: those from `u` on have the record that `u` has
left, those before `u` that it was copied from have an open one, and no snapshot before `u` changes
at all. -/
theorem Steady.completed_once (hs : h.Steady) (hf : h.Fresh settings)
    (hc : c.schema.isStartFinish = true) (hu : h.Dispatches i u es)
    (hr : h.recordsOf (i + 1) c u k = [r]) {s : Int} (hstart : c.schema.startTime r = .int s)
    (hopen : c.schema.endTime r = .null) (hw : h.Dispatches j w es') (huw : u < w)
    (hsilent : h.Silent c k u w) {row : Row} (hrow : h.rowsOf j c w es' k = [row])
    (hnone : c.schema.startTime row.cells = .null) {f : Int}
    (hfinish : c.schema.endTime row.cells = .int f) (hage : w - settings.maxInFlightAge ≤ s) :
    (∃ r', h.recordsOf (j + 1) c w k = [r'] ∧ c.schema.startTime r' = .int s ∧
        c.schema.endTime r' = .int f ∧ r' = List.zipWith Cell.orElse row.cells r) ∧
      ∀ m, i + 1 ≤ m → ∀ n ∈ h.series m c, n.windowStart < w →
        (u ≤ n.windowStart → h.recordsOf m c n.windowStart k = [r]) ∧
        (Relation.TransGen (h.Copies c k) n.windowStart u →
          ∃ a, h.recordsOf m c n.windowStart k = [a] ∧ c.schema.isOpen a = true) ∧
        (n.windowStart < u → n ∈ h.series (i + 1) c) := by
  have hij := hf.lt_of_dispatched hu hw huw
  have ho : c.schema.isOpen r = true := by
    rw [Schema.isOpen_iff, hopen, hstart]
    exact ⟨rfl, rfl⟩
  have hcarries := hs.carries hf hc hu hr ho hstart hage hw.picks hsilent
  obtain ⟨n0, hn0, hn0u⟩ := exists_of_recordsOf hr
  obtain ⟨t, ht, hpick, hgiven⟩ := id hw
  have hdue := (Reader.pickBucket_eq_some.1 hpick).1
  have hlast : ∀ m, i + 1 ≤ m → ∀ n ∈ h.series m c, n.windowStart < w → u ≤ n.windowStart →
      c.schema.recordOf? k n.records = some r := by
    intro m him n hn hnw hun
    rcases Nat.lt_or_ge j m with hjm | hmj
    · have hn' := (hf.move ht).mem_of_ne (hs.settled_since hf hw hjm hn hnw) (by omega)
      exact (hcarries j hij (Nat.le_refl j)).record n hn' hun
    · exact (hcarries m him hmj).record n hn hun
  refine ⟨?_, fun m him n hn hnw => ⟨fun hun => ?_, fun hlineage => ?_, fun hnu => ?_⟩⟩
  · exact hs.finish_meets hf hc hw (hcarries j hij (Nat.le_refl j)) (by omega) ho hstart hage
      (hf.updated_before hc hn0 (hf.mem_of_recordsOf hn0 (hn0u ▸ hr)) (hf.dvd_of_dispatches hw)
        (by omega)) hrow hnone hfinish
  · rw [hf.recordsOf_eq hn, hlast m him n hn hnw hun, Option.toList_some]
  · obtain ⟨v, hcop, hrest⟩ := Relation.TransGen.head'_iff.1 hlineage
    have hv := le_of_copies hrest
    obtain ⟨a, ha, hopen⟩ :=
      hs.isOpen_of_copies hf hc hcop ⟨n0, hn0, by omega⟩ him hn rfl
    exact ⟨a, by rw [hf.recordsOf_eq hn, ha, Option.toList_some], hopen⟩
  · exact hs.mem_of_lt hf ⟨n0, hn0, by omega⟩ m him n hn hnu

end Completed

/-- A request that starts in the bucket 0 and finishes in that of 10000, with nothing in between. -/
def spanningRequest : Int → List Event := fun w =>
  if w = 0 then [⟨"threads/7/http/search/r1/start",
    "\x7b\"current_time\":1000\x7d\nStartTime:1000\nItemCount:3\n"⟩]
  else if w = 10000 then [⟨"threads/7/http/search/r1/finish",
    "\x7b\"current_time\":11000\x7d\nHTTPRespCode:200\n"⟩]
  else []

theorem completed_once_spanningRequest :
    let run := replay spanningRequest [15000, 20000, 25000]
    run.Steady ∧ ∃ r', run.recordsOf 3 .httpRequests 10000 ["7", "search", "r1"] = [r'] ∧
      Category.httpRequests.schema.startTime r' = .int 1000 ∧
      Category.httpRequests.schema.endTime r' = .int 11000 := by
  intro run
  have hs : run.Steady := by unfold Steady; decide
  have hu : run.Dispatches 0 0 (spanningRequest 0) := ⟨_, rfl, by decide +kernel, rfl⟩
  have hw : run.Dispatches 2 10000 (spanningRequest 10000) := ⟨_, rfl, by decide +kernel, rfl⟩
  obtain ⟨r, hr⟩ : ∃ r, run.recordsOf 1 .httpRequests 0 ["7", "search", "r1"] = [r] :=
    List.length_eq_one_iff.1 (by decide +kernel)
  obtain ⟨row, hrow⟩ : ∃ row, run.rowsOf 2 .httpRequests 10000 (spanningRequest 10000)
      ["7", "search", "r1"] = [row] := List.length_eq_one_iff.1 (by decide +kernel)
  have hleft : ∀ a ∈ run.recordsOf 1 .httpRequests 0 ["7", "search", "r1"],
      (Category.httpRequests.schema.startTime a).isInt 1000 = true ∧
        (Category.httpRequests.schema.endTime a).isNull = true := by decide +kernel
  have hfinish : ∀ a ∈ run.rowsOf 2 .httpRequests 10000 (spanningRequest 10000)
      ["7", "search", "r1"], (Category.httpRequests.schema.startTime a.cells).isNull = true ∧
        (Category.httpRequests.schema.endTime a.cells).isInt 11000 = true := by decide +kernel
  obtain ⟨hstart, hopen⟩ := hleft r (hr ▸ List.mem_singleton.2 rfl)
  obtain ⟨hnone, hend⟩ := hfinish row (hrow ▸ List.mem_singleton.2 rfl)
  have hsilent : run.Silent .httpRequests ["7", "search", "r1"] 0 10000 := fun j v es hd h1 h2 => by
    rw [replay_dispatches hd, spanningRequest, if_neg (by omega), if_neg (by omega)]
    rfl
  obtain ⟨⟨r', h1, h2, h3, -⟩, -⟩ := hs.completed_once (replay_fresh _ _) rfl hu hr
    (Cell.eq_int hstart) (Cell.eq_null hopen) hw (by decide) hsilent hrow (Cell.eq_null hnone)
    (Cell.eq_int hend) (by decide)
  exact ⟨hs, r', h1, h2, h3⟩

end History

end WindowAlign
