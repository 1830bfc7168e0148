import WindowAlign.Proofs.Reader.History

/-!
# Where snapshots lie

Whatever the clock and the source do, the snapshots of a reader lie on the grid of its windows, the
writer's times in a snapshot lie in its window, and its operations were updated before the window
ends (`Series.Placed`). A snapshot that was written to is not later than the bucket that was taken
last (`Reader.Taken`). `History.Fresh.placed` carries both along a history.
-/

namespace WindowAlign

/-- The latest time of a snapshot is one it had or one of the rows written into it. -/
theorem latestObserved_eq_some {known : Option Int} {rows : List Row} {t : Int}
    (h : latestObserved known rows = some t) : known = some t ∨ ∃ row ∈ rows, row.observedAt = t := by
  induction rows generalizing known with
  | nil => exact .inl h
  | cons row rows ih =>
    rcases ih h with h | ⟨r, hr, e⟩
    · cases known with
      | none => exact .inr ⟨row, List.mem_cons_self, Option.some.inj h⟩
      | some u =>
        have hmax : max u row.observedAt = t := Option.some.inj h
        rcases Int.le_total u row.observedAt with hle | hle
        · exact .inr ⟨row, List.mem_cons_self, by omega⟩
        · exact .inl (by rw [← hmax, Int.max_eq_left hle])
    · exact .inr ⟨r, List.mem_cons_of_mem _ hr, e⟩

namespace Series

variable {c : Category} {i w : Int} {l : List Snapshot}

def UpdatedBefore (c : Category) (t : Int) (r : Record) : Prop :=
  ∃ u, c.schema.lastUpdated r = .int u ∧ u < t

/-- Where the snapshots of a series lie, for windows of the interval `i`. -/
structure Placed (c : Category) (i : Int) (l : List Snapshot) : Prop where
  grid : ∀ n ∈ l, i ∣ n.windowStart
  observed : ∀ n ∈ l, ∀ t, n.writerEnd = some t → n.windowStart ≤ t ∧ t < n.windowStart + i
  updated : c.schema.isStartFinish = true →
    ∀ n ∈ l, ∀ r ∈ n.records, UpdatedBefore c (n.windowStart + i) r

theorem Placed.nil (c : Category) (i : Int) : Placed c i [] := by
  constructor <;> simp

theorem Placed.subset (h : Placed c i l) {l' : List Snapshot} (hs : ∀ n ∈ l', n ∈ l) :
    Placed c i l' where
  grid n hn := h.grid n (hs n hn)
  observed n hn := h.observed n (hs n hn)
  updated hc n hn := h.updated hc n (hs n hn)

theorem inherited_from {maxAge : Int} {r : Record} (h : r ∈ inherited c maxAge w l) :
    ∃ p, before? w l = some p ∧ r ∈ p.records ∧ c.schema.isStartFinish = true := by
  unfold inherited at h
  split at h
  · simp at h
  rename_i p hp
  split at h
  · rename_i hc
    exact ⟨p, hp, (Schema.mem_carriable.1 h).1, hc⟩
  · simp at h

theorem Placed.opened (h : Placed c i l) (hw : i ∣ w) (maxAge : Int) :
    Placed c i (opened c maxAge w l) where
  grid n hn := by
    rcases mem_opened.1 hn with hn | ⟨-, rfl⟩
    · exact h.grid n hn
    · exact hw
  observed n hn t ht := by
    rcases mem_opened.1 hn with hn | ⟨-, rfl⟩
    · exact h.observed n hn t ht
    · cases ht
  updated hc n hn r hr := by
    rcases mem_opened.1 hn with hn | ⟨-, rfl⟩
    · exact h.updated hc n hn r hr
    · obtain ⟨p, hp, hrp, -⟩ := inherited_from hr
      obtain ⟨u, hu, hlt⟩ := h.updated hc p (before?_mem hp).1 r hrp
      have := (before?_mem hp).2
      exact ⟨u, hu, by simp only; omega⟩

theorem UpdatedBefore.merge (hc : c.schema.isStartFinish = true) {t : Int} {a b : Record}
    (ha : c.schema.Typed a) (hb : c.schema.Typed b) (hua : UpdatedBefore c t a)
    (hub : UpdatedBefore c t b) : UpdatedBefore c t (c.schema.merge a b) := by
  unfold UpdatedBefore
  rw [Schema.lastUpdated_merge hc ha.stored hb.stored]
  rcases Cell.greater_eq (c.schema.lastUpdated b) (c.schema.lastUpdated a) with e | e
  · rw [e]; exact hub
  · rw [e]; exact hua

theorem Placed.load (h : Placed c i l) (hs : Sound c l) {rows : List Row}
    (hr : ∀ row ∈ rows, Fits c row ∧ w ≤ row.observedAt ∧ row.observedAt < w + i) :
    Placed c i (load c w rows l) where
  grid n hn := by
    rcases mem_load.1 hn with ⟨hn, -⟩ | ⟨m, hm, -, rfl⟩
    · exact h.grid n hn
    · exact h.grid m hm
  observed n hn t ht := by
    rcases mem_load.1 hn with ⟨hn, -⟩ | ⟨m, hm, rfl, rfl⟩
    · exact h.observed n hn t ht
    · rcases latestObserved_eq_some ht with e | ⟨row, hrow, rfl⟩
      · exact h.observed m hm t e
      · exact (hr row hrow).2
  updated hc n hn r hrec := by
    rcases mem_load.1 hn with ⟨hn, -⟩ | ⟨m, hm, rfl, rfl⟩
    · exact h.updated hc n hn r hrec
    refine (Schema.upserts_forall (P := fun a => c.schema.Typed a ∧
      UpdatedBefore c (m.windowStart + i) a) ?_ ?_ ?_ r hrec).2
    · exact fun a b ha hb => ⟨ha.1.merge hb.1, ha.2.merge hc ha.1 hb.1 hb.2⟩
    · intro row hrow
      obtain ⟨hfit, -, hlt⟩ := hr row hrow
      rw [hfit.keep_eq hc]
      exact ⟨hfit.typed, row.observedAt, hfit.updated, hlt⟩
    · exact fun a ha => ⟨hs.typed m hm a ha, h.updated hc m hm a ha⟩

end Series

namespace Reader

variable {r r' : Reader}

/-- Snapshots that were written to are not later than the bucket that was taken last. -/
def Taken (r : Reader) : Prop :=
  ∀ c, ∀ n ∈ r.series c, n.writerEnd.isSome = true →
    ∃ last, r.lastBucket = some last ∧ n.windowStart ≤ last

theorem mem_rowsOf {w : Int} {es : List Event} {c : Category} {row : Row}
    (h : row ∈ r.rowsOf w es c) :
    Series.Fits c row ∧ w ≤ row.observedAt ∧ row.observedAt < w + r.settings.interval := by
  obtain ⟨e, -, he⟩ := List.mem_flatMap.1 h
  obtain ⟨hfit, hw⟩ := fits_of_mem_rowsFor he
  exact ⟨hfit, Window.contains_iff.1 hw⟩

theorem opened_sound (hr : r.Regular) (w : Int) (c : Category) : Series.Sound c (r.opened w c) :=
  (hr.sound c).opened

theorem loaded_sound (hr : r.Regular) (w : Int) (es : List Event) (c : Category) :
    Series.Sound c (r.loaded w es c) :=
  (r.opened_sound hr w c).load fun _ hrow => (mem_rowsOf hrow).1

theorem exists_mem_loaded (r : Reader) (w : Int) (es : List Event) (c : Category) :
    ∃ n ∈ r.loaded w es c, n.windowStart = w := by
  obtain ⟨n, hn, hw⟩ := Series.exists_mem_opened c r.settings.maxInFlightAge w (r.series c)
  exact ⟨_, Series.mem_load.2 (.inr ⟨n, hn, hw, rfl⟩), hw⟩

theorem loaded_placed (hr : r.Regular) {w : Int} (hw : r.settings.interval ∣ w)
    (h : ∀ c, Series.Placed c r.settings.interval (r.series c)) (es : List Event) (c : Category) :
    Series.Placed c r.settings.interval (r.loaded w es c) :=
  ((h c).opened hw _).load (r.opened_sound hr w c) fun _ hrow => mem_rowsOf hrow

/-- Once the bucket `w` is dispatched, no later snapshot was written to. -/
theorem loaded_taken (h : r.Taken) {now w : Int} (hw : r.pickBucket now = some w)
    (es : List Event) (c : Category) :
    ∀ n ∈ r.loaded w es c, n.writerEnd.isSome = true → n.windowStart ≤ w := by
  intro n hn hobs
  rcases Series.mem_load.1 hn with ⟨hn, -⟩ | ⟨m, -, rfl, rfl⟩
  · rcases Series.mem_opened.1 hn with hn | ⟨-, rfl⟩
    · obtain ⟨last, hlast, hle⟩ := h c n hn hobs
      have := (pickBucket_eq_some.1 hw).2 last hlast
      omega
    · cases hobs
  · exact Int.le_refl _

theorem Move.placed {σ : Type} {t : Tick σ} {answer : Option Report} (hm : Move t r r' answer)
    (hr : r.Regular)
    (h : ∀ c, Series.Placed c r.settings.interval (r.series c)) (ht : r.Taken) :
    (∀ c, Series.Placed c r.settings.interval (r'.series c)) ∧ r'.Taken := by
  cases hm with
  | idle pick series last answered =>
    refine ⟨fun c => by rw [series c]; exact h c, fun c n hn => ?_⟩
    rw [last]
    exact ht c n (series c ▸ hn)
  | failed pick given series last answered =>
    refine ⟨fun c => by rw [series c]; exact (h c).opened (dvd_of_pickBucket pick) _,
      fun c n hn hobs => ?_⟩
    rw [series c] at hn
    rw [last]
    rcases Series.mem_opened.1 hn with hn | ⟨-, rfl⟩
    · exact ht c n hn hobs
    · cases hobs
  | loaded pick given series last answered =>
    refine ⟨fun c => by rw [series c]; exact loaded_placed hr (dvd_of_pickBucket pick) h _ c,
      fun c n hn hobs => ⟨_, last, ?_⟩⟩
    exact loaded_taken ht pick _ c n (series c ▸ hn) hobs
  | trimmed pick given series last answered =>
    refine ⟨fun c => ?_, fun c n hn hobs => ⟨_, last, ?_⟩⟩
    · rw [series c]
      exact (loaded_placed hr (dvd_of_pickBucket pick) h _ c).subset
        fun n hn => List.mem_of_mem_drop hn
    · rw [series c] at hn
      exact loaded_taken ht pick _ c n (List.mem_of_mem_drop hn) hobs

end Reader

/-- **Throughout a history snapshots lie on the grid and speak of their own windows**, and none that
was written to is later than the bucket that was taken last. -/
theorem History.Fresh.placed {σ : Type} {settings : ReaderSettings} {h : History σ}
    (hf : h.Fresh settings) (j : Nat) :
    (∀ c, Series.Placed c settings.interval (h.series j c)) ∧ (h.reader j).Taken := by
  refine hf.induct (P := fun r =>
    (∀ c, Series.Placed c settings.interval (r.series c)) ∧ r.Taken) ⟨fun c => ?_, fun c n hn => ?_⟩
    (fun t r r' answer hr hset _ ⟨hp, ht⟩ hm => ?_) j
  · rw [show (h.reader 0).series c = [] from hf.series_zero c]; exact .nil ..
  · rw [show (h.reader 0).series c = [] from hf.series_zero c] at hn; cases hn
  · subst hset
    exact hm.placed hr hp ht

end WindowAlign
