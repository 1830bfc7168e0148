import WindowAlign.Proofs.Reader.History

/-!
# The first bucket

A fresh reader takes the bucket that is due (`ReaderSettings.Due`): the window of the sampling
interval's grid that holds the time a lag behind the clock. Its settings give the interval as an
unsigned word and the reader counts with the signed reading of it (`ReaderSettings.interval`). For
every interval that fits into a signed word the two agree, and the bucket is due at all times. The
check of the settings lets longer ones through, whose signed reading is negative:
`Reader.pickBucket_due_iff` says for which of the settings that pass the check the reader takes the
buckets that are due.
-/

namespace WindowAlign

namespace ReaderSettings

variable {s : ReaderSettings}

/-- The bucket that a reader should take: on the grid of the sampling interval, and the last that
starts no later than the lag before the clock. -/
structure Due (s : ReaderSettings) (now bucket : Int) : Prop where
  onGrid : (s.samplingInterval : Int) ∣ bucket
  le : bucket ≤ now - s.samplingInterval * s.lagWindows
  lt : now - s.samplingInterval * s.lagWindows < bucket + s.samplingInterval

theorem interval_of_le (h : s.samplingInterval ≤ Signed64.greatest) : s.interval = s.samplingInterval :=
  Signed64.wrap_of_le h

theorem interval_of_lt (h : Signed64.greatest < s.samplingInterval)
    (hword : s.samplingInterval < 18446744073709551616) :
    s.interval = s.samplingInterval - 18446744073709551616 :=
  Signed64.wrap_of_lt h hword

theorem interval_ne_zero (hpos : 0 < s.samplingInterval)
    (hword : s.samplingInterval < 18446744073709551616) : s.interval ≠ 0 := by
  rcases Int.lt_or_le Signed64.greatest s.samplingInterval with h | h
  · rw [interval_of_lt h hword]
    omega
  · rw [interval_of_le h]
    omega

theorem due_alignDown {now i : Int} (hi : (s.samplingInterval : Int) = i) (hpos : 0 < i) :
    s.Due now (alignDown (now - i * s.lagWindows) i) := by
  subst hi
  exact ⟨dvd_alignDown _ _, alignDown_le hpos _, lt_alignDown_add hpos _⟩

/-- Where the signed reading is negative, a lag puts the reader ahead of the clock. -/
theorem not_due_of_lag (h : Signed64.greatest < s.samplingInterval)
    (hword : s.samplingInterval < 18446744073709551616) (hlag : 0 < s.lagWindows) :
    ¬ s.Due 0 (alignDown (0 - s.writerLag) s.interval) := by
  intro hdue
  have hneg : s.interval < 0 := by
    rw [interval_of_lt h hword]
    omega
  have hahead : 0 - s.writerLag = s.interval * -s.lagWindows := by
    rw [writerLag, Int.mul_neg, Int.zero_sub]
  have hbucket : alignDown (0 - s.writerLag) s.interval = 0 - s.writerLag := by
    rw [alignDown, hahead, Int.mul_emod_right, Int.sub_zero]
  have hle := hdue.le
  rw [hbucket, hahead] at hle
  have : 0 < s.interval * -s.lagWindows := Int.mul_pos_of_neg_of_neg hneg (by omega)
  have : 0 ≤ (s.samplingInterval : Int) * s.lagWindows := Int.mul_nonneg (by omega) (by omega)
  omega

/-- Where the signed reading is negative and shorter, the reader takes buckets that are not on the
grid. -/
theorem not_due_of_shorter (h : Signed64.greatest + 1 < s.samplingInterval)
    (hword : s.samplingInterval < 18446744073709551616) (hlag : s.lagWindows = 0) :
    ¬ s.Due (-s.interval) (alignDown (-s.interval - s.writerLag) s.interval) := by
  intro hdue
  have hinterval := interval_of_lt (by omega) hword
  have hbucket : alignDown (-s.interval - s.writerLag) s.interval = -s.interval := by
    rw [writerLag, hlag, alignDown, Int.ofNat_zero, Int.mul_zero, Int.sub_zero, Int.neg_emod_self,
      Int.sub_zero]
  have hdvd := hdue.onGrid
  rw [hbucket, hinterval] at hdvd
  have := Int.le_of_dvd (by omega) hdvd
  unfold Signed64.greatest at h
  omega

/-- **Where the bucket on the signed grid is due at all times**: for intervals that fit, and for the
one that only changes its sign, without a lag. -/
theorem due_iff (hpos : 0 < s.samplingInterval) (hword : s.samplingInterval < 18446744073709551616) :
    (∀ now, s.Due now (alignDown (now - s.writerLag) s.interval)) ↔
      s.samplingInterval ≤ Signed64.greatest ∨
        s.samplingInterval = Signed64.greatest + 1 ∧ s.lagWindows = 0 := by
  constructor
  · intro hall
    rcases Int.lt_or_le Signed64.greatest s.samplingInterval with hlt | hle
    · have hlag : s.lagWindows = 0 :=
        Nat.eq_zero_of_not_pos fun hlag => not_due_of_lag hlt hword hlag (hall 0)
      refine .inr ⟨?_, hlag⟩
      by_contra hne
      exact not_due_of_shorter (by omega) hword hlag (hall _)
    · exact .inl hle
  · rintro (hle | ⟨heq, hlag⟩) now
    · rw [writerLag, interval_of_le hle]
      exact due_alignDown rfl (by omega)
    · have hflip : s.interval = -s.samplingInterval := by
        rw [interval_of_lt (by omega) hword, heq]
        rfl
      have hsame : s.Due now _ := due_alignDown rfl (by omega)
      rw [writerLag, hflip, alignDown, Int.emod_neg]
      rw [hlag, Int.ofNat_zero, Int.mul_zero] at hsame ⊢
      exact hsame

end ReaderSettings

namespace Reader

variable {s : ReaderSettings}

theorem fresh?_of_valid (h : s.validate = .ok ()) : ∃ r, fresh? s = .ok r := by
  unfold fresh?
  rw [h]
  exact ⟨_, rfl⟩

theorem pickBucket_fresh {r : Reader} (h : fresh? s = .ok r) (now : Int) :
    r.pickBucket now = some (alignDown (now - s.writerLag) s.interval) := by
  obtain ⟨rfl, -, hlast, -⟩ := fresh?_eq_ok h
  rw [pickBucket, hlast]

/-- **Which accepted settings make a reader take the bucket that is due.** Whatever they are, the grid
exists and a fresh reader takes a bucket of it at any time. -/
theorem pickBucket_due_iff (hvalid : s.validate = .ok ())
    (hword : s.samplingInterval < 18446744073709551616) :
    ∃ r, fresh? s = .ok r ∧
      (∀ now, ∃ bucket, alignDown? (now - s.writerLag) s.interval = some bucket ∧
        r.pickBucket now = some bucket) ∧
      ((∀ now bucket, r.pickBucket now = some bucket → s.Due now bucket) ↔
        s.samplingInterval ≤ Signed64.greatest ∨
          s.samplingInterval = Signed64.greatest + 1 ∧ s.lagWindows = 0) := by
  obtain ⟨r, hr⟩ := fresh?_of_valid hvalid
  have hpos := s.samplingInterval_pos hvalid
  have hgrid := ReaderSettings.interval_ne_zero hpos hword
  refine ⟨r, hr, fun now => ⟨_, if_neg hgrid, pickBucket_fresh hr now⟩, ?_⟩
  rw [← ReaderSettings.due_iff hpos hword]
  refine forall_congr' fun now => ?_
  rw [pickBucket_fresh hr]
  simp only [Option.some.injEq, forall_eq']

end Reader

/-- The settings with an interval that is read as minus five seconds. -/
def ReaderSettings.negated : ReaderSettings :=
  { ReaderSettings.defaults with samplingInterval := 18446744073709546616, lagWindows := 0 }

/-- They pass the check, and the reader takes the bucket at five seconds, a multiple of five seconds
but not of the interval. -/
theorem Reader.pickBucket_due_iff_negated :
    let s := ReaderSettings.negated
    s.validate = .ok () ∧ s.samplingInterval < 18446744073709551616 ∧
      ∃ r, fresh? s = .ok r ∧ r.pickBucket 7000 = some 5000 ∧ ¬ s.Due 7000 5000 ∧
        ¬ ∀ now bucket, r.pickBucket now = some bucket → s.Due now bucket := by
  intro s
  have hvalid : s.validate = .ok () := rfl
  have hword : s.samplingInterval < 18446744073709551616 := by decide
  obtain ⟨r, hr, -, hiff⟩ := pickBucket_due_iff hvalid hword
  refine ⟨hvalid, hword, r, hr, ?_, ?_, ?_⟩
  · rw [pickBucket_fresh hr]
    decide
  · intro hdue
    have := hdue.onGrid
    revert this
    decide
  · rw [hiff]
    decide

end WindowAlign
