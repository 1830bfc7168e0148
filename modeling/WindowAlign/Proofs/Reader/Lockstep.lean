import Mathlib.Data.List.Sort
import WindowAlign.Proofs.Reader.Growth
import WindowAlign.Proofs.Reader.Reports

/-!
# Categories in lock-step

Which windows have snapshots is decided without a look at what is in them: a cycle opens its bucket
in every series, writing to a snapshot leaves its window alone, and trimming goes by number. So a
move acts on the starts of the windows (`Reader.Move.starts_series`), in the same way for every
category, and the categories have the same starts throughout. As no fewer snapshots are retained
than alignment asks for, a series that is long enough stays so (`History.Fresh.deep_from`).
-/

namespace WindowAlign

namespace Series

variable {c : Category} {w : Int} {l : List Snapshot}

def starts (l : List Snapshot) : List Int :=
  l.map (·.windowStart)

@[simp] theorem length_starts (l : List Snapshot) : (starts l).length = l.length :=
  List.length_map ..

/-- Starts with that of a window added, unless it is there. -/
def withStart (w : Int) (starts : List Int) : List Int :=
  if w ∈ starts then starts else starts.orderedInsert (· < ·) w

theorem starts_insertSnapshot (n : Snapshot) (l : List Snapshot) :
    starts (Store.insertSnapshot n l) = (starts l).orderedInsert (· < ·) n.windowStart := by
  induction l with
  | nil => rfl
  | cons a l ih =>
    unfold Store.insertSnapshot
    by_cases hlt : n.windowStart < a.windowStart
    · rw [if_pos hlt]
      exact (List.orderedInsert_cons_of_le _ (starts l) hlt).symm
    · rw [if_neg hlt]
      exact (congrArg (a.windowStart :: ·) ih).trans
        (List.orderedInsert_of_not_le _ (starts l) hlt).symm

theorem starts_opened (c : Category) (maxAge w : Int) (l : List Snapshot) :
    starts (opened c maxAge w l) = withStart w (starts l) := by
  unfold opened withStart
  cases hw : at? w l with
  | some n =>
    have hin : w ∈ starts l :=
      List.mem_map.2 ⟨n, List.mem_of_find?_eq_some hw, by simpa using List.find?_some hw⟩
    rw [if_pos hin]
  | none =>
    have hout : w ∉ starts l := fun hin => by
      obtain ⟨n, hn, e⟩ := List.mem_map.1 hin
      exact at?_eq_none.1 hw n hn e
    rw [if_neg hout, starts_insertSnapshot]

theorem starts_load (c : Category) (w : Int) (rows : List Row) (l : List Snapshot) :
    starts (load c w rows l) = starts l :=
  windowStart_load c w rows l

def keptStarts (depth : Nat) (starts : List Int) : List Int :=
  starts.drop (starts.length - depth)

theorem starts_kept (depth : Nat) (l : List Snapshot) :
    starts (kept depth l) = keptStarts depth (starts l) := by
  rw [keptStarts, length_starts, kept, starts, List.map_drop]
  rfl

end Series

namespace Reader

variable {σ : Type} {t : Tick σ} {r r' : Reader} {answer : Option Report}

theorem starts_loaded (r : Reader) (w : Int) (es : List Event) (c : Category) :
    Series.starts (r.loaded w es c) = Series.withStart w (Series.starts (r.series c)) :=
  (Series.starts_load ..).trans (Series.starts_opened ..)

/-- **What a move does to the starts of a series does not depend on the category.** -/
theorem Move.starts_series (hm : Move t r r' answer) :
    ∃ f : List Int → List Int,
      ∀ c, Series.starts (r'.series c) = f (Series.starts (r.series c)) := by
  cases hm with
  | idle pick series => exact ⟨id, fun c => by rw [series c]; rfl⟩
  | @failed w _ pick given series =>
    exact ⟨Series.withStart w, fun c => by rw [series c, opened, Series.starts_opened]⟩
  | @loaded w _ pick given series =>
    exact ⟨Series.withStart w, fun c => by rw [series c, starts_loaded]⟩
  | @trimmed w _ pick given series =>
    exact ⟨Series.keptStarts r.settings.retainDepth ∘ Series.withStart w, fun c => by
      rw [series c, Series.starts_kept, starts_loaded]; rfl⟩

/-- A category lacks history where trimming has left it fewer snapshots than alignment asks for. -/
theorem Reported.lacksHistory_iff {w : Int} {after : Intake} {report : Report}
    (h : r.Reported r' w after report) (hr : r.Regular) {o : Category × CategoryOutcome}
    (ho : o ∈ report.outcomes) :
    o.2.lacksHistory = true ↔ (r'.series o.1).length < r.settings.alignmentDepth := by
  have hretain := hr.retaining
  rw [(h.outcomes o ho).lacksHistory_iff, h.series o.1, Series.length_kept]
  show _ < r.settings.alignmentDepth ↔ _
  omega

end Reader

namespace History

variable {σ : Type} {settings : ReaderSettings} {h : History σ}

theorem Fresh.starts_eq (hf : h.Fresh settings) (j : Nat) (c d : Category) :
    Series.starts (h.series j c) = Series.starts (h.series j d) := by
  refine hf.induct (P := fun r => Series.starts (r.series c) = Series.starts (r.series d)) ?_
    (fun t r r' answer _ _ _ ih hm => ?_) j
  · rw [show (h.reader 0).series c = [] from hf.series_zero c,
      show (h.reader 0).series d = [] from hf.series_zero d]
  · obtain ⟨f, hstarts⟩ := hm.starts_series
    rw [hstarts c, hstarts d, ih]

theorem Fresh.length_eq (hf : h.Fresh settings) (j : Nat) (c d : Category) :
    (h.series j c).length = (h.series j d).length := by
  rw [← Series.length_starts, hf.starts_eq j c d, Series.length_starts]

theorem Fresh.lacksHistory_iff (hf : h.Fresh settings) {j : Nat} {report : Report}
    (hanswer : h.answer j = some report) {o : Category × CategoryOutcome}
    (ho : o ∈ report.outcomes) :
    o.2.lacksHistory = true ↔ (h.series (j + 1) o.1).length < settings.alignmentDepth := by
  rcases hf.idle_or_dispatched hanswer with rfl | ⟨w, es, hd⟩
  · cases ho
  · obtain ⟨t, stats, after, -, -, -, -, hreported⟩ := hf.reported hd hanswer
    obtain ⟨hreg, rfl⟩ := hf.regular j
    exact hreported.lacksHistory_iff hreg ho

end History

end WindowAlign
