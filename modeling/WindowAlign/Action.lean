import WindowAlign.Fault

/-!
# Actions

An action changes a state and gives an answer or a fault. The state that it has
reached is kept in both cases: nothing is undone when a later step fails.
-/

namespace WindowAlign

/-- A change of a state that answers or fails. -/
abbrev Action (σ α : Type) := EStateM Fault σ α

namespace Action

variable {σ τ α : Type}

/-- The answer of an action and the state after it. -/
def outcome (a : Action σ α) (s : σ) : Except Fault α × σ :=
  match a s with
  | .ok x s => (.ok x, s)
  | .error e s => (.error e, s)

/-- The action that changes the state and does not fail. -/
def change (f : σ → α × σ) : Action σ α := fun s =>
  .ok (f s).1 (f s).2

/-- The action that answers or fails and leaves the state alone. -/
def answer (r : Except Fault α) : Action σ α := fun s =>
  match r with
  | .ok x => .ok x s
  | .error e => .error e s

def onPart (part : σ → τ) (put : τ → σ → σ) (a : Action τ α) : Action σ α := fun s =>
  match a (part s) with
  | .ok x t => .ok x (put t s)
  | .error e t => .error e (put t s)

end Action

end WindowAlign
