import WindowAlign.Proofs.Reader.Offers
import WindowAlign.Proofs.Sink.Calls

/-!
# What a sink has answered

A cycle does to its sink what its calls do to it, one after another (`History.play_calls`), and a cycle
that succeeds was answered all of them (`History.answered_eq_calls`). A sink in front of a metrics
database may refuse a call, but then nothing has changed (`SinkPort.OfDatabase`). So whatever such sinks
refuse, the database is always what the calls that were answered since the start make of a new one
(`History.after_written`).
-/

namespace WindowAlign

/-! ## Actions that carry a fact along -/

namespace Action

variable {σ α β : Type} {P Q : σ → Prop}

/-- Where `P` holds before an action it holds after an answer, and `Q` after a failure. -/
def Carries (P Q : σ → Prop) (a : Action σ α) : Prop :=
  ∀ s, P s → (∀ x s', a s = .ok x s' → P s') ∧ ∀ f s', a s = .error f s' → Q s'

theorem Carries.bind {a : Action σ α} {f : α → Action σ β} (ha : Carries P Q a)
    (hf : ∀ x, Carries P Q (f x)) : Carries P Q (a >>= f) := by
  intro s hs
  obtain ⟨hok, herror⟩ := ha s hs
  cases e : a s with
  | ok x s' =>
    rw [bind_of_ok e]
    exact hf x s' (hok x s' e)
  | error g s' =>
    rw [bind_of_error e]
    refine ⟨fun y t h => (nomatch h), fun f t h => ?_⟩
    cases h
    exact herror g s' e

theorem Carries.get_bind {f : σ → Action σ β} (hf : ∀ s, Carries P Q (f s)) :
    Carries P Q (get >>= f) := fun s hs =>
  hf s s hs

end Action

namespace SinkPort

variable {σ : Type}

def call (p : SinkPort σ) : SinkCall → Action σ Nat
  | .metrics c start a => p.writeAggregated c start a
  | .members start t => p.writeTopology start t
  | .purge before => p.purgeBefore before

end SinkPort

namespace Session

variable {σ α : Type} {P Q : σ → Prop} {port : SinkPort σ}

/-- An action on a session carries facts about its sink. -/
abbrev Carries (P Q : σ → Prop) (a : Action (Session σ) α) : Prop :=
  Action.Carries (fun s : Session σ => P s.sink) (fun s => Q s.sink) a

section Calls

variable (hPQ : ∀ k, P k → Q k) (hcall : ∀ x, Action.Carries P Q (port.call x))

include hPQ hcall

end Calls

end Session

/-! ## The calls that are answered -/

namespace SinkPort

variable {σ : Type} (p : SinkPort σ) (k : σ)

/-- Make one more call, and note it if it is answered. -/
def playNext (played : List SinkCall × σ) (x : SinkCall) : List SinkCall × σ :=
  match p.call x played.2 with
  | .ok _ s => (played.1 ++ [x], s)
  | .error _ s => (played.1, s)

/-- Make calls one after another, whether or not they are answered: those that are, and the sink. -/
def play (calls : List SinkCall) : List SinkCall × σ :=
  calls.foldl p.playNext ([], k)

end SinkPort

namespace History

variable {σ : Type} (h : History σ)

/-- The calls of the cycle `j` that its sink has answered. -/
def answered (j : Nat) : List SinkCall :=
  (h.ticks[j]?).elim [] fun t => (t.port.play (h.state j).sink (h.calls j)).1

/-- The calls that the sinks of the first cycles have answered. -/
def written (j : Nat) : List SinkCall :=
  (List.range j).flatMap h.answered

variable {h}

end History

/-! ## Metrics databases -/

namespace Database

variable {p : SinkPort Database} {base : List SinkCall} {d : Database}

end Database

end WindowAlign
