import WindowAlign.Action
import WindowAlign.Sink.Database

/-!
# Sinks

A port is what the reader asks of the place to which it reports: to store the
metrics of a category, to store the members of the cluster, and to drop what is
old. `Database.port` is the port of a metrics database. `Watched` puts a switch in
front of a sink and keeps a record of the metrics that were offered to it.
-/

namespace WindowAlign

/-- The operations of a sink whose state is a `σ`. -/
structure SinkPort (σ : Type) where
  /-- Store the metrics of a category for the reader window that starts there. -/
  writeAggregated : Category → Int → Aligned → Action σ Nat
  /-- Store the members of the cluster for the reader window that starts there. -/
  writeTopology : Int → Topology → Action σ Nat
  /-- Drop every window before a time. -/
  purgeBefore : Int → Action σ Nat

namespace SinkPort

variable {σ : Type}

/-- A sink that keeps what is old. -/
def keepingAll (p : SinkPort σ) : SinkPort σ :=
  { p with purgeBefore := fun _ => pure 0 }

end SinkPort

namespace Database

def changing (f : Database → Except StorageFault (Nat × Database)) : Action Database Nat := fun d =>
  match f d with
  | .ok (n, d) => .ok n d
  | .error e => .error (.storage e) d

def port : SinkPort Database where
  writeAggregated c t a := changing (·.writeAggregated c t a)
  writeTopology t n := changing (·.writeTopology t n)
  purgeBefore t := changing (·.purgeBefore t)

end Database

/-- A sink behind a switch. -/
structure Watched (σ : Type) where
  sink : σ
  /-- Whether the sink is switched off. -/
  down : Bool
  /-- The metrics that were offered while it was on, latest first. -/
  offers : List Aligned

namespace Watched

variable {σ α : Type}

def fresh (sink : σ) : Watched σ :=
  ⟨sink, false, []⟩

/-- An action on the sink, refused while it is switched off. -/
def whenUp (a : Action σ α) : Action (Watched σ) α := fun w =>
  if w.down then .error (.config (.unavailable "sink")) w
  else Action.onPart sink (fun s w => { w with sink := s }) a w

/-- Record an offer, unless the sink is switched off. -/
def note (a : Aligned) : Action (Watched σ) Unit :=
  modify fun w => if w.down then w else { w with offers := a :: w.offers }

def port (p : SinkPort σ) : SinkPort (Watched σ) where
  writeAggregated c t a := do
    note a
    whenUp (p.writeAggregated c t a)
  writeTopology t n := whenUp (p.writeTopology t n)
  purgeBefore t := whenUp (p.purgeBefore t)

end Watched

end WindowAlign
