import WindowAlign.Action
import WindowAlign.Ingest.Stats

/-!
# Intake

The intake hands the events of a bucket to its processors. An event goes to the
first processor that claims it; a processor whose buffer has reached the batch
size writes it at once, and the rest is written at the end of the pass. A fault of
the source or of the store ends the pass where it stands.
-/

namespace WindowAlign

/-- The processors with what they write to and what they have counted. -/
structure Intake where
  processors : List Processor
  batch : Nat
  stats : Stats
  store : Store
  topology : Topology

abbrev Source := Int → Except Fault (List Event)

namespace Intake

/-- An intake with an empty store. Batches hold one row at least. -/
def fresh (processors : List Processor) (batch : Nat) (interval : Int) : Intake :=
  ⟨processors, max 1 batch, .zero, .empty interval, .unknown⟩

def allProcessors (maxAge : Int) : List Processor :=
  Category.all.map (Processor.fresh · maxAge)

def bindEach (w : Window) : List Processor → Store → List Processor × Store
  | [], s => ([], s)
  | p :: ps, s =>
    let (p, s) := p.bindTo w s
    let (ps, s) := bindEach w ps s
    (p :: ps, s)

/-- Bind every processor to a window and count from zero. -/
def bindAll (i : Intake) (w : Window) : Intake :=
  let (processors, store) := bindEach w i.processors i.store
  { i with processors, store, stats := .zero }

def claimant? (e : Event) : List Processor → Option (List Processor × Processor × List Processor)
  | [] => none
  | p :: ps =>
    if p.claims e then some ([], p, ps)
    else (claimant? e ps).map fun (before, q, after) => (p :: before, q, after)

/-- Write the buffer of a processor once it has reached the batch size. -/
def flush (batch : Nat) (p : Processor) (s : Store) (stats : Stats) :
    Except Fault Unit × Processor × Store × Stats :=
  if batch ≤ p.pending.length then
    match p.commit s with
    | (.error e, p, s) => (.error (.storage e), p, s, stats)
    | (.ok rows, p, s) => (.ok (), p, s, stats.addWritten p.category rows)
  else (.ok (), p, s, stats)

def dispatch (e : Event) : Action Intake Unit := fun i =>
  match claimant? e i.processors with
  | none => .ok () { i with stats := i.stats.addUnclaimed }
  | some (before, p, after) =>
    let (verdict, p, topology) := p.process i.topology e
    match flush i.batch p i.store (i.stats.addVerdict verdict) with
    | (.ok (), p, store, stats) =>
      .ok () { i with processors := before ++ p :: after, store, stats, topology }
    | (.error f, p, store, stats) =>
      .error f { i with processors := before ++ p :: after, store, stats, topology }

def dispatchAll : List Event → Action Intake Unit
  | [] => pure ()
  | e :: es => do
    dispatch e
    dispatchAll es

def commitEach : List Processor → Store → Stats → Except Fault Unit × List Processor × Store × Stats
  | [], s, stats => (.ok (), [], s, stats)
  | p :: ps, s, stats =>
    match p.commit s with
    | (.error e, p, s) => (.error (.storage e), p :: ps, s, stats)
    | (.ok rows, p, s) =>
      let (r, ps, s, stats) := commitEach ps s (stats.addWritten p.category rows)
      (r, p :: ps, s, stats)

/-- Write what is still buffered, and take the counters of the pass. -/
def finish : Action Intake Stats := fun i =>
  match commitEach i.processors i.store i.stats with
  | (.error f, processors, store, stats) => .error f { i with processors, store, stats }
  | (.ok (), processors, store, stats) => .ok stats { i with processors, store, stats := .zero }

/-- One pass: bind the processors to a window, hand over the events of its bucket
and write what they gave. -/
def run (source : Source) (w : Window) : Action Intake Stats := do
  modify (·.bindAll w)
  let events ← Action.answer (source w.start)
  dispatchAll events
  finish

end Intake

end WindowAlign
