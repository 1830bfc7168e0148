import WindowAlign.Config.ReaderSettings
import WindowAlign.Ingest.Intake
import WindowAlign.Sink.Port

/-!
# The reader

In each cycle the reader takes one bucket of the writer, a fixed lag behind the
clock so that the writer is done with it. The bucket is dispatched, then the
reader window that ends where the bucket starts is aligned for every metric
category and offered to the sink, then the members of the cluster are, and last
the store is trimmed and the sink purged. A fault ends the cycle where it stands,
and the bucket counts as taken once it was dispatched.
-/

namespace WindowAlign

/-- What became of a category in a cycle. -/
inductive CategoryOutcome where
  | emitted (rows values : Nat)
  | skipped (reason : Skip)
  deriving DecidableEq, Repr

/-- The account of one cycle; an idle one took no bucket. -/
structure Report where
  bucket : Option Int
  window : Option Window
  stats : Stats
  outcomes : List (Category × CategoryOutcome)
  /-- Members of the cluster that were written. -/
  topologyNodes : Nat
  /-- Snapshots that were dropped. -/
  trimmed : Nat
  /-- Ends of operations that were dropped without a start. -/
  orphaned : Nat

namespace Report

def idle : Report :=
  ⟨none, none, .zero, [], 0, 0, 0⟩

def isIdle (r : Report) : Bool :=
  r.bucket.isNone

def isEmitted : CategoryOutcome → Bool
  | .emitted _ _ => true
  | .skipped _ => false

def emitted (r : Report) : Nat :=
  r.outcomes.countP fun o => isEmitted o.2

end Report

structure Reader where
  settings : ReaderSettings
  intake : Intake
  /-- How far the sink reaches back before the reader window. -/
  retention : Option Int
  /-- The bucket that was dispatched last. -/
  lastBucket : Option Int
  /-- Cycles that failed since the last that did not. -/
  failures : Nat

structure Session (σ : Type) where
  reader : Reader
  sink : σ

namespace Reader

/-- A reader that has seen nothing, where its settings can be used. -/
def fresh? (settings : ReaderSettings) : Except ConfigFault Reader :=
  match settings.validate with
  | .error e => .error e
  | .ok () =>
    .ok ⟨settings,
      .fresh (Intake.allProcessors settings.maxInFlightAge) settings.batchRows settings.interval,
      none, none, 0⟩

def withRetention (r : Reader) (windows : Nat) : Reader :=
  { r with retention := some (Signed64.wrap windows * r.settings.interval) }

/-- The bucket to take at a time, unless it or a later one was taken. -/
def pickBucket (r : Reader) (now : Int) : Option Int :=
  let bucket := alignDown (now - r.settings.writerLag) r.settings.interval
  match r.lastBucket with
  | some last => if bucket ≤ last then none else some bucket
  | none => some bucket

def policy (r : Reader) : AlignmentPolicy :=
  ⟨r.settings.alignmentDepth, r.settings.tolerance⟩

/-- Trim the categories of a list in turn; the number of snapshots and of orphans
that are dropped. -/
def trimEach (depth : Nat) : List Category → Store → (Nat × Nat) × Store
  | [], s => ((0, 0), s)
  | c :: cs, s =>
    let (t, s) := s.trim c depth
    let ((removed, orphaned), s) := trimEach depth cs s
    ((t.removed.length + removed, t.orphaned + orphaned), s)

/-- Trim every category to the depth that the settings retain. -/
def trim (r : Reader) : (Nat × Nat) × Reader :=
  let (dropped, store) := trimEach r.settings.retainDepth Category.all r.intake.store
  (dropped, { r with intake := { r.intake with store } })

end Reader

namespace Session

variable {σ α : Type}

def onIntake (a : Action Intake α) : Action (Session σ) α :=
  Action.onPart (·.reader.intake)
    (fun i s => { s with reader := { s.reader with intake := i } }) a

def onSink (a : Action σ α) : Action (Session σ) α :=
  Action.onPart (·.sink) (fun k s => { s with sink := k }) a

/-- Align a category for a reader window and offer it to the sink. -/
def emit (port : SinkPort σ) (w : Window) (c : Category) : Action (Session σ) CategoryOutcome := do
  let r := (← get).reader
  match r.intake.store.align r.policy c w with
  | .error e => throw (.storage e)
  | .ok (.error reason) => return .skipped reason
  | .ok (.ok aligned) =>
    let values ← onSink (port.writeAggregated c w.start aligned)
    return .emitted aligned.table.rows.length values

def emitEach (port : SinkPort σ) (w : Window) :
    List Category → Action (Session σ) (List (Category × CategoryOutcome))
  | [] => pure []
  | c :: cs => do
    let outcome ← emit port w c
    let rest ← emitEach port w cs
    return (c, outcome) :: rest

/-- Offer the members of the cluster to the sink, if any are known. -/
def emitTopology (port : SinkPort σ) (w : Window) : Action (Session σ) Nat := do
  let t := (← get).reader.intake.topology
  if t.isEmpty then return 0
  onSink (port.writeTopology w.start t)

def trim : Action (Session σ) (Nat × Nat) := fun s =>
  let (dropped, reader) := s.reader.trim
  .ok dropped { s with reader }

/-- Drop what the sink need not keep any more. -/
def purge (port : SinkPort σ) (w : Window) : Action (Session σ) Unit := do
  match (← get).reader.retention with
  | none => return
  | some retention => discard (onSink (port.purgeBefore (w.start - retention)))

def markTaken (bucket : Int) : Action (Session σ) Unit :=
  modify fun s => { s with reader := { s.reader with lastBucket := some bucket } }

def take (port : SinkPort σ) (source : Source) (bucket : Int) : Action (Session σ) Report := do
  let w := Window.ofStart bucket (← get).reader.settings.interval
  let stats ← onIntake (Intake.run source w)
  markTaken bucket
  let outcomes ← emitEach port w.previous Category.metrics
  let topologyNodes ← emitTopology port w.previous
  let (trimmed, orphaned) ← trim
  purge port w.previous
  return ⟨some bucket, some w.previous, stats, outcomes, topologyNodes, trimmed, orphaned⟩

def cycle (port : SinkPort σ) (source : Source) (now : Int) : Action (Session σ) Report := do
  match (← get).reader.pickBucket now with
  | none => return .idle
  | some bucket => take port source bucket

def setFailures (s : Session σ) (n : Nat) : Session σ :=
  { s with reader := { s.reader with failures := n } }

/-- One cycle of a run: a fault is counted, and the next cycle starts afresh. -/
def step (port : SinkPort σ) (source : Source) (now : Int) (s : Session σ) :
    Option Report × Session σ :=
  match cycle port source now s with
  | .ok report s => (some report, s.setFailures 0)
  | .error _ s => (none, s.setFailures (s.reader.failures + 1))

end Session

end WindowAlign
