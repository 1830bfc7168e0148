import WindowAlign.Store.Lifecycle
import WindowAlign.Topology.NodeText

/-!
# Processors

A processor decodes the events of one category. It is bound to a window, buffers
the rows of the blocks whose time lies in that window, and writes them in batches.
An event is buffered, stale or rejected, and leaves a trace only when it is
buffered. The first stage that fails decides: the path, the header, the window,
the body.

Membership lists have a row for each member, and a list that is accepted is also
offered for publication.
-/

namespace WindowAlign

/-- The decoder of one category and the rows that it has buffered. -/
structure Processor where
  category : Category
  /-- The greatest age at which an unfinished operation is carried along. -/
  maxAge : Int
  window : Option Window
  pending : List Row
  deriving Inhabited

inductive Verdict where
  | buffered (rows : Nat)
  | stale (time : Int)
  | rejected (cause : Rejection)

namespace Row

def ofNode (time : Int) (n : Node) : Row where
  cells := [.text n.id, .text n.host, .text n.role, .int (if n.isManager then 1 else 0),
    .int time]
  observedAt := time

end Row

namespace Block

/-- The members of a list of lines, or the first line that is none. -/
def nodesOf : List (List Char) → Except Rejection (List Node)
  | [] => .ok []
  | line :: r =>
    match Node.ofText? line with
    | none => .error (.badNode (String.ofList line))
    | some n =>
      match nodesOf r with
      | .error e => .error e
      | .ok ns => .ok (n :: ns)

end Block

namespace Processor

/-- A processor that is not bound to a window yet. -/
def fresh (category : Category) (maxAge : Int) : Processor :=
  ⟨category, maxAge, none, []⟩

def claims (p : Processor) (e : Event) : Bool :=
  p.category.claims e.segments

/-- Whether a block of that time belongs to the bound window. -/
def accepts (p : Processor) (time : Int) : Bool :=
  p.window.any (·.contains time)

/-- See to it that a window has a snapshot. A snapshot created for it takes over the
open operations of the one before, and what that rollover counts is returned. -/
def handOver (p : Processor) (start : Int) (s : Store) : Carried × Store :=
  let ((current, created), s) := s.openWindow p.category start
  if created then
    match s.previous? p.category start with
    | some previous => s.rollover p.category previous current p.maxAge
    | none => (⟨0, 0⟩, s)
  else (⟨0, 0⟩, s)

/-- Bind the processor to a window, dropping what is buffered. -/
def bindTo (p : Processor) (w : Window) (s : Store) : Processor × Store :=
  ({ p with window := some w, pending := [] }, (p.handOver w.start s).2)

/-- The rows of an accepted block, and the list of members to publish. -/
def rowsOf (category : Category) (path : PathMatch) (block : Block) :
    Except Rejection (List Row × Option Topology) :=
  match category with
  | .clusterTopology =>
    match Block.nodesOf block.lines with
    | .error e => .error e
    | .ok nodes => .ok (nodes.map (Row.ofNode block.time), some ⟨some block.time, nodes⟩)
  | _ =>
    match Row.ofBlock category.schema path block with
    | .error e => .error e
    | .ok row => .ok ([row.withPhaseTime category.schema path.phase], none)

def process (p : Processor) (published : Topology) (e : Event) :
    Verdict × Processor × Topology :=
  match p.category.extract e.segments with
  | .error cause => (.rejected cause, p, published)
  | .ok path =>
    match Block.ofText e.value with
    | .error cause => (.rejected cause, p, published)
    | .ok block =>
      if p.accepts block.time then
        match rowsOf p.category path block with
        | .error cause => (.rejected cause, p, published)
        | .ok (rows, seen) =>
          (.buffered rows.length, { p with pending := p.pending ++ rows },
            (seen.map published.publish).getD published)
      else (.stale block.time, p, published)

/-- Write what is buffered into the snapshot of the bound window. The buffer is
empty afterwards, also when the store refuses the rows. -/
def commit (p : Processor) (s : Store) : Except StorageFault Nat × Processor × Store :=
  match p.window with
  | none => (.ok 0, p, s)
  | some w =>
    let (r, s) := s.write p.category w.start p.pending
    (r, { p with pending := [] }, s)

end Processor

end WindowAlign
