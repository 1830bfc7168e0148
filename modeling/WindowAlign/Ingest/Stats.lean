import WindowAlign.Ingest.Processor

/-!
# Counters of a pass

What became of the events of one pass over a bucket, and of the rows that they
gave. Every event is counted once: claimed by nobody, stale, rejected for one kind
of reason, or buffered.
-/

namespace WindowAlign

namespace RejectionKind

/-- Position in `all`. -/
def index : RejectionKind → Fin 5
  | missingTimestamp => 0
  | badTimestamp => 1
  | badNumber => 2
  | badPath => 3
  | badTopology => 4

end RejectionKind

structure Stats where
  events : Nat
  rowsWritten : Nat
  /-- Rows written, by the position of their category. -/
  categoryRows : Vector Nat 6
  stale : Nat
  /-- Events rejected, by the position of the kind. -/
  kindCounts : Vector Nat 5
  unclaimed : Nat
  deriving DecidableEq, Repr

namespace Stats

def zero : Stats :=
  ⟨0, 0, .replicate 6 0, 0, .replicate 5 0, 0⟩

def rowsOf (s : Stats) (c : Category) : Nat :=
  s.categoryRows.get c.index

def rejectionsOf (s : Stats) (k : RejectionKind) : Nat :=
  s.kindCounts[k.index]

/-- The categories of which rows were written, with their numbers. -/
def rowsByCategory (s : Stats) : List (Category × Nat) :=
  (Category.all.map fun c => (c, s.rowsOf c)).filter (0 < ·.2)

def rejectionsByKind (s : Stats) : List (RejectionKind × Nat) :=
  (RejectionKind.all.map fun k => (k, s.rejectionsOf k)).filter (0 < ·.2)

def totalRejections (s : Stats) : Nat :=
  s.kindCounts.foldl (· + ·) 0

def addWritten (s : Stats) (c : Category) (rows : Nat) : Stats :=
  { s with
    rowsWritten := s.rowsWritten + rows
    categoryRows := s.categoryRows.set c.index (s.rowsOf c + rows) (Category.index_lt c) }

def addUnclaimed (s : Stats) : Stats :=
  { s with events := s.events + 1, unclaimed := s.unclaimed + 1 }

def addVerdict (s : Stats) (v : Verdict) : Stats :=
  let s := { s with events := s.events + 1 }
  match v with
  | .buffered _ => s
  | .stale _ => { s with stale := s.stale + 1 }
  | .rejected cause =>
    { s with kindCounts := s.kindCounts.set cause.kind.index (s.rejectionsOf cause.kind + 1) }

end Stats

end WindowAlign
