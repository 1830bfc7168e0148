import WindowAlign.Store.Snapshot

/-!
# The snapshot store

For each category the store keeps a series of snapshots in ascending order of
their window starts. An operation touches the series of one category only, and
within it the snapshots that it names.
-/

namespace WindowAlign

/-- The snapshots of every category, for windows of one interval. -/
structure Store where
  interval : Int
  series : Vector (List Snapshot) 6

namespace Store

def empty (interval : Int) : Store :=
  ⟨interval, .replicate 6 []⟩

/-- The snapshots of a category, ascending. -/
def snapshots (s : Store) (c : Category) : List Snapshot :=
  s.series[c.index]

def setSnapshots (s : Store) (c : Category) (l : List Snapshot) : Store :=
  { s with series := s.series.set c.index l }

theorem snapshots_setSnapshots_self (s : Store) (c : Category) (l : List Snapshot) :
    (s.setSnapshots c l).snapshots c = l := by
  simp [snapshots, setSnapshots]

theorem snapshots_setSnapshots_of_ne (s : Store) {c d : Category} (h : c ≠ d)
    (l : List Snapshot) : (s.setSnapshots c l).snapshots d = s.snapshots d := by
  have : (c.index : Nat) ≠ d.index := fun e => h (Category.index_injective (Fin.ext e))
  simp [snapshots, setSnapshots, this]

def snapshot? (s : Store) (c : Category) (windowStart : Int) : Option Snapshot :=
  (s.snapshots c).find? (·.windowStart = windowStart)

/-- The closest snapshot before a window. -/
def previous? (s : Store) (c : Category) (windowStart : Int) : Option Snapshot :=
  ((s.snapshots c).filter (·.windowStart < windowStart)).getLast?

def windowStarts (s : Store) (c : Category) : List Int :=
  (s.snapshots c).map (·.windowStart)

/-- The bounds of a category's snapshots, ascending. -/
def writerWindows (s : Store) (c : Category) : List WriterWindow :=
  (s.snapshots c).map (·.writerWindow s.interval)

def insertSnapshot (n : Snapshot) : List Snapshot → List Snapshot
  | [] => [n]
  | s :: r => if n.windowStart < s.windowStart then n :: s :: r else s :: insertSnapshot n r

def replaceSnapshot (n : Snapshot) (l : List Snapshot) : List Snapshot :=
  l.map fun s => if s.windowStart = n.windowStart then n else s

/-- The snapshot of a window, created where it is not kept yet; the flag tells
whether it was created. -/
def openWindow (s : Store) (c : Category) (windowStart : Int) : (Snapshot × Bool) × Store :=
  match s.snapshot? c windowStart with
  | some found => ((found, false), s)
  | none =>
    let created := Snapshot.fresh windowStart
    ((created, true), s.setSnapshots c (insertSnapshot created (s.snapshots c)))

/-- Write rows into the snapshot of a window, all of them or, on a fault, none.
The snapshot is created first, so it is there after a fault as well. -/
def write (s : Store) (c : Category) (windowStart : Int) (rows : List Row) :
    Except StorageFault Nat × Store :=
  if rows.isEmpty then (.ok 0, s)
  else
    let ((target, _), s) := s.openWindow c windowStart
    match c.schema.upsertAll (Snapshot.tableName c windowStart) rows target.records with
    | .error e => (.error e, s)
    | .ok records =>
      let written := ⟨windowStart, latestObserved target.writerEnd rows, records⟩
      (.ok rows.length, s.setSnapshots c (replaceSnapshot written (s.snapshots c)))

/-- The records of a window, none where it is not kept. -/
def records (s : Store) (c : Category) (windowStart : Int) : List Record :=
  ((s.snapshot? c windowStart).map (·.records)).getD []

def rowCount (s : Store) (c : Category) (windowStart : Int) : Nat :=
  (s.records c windowStart).length

/-- Category, window start, writer end and number of records of every snapshot,
in listing order. -/
def inspect (s : Store) : List (Category × Snapshot) :=
  Category.all.flatMap fun c => (s.snapshots c).map fun n => (c, n)

end Store

end WindowAlign
