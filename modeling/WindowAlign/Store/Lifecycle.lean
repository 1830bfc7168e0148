import WindowAlign.Store.Basic

/-!
# Operations of a snapshot

An operation is open while its record has a start and no end, complete when it
has both, and orphaned when it has an end alone. Rollover copies the open
operations of one snapshot into another, where they are not there yet; those that
started before the cutoff are abandoned, that is counted and left behind.
Trimming drops the oldest snapshots and counts the orphans that go with them.
-/

namespace WindowAlign

namespace Schema

/-- Whether a record is an operation that has started and not ended. -/
def isOpen (s : Schema) (r : Record) : Bool :=
  (s.endTime r).isNull && !(s.startTime r).isNull

/-- Whether a record is an operation that has started and ended. -/
def isComplete (s : Schema) (r : Record) : Bool :=
  !(s.startTime r).isNull && !(s.endTime r).isNull

/-- Whether a record is the end of an operation whose start never came. -/
def isOrphan (s : Schema) (r : Record) : Bool :=
  !(s.endTime r).isNull && (s.startTime r).isNull

def startedSince (s : Schema) (cutoff : Int) (r : Record) : Bool :=
  (Cell.int cutoff).le (s.startTime r)

/-- The records of a snapshot with the listed ones added where absent. -/
def carry (s : Schema) (source target : List Record) : List Record :=
  source.foldl (fun acc r => s.insertIfAbsent r acc) target

end Schema

structure Carried where
  carried : Nat
  abandoned : Nat
  deriving DecidableEq, Repr

/-- The outcome of a trim: the window starts that were dropped, and the orphans
among their records. -/
structure Trimmed where
  removed : List Int
  orphaned : Nat
  deriving DecidableEq, Repr

structure Operation where
  key : List String
  startTime : Option Int
  endTime : Option Int
  deriving DecidableEq, Repr

namespace Store

/-- Copy the open operations of `previous` that are at most `maxAge` older than
the window of `current` into that window's snapshot. -/
def rollover (s : Store) (c : Category) (previous current : Snapshot) (maxAge : Int) :
    Carried × Store :=
  let schema := c.schema
  if schema.isStartFinish then
    let cutoff := current.windowStart - maxAge
    let unfinished := (s.records c previous.windowStart).filter schema.isOpen
    match s.snapshot? c current.windowStart with
    | none => (⟨0, 0⟩, s)
    | some target =>
      let records := schema.carry (unfinished.filter (schema.startedSince cutoff)) target.records
      (⟨records.length - target.records.length,
        unfinished.countP fun r => !schema.startedSince cutoff r⟩,
        s.setSnapshots c (replaceSnapshot { target with records } (s.snapshots c)))
  else (⟨0, 0⟩, s)

/-- Drop every snapshot of a category but the `depth` latest. -/
def trim (s : Store) (c : Category) (depth : Nat) : Trimmed × Store :=
  let all := s.snapshots c
  let doomed := all.take (all.length - depth)
  let orphaned :=
    if c.schema.isStartFinish then
      (doomed.flatMap (·.records)).countP c.schema.isOrphan
    else 0
  (⟨doomed.map (·.windowStart), orphaned⟩, s.setSnapshots c (all.drop (all.length - depth)))

/-- A time of an operation as an integer; `index` is its position in the answer. -/
def operationTime (index : Nat) (column : String) : Cell → Except StorageFault (Option Int)
  | .null => .ok none
  | .int n => .ok (some n)
  | c => .error (.unexpectedKind c.kindName index column)

def operation (schema : Schema) (r : Record) : Except StorageFault Operation := do
  let key := schema.identity r
  let start ← operationTime key.length "start_time" (schema.startTime r)
  let stop ← operationTime (key.length + 1) "end_time" (schema.endTime r)
  return ⟨key, start, stop⟩

/-- The operations of a window in the order of their records, none for a category
without operations. -/
def operations (s : Store) (c : Category) (windowStart : Int) :
    Except StorageFault (List Operation) :=
  if c.schema.isStartFinish then (s.records c windowStart).mapM (operation c.schema)
  else .ok []

end Store

end WindowAlign
