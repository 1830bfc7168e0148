import WindowAlign.Cell.Storage
import WindowAlign.Event.Row
import WindowAlign.Fault

/-!
# Snapshots

A snapshot holds the records of one category for one writer window, at most one
an identity, in the order in which the identities first came. A record that comes
again is merged with the stored one. A newer sample, or one as new, replaces the
stored record as a whole; the halves of an operation are joined column by column,
where what is written later counts and an empty cell says nothing.
-/

namespace WindowAlign

/-- The cells of one stored row, in column order. -/
abbrev Record := List Cell

namespace Schema

def keyText : Cell → String
  | .text s => s
  | _ => ""

def identity (s : Schema) (r : Record) : List String :=
  s.keyColumns.map fun i => keyText (r.getD i .null)

def lastUpdated (s : Schema) (r : Record) : Cell :=
  r.getD s.lastUpdatedColumn .null

def startTime (s : Schema) (r : Record) : Cell :=
  (s.startColumn?.bind (r[·]?)).getD .null

def endTime (s : Schema) (r : Record) : Cell :=
  (s.endColumn?.bind (r[·]?)).getD .null

/-- A cell of two records of one operation joined. -/
def joinCell (c : Column) (stored incoming : Cell) : Cell :=
  if c.isKey then stored
  else if c.source = .lastUpdated then incoming.greater stored
  else incoming.orElse stored

/-- Two records of one operation joined column by column. -/
def joinCells : List Column → Record → Record → Record
  | c :: cs, a :: stored, b :: incoming => joinCell c a b :: joinCells cs stored incoming
  | _, _, _ => []

/-- What is stored after a record comes again. -/
def merge (s : Schema) (stored incoming : Record) : Record :=
  match s.lifecycle with
  | .startFinish => joinCells s.columns stored incoming
  | .sampled | .topology =>
    if (s.lastUpdated stored).le (s.lastUpdated incoming) then incoming else stored

def upsert (s : Schema) (incoming : Record) : List Record → List Record
  | [] => [incoming]
  | r :: rest =>
    if s.identity r = s.identity incoming then s.merge r incoming :: rest
    else r :: upsert s incoming rest

/-- The records with one more added, unless its identity is there already. -/
def insertIfAbsent (s : Schema) (incoming : Record) : List Record → List Record
  | [] => [incoming]
  | r :: rest =>
    if s.identity r = s.identity incoming then r :: rest
    else r :: insertIfAbsent s incoming rest

/-- The first column that must not be empty and is. -/
def missing? : List Column → Record → Option String
  | c :: cs, v :: vs => if c.isRequired && v.isNull then some c.name else missing? cs vs
  | _, _ => none

/-- The record that the columns keep of a row's cells. -/
def record? (s : Schema) (table : String) (cells : List Cell) : Except StorageFault Record :=
  if cells.length ≠ s.width then .error (.width cells.length s.width)
  else
    let kept := List.zipWith (fun c v => c.type.store v) s.columns cells
    match missing? s.columns kept with
    | some column => .error (.emptyCell table column)
    | none => .ok kept

/-- The records with all rows of a list written, in order. -/
def upsertAll (s : Schema) (table : String) :
    List Row → List Record → Except StorageFault (List Record)
  | [], records => .ok records
  | row :: rows, records =>
    match s.record? table row.cells with
    | .error e => .error e
    | .ok r => upsertAll s table rows (s.upsert r records)

end Schema

/-- The records of one category for one writer window. -/
structure Snapshot where
  windowStart : Int
  /-- The latest writer's time that was written into the snapshot. -/
  writerEnd : Option Int
  records : List Record
  deriving Inhabited

/-- The bounds of a snapshot as alignment sees them. A window that no row reached
is not observed and ends where its grid window does. -/
structure WriterWindow where
  windowStart : Int
  stop : Int
  observed : Bool
  deriving DecidableEq, Repr

namespace Snapshot

def fresh (windowStart : Int) : Snapshot :=
  ⟨windowStart, none, []⟩

/-- The time up to which the snapshot speaks. -/
def windowEnd (s : Snapshot) (interval : Int) : Int :=
  s.writerEnd.getD (s.windowStart + interval)

def writerWindow (s : Snapshot) (interval : Int) : WriterWindow :=
  ⟨s.windowStart, s.windowEnd interval, s.writerEnd.isSome⟩

def tableName (c : Category) (windowStart : Int) : String :=
  c.name ++ "_" ++ toString windowStart

end Snapshot

/-- The latest of some times and the times of a list of rows. -/
def latestObserved (known : Option Int) (rows : List Row) : Option Int :=
  rows.foldl (fun acc r => some (match acc with
    | none => r.observedAt
    | some t => max t r.observedAt)) known

end WindowAlign
