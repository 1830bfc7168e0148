/-!
# Faults

The ways in which an operation fails: the storage refuses it, a path of the event
tree is malformed, or the configuration does not allow it. A fault is a cause;
`Fault.message` is its wording. Bad data of a writer is no fault, it is dropped
and counted.
-/

namespace WindowAlign

inductive StorageFault where
  /-- A row has another number of cells than the table has columns. -/
  | width (given needed : Nat)
  /-- A cell that must hold something holds nothing. -/
  | emptyCell (table column : String)
  /-- Two rows agree in the columns that identify one. -/
  | duplicate (table : String) (columns : List String)
  /-- A sum of integers leaves the signed 64-bit range. -/
  | integerOverflow
  /-- A cell of another kind than the reader of the column expects. -/
  | unexpectedKind (kind : String) (index : Nat) (column : String)
  /-- A table that was never created. -/
  | noTable (name : String)
  /-- What is kept at the place of a database is none. -/
  | notDatabase
  /-- No database can be kept at a place. -/
  | cannotOpen (path : String)
  deriving DecidableEq, Repr

namespace StorageFault

def message : StorageFault → String
  | width given needed =>
    s!"Wrong number of parameters passed to query. Got {given}, needed {needed}"
  | emptyCell table column => s!"NOT NULL constraint failed: {table}.{column}"
  | duplicate table columns =>
    "UNIQUE constraint failed: " ++ ", ".intercalate (columns.map fun c => table ++ "." ++ c)
  | integerOverflow => "integer overflow"
  | unexpectedKind kind index column =>
    s!"Invalid column type {kind} at index: {index}, name: {column}"
  | noTable name => s!"no such table: {name}"
  | notDatabase => "file is not a database"
  | cannotOpen path => "unable to open database file: " ++ path

/-- What the storage adds to its wording where it refuses a database as a whole. -/
def remark? : StorageFault → Option String
  | notDatabase => some "Error code 26: File opened that is not a database file"
  | cannotOpen _ => some "Error code 14: Unable to open the database file"
  | _ => none

end StorageFault

/-- Why a file of the event tree has no key. Both are invalid data. -/
inductive PathFault where
  /-- The file does not lie under the directory that was listed. -/
  | outside (path directory : String)
  /-- A directory on the way to the file has a name that is no text. -/
  | undecodable (path : String)
  deriving DecidableEq, Repr

namespace PathFault

def message : PathFault → String
  | outside path directory => path ++ " is outside " ++ directory
  | undecodable path => "non UTF-8 event path: " ++ path

end PathFault

/-- Why a configuration cannot be used, or a party named in it. -/
inductive ConfigFault where
  | zeroInterval
  | shallowAlignment
  | retainBelowAlignment (retain alignment : Nat)
  | zeroBatch
  | zeroRetention
  | unreadableFile
  | malformedFile
  /-- A source or a sink does not answer. -/
  | unavailable (party : String)
  deriving DecidableEq, Repr

namespace ConfigFault

def message : ConfigFault → String
  | zeroInterval => "reader.sampling_interval_ms must be greater than 0"
  | shallowAlignment => "reader.min_alignment_depth must be at least 2"
  | retainBelowAlignment retain alignment =>
    s!"reader.retain_depth ({retain}) must be >= reader.min_alignment_depth ({alignment})"
  | zeroBatch => "reader.batch_flush_rows must be greater than 0"
  | zeroRetention => "sink.retention_windows must be greater than 0"
  | unreadableFile => "failed to read config file"
  | malformedFile => "failed to parse config"
  | unavailable party => party ++ " unavailable"

end ConfigFault

inductive Fault where
  | storage (cause : StorageFault)
  | path (cause : PathFault)
  | config (cause : ConfigFault)
  deriving DecidableEq, Repr

namespace Fault

/-- The wording of the cause alone. -/
def causeMessage : Fault → String
  | storage c => c.message
  | path c => c.message
  | config c => c.message

/-- The wording of the fault, with the area that it concerns in front. -/
def message : Fault → String
  | storage c => "database error: " ++ c.message
  | path c => "IO error: " ++ c.message
  | config c => "configuration error: " ++ c.message

/-- The fault and what lies behind it, each as one line. A configuration fault
has nothing behind it. -/
def chain (f : Fault) : List String :=
  match f with
  | config _ => [f.message]
  | path _ => [f.message, f.causeMessage]
  | storage c => [f.message, f.causeMessage] ++ c.remark?.toList

end Fault

end WindowAlign
