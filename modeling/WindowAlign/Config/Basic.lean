import WindowAlign.Config.Directories
import WindowAlign.Config.ReaderSettings
import WindowAlign.FileTree.Basic
import WindowAlign.Toml.Document

/-!
# Configuration

The configuration file has three sections, each of which may be missing and each
of whose entries has a default. A section is a table, or an array of its entries
in order; a date stands for a table without entries. An entry of another type than
expected, or a number outside its range, makes the file unusable; names that are
not known are passed over.
-/

namespace WindowAlign

/-- Where aggregates are kept, and for how long. -/
structure SinkSettings where
  databasePath : Option String
  retentionWindows : Nat
  deriving DecidableEq, Repr

def SinkSettings.defaults : SinkSettings :=
  ⟨none, 720⟩

structure LogSettings where
  level : String
  maxFiles : Nat
  deriving DecidableEq, Repr

def LogSettings.defaults : LogSettings :=
  ⟨"info", 5⟩

structure Config where
  reader : ReaderSettings
  sink : SinkSettings
  log : LogSettings
  deriving DecidableEq, Repr

namespace Config

def defaults : Config :=
  ⟨.defaults, .defaults, .defaults⟩

def text? : Toml.Value → Option String
  | .text s => some s
  | _ => none

/-- A natural number up to a bound. -/
def number? (greatest : Nat) : Toml.Value → Option Nat
  | .int n => if 0 ≤ n ∧ n ≤ greatest then some n.toNat else none
  | _ => none

/-- Numbers of 64 bits. -/
def wide? : Toml.Value → Option Nat :=
  number? (Nat.pow 2 64 - 1)

/-- Numbers of 32 bits. -/
def narrow? : Toml.Value → Option Nat :=
  number? (Nat.pow 2 32 - 1)

/-- The entries of a section by name, or by position in a list of names. -/
def sectionEntries? (names : List String) : Toml.Value → Option Toml.Entries
  | .table _ entries => some entries
  | .moment _ => some []
  | .array items => some (names.zip items)
  | .tables items => some (names.zip (items.map (.table .header)))
  | _ => none

/-- Whether a section gives its entries in order, without names. -/
def isList : Toml.Value → Bool
  | .array _ => true
  | .tables _ => true
  | _ => false

/-- An entry as it is read, or its default where it is missing. -/
def entry (entries : Toml.Entries) (name : String) (read : Toml.Value → Option α) (default : α) :
    Option α :=
  match entries.lookup name with
  | none => some default
  | some v => read v

def reader? (v : Toml.Value) : Option ReaderSettings := do
  let e ← sectionEntries? ["event_root", "sampling_interval_ms", "writer_lag_windows",
    "retain_depth", "min_alignment_depth", "max_in_flight_age_windows", "batch_flush_rows",
    "stale_tolerance_ms"] v
  let d := ReaderSettings.defaults
  return {
    eventRoot := ← entry e "event_root" text? d.eventRoot
    samplingInterval := ← entry e "sampling_interval_ms" wide? d.samplingInterval
    lagWindows := ← entry e "writer_lag_windows" narrow? d.lagWindows
    retainDepth := ← entry e "retain_depth" wide? d.retainDepth
    alignmentDepth := ← entry e "min_alignment_depth" wide? d.alignmentDepth
    inFlightWindows := ← entry e "max_in_flight_age_windows" narrow? d.inFlightWindows
    batchRows := ← entry e "batch_flush_rows" wide? d.batchRows
    staleTolerance := ← entry e "stale_tolerance_ms" wide? d.staleTolerance }

/-- The section of the sink. As an array it has to name the database. -/
def sink? (v : Toml.Value) : Option SinkSettings := do
  let e ← sectionEntries? ["database_path", "retention_windows"] v
  if isList v && e.isEmpty then none
  let d := SinkSettings.defaults
  return {
    databasePath := ← entry e "database_path" (fun v => (text? v).map some) d.databasePath
    retentionWindows := ← entry e "retention_windows" wide? d.retentionWindows }

def log? (v : Toml.Value) : Option LogSettings := do
  let e ← sectionEntries? ["level", "max_files"] v
  let d := LogSettings.defaults
  return {
    level := ← entry e "level" text? d.level
    maxFiles := ← entry e "max_files" wide? d.maxFiles }

def ofEntries? (e : Toml.Entries) : Option Config := do
  return {
    reader := ← entry e "reader" reader? .defaults
    sink := ← entry e "sink" sink? .defaults
    log := ← entry e "logging" log? .defaults }

def ofText (s : String) : Except ConfigFault Config :=
  match (Toml.ofText? s.toList).bind ofEntries? with
  | some c => .ok c
  | none => .error .malformedFile

/-- The configuration of a file's content, which has to be text. -/
def ofBytes (content : Bytes) : Except ConfigFault Config :=
  match content.text? with
  | some s => ofText s
  | none => .error .unreadableFile

/-- The configuration at a path, given what is found there. -/
def ofFound : Option FileTree → Except ConfigFault Config
  | some (.file content) => ofBytes content
  | _ => .error .unreadableFile

/-- The first reason why the configuration cannot be used. -/
def validate (c : Config) : Except ConfigFault Unit :=
  match c.reader.validate with
  | .error e => .error e
  | .ok () => if c.sink.retentionWindows = 0 then .error .zeroRetention else .ok ()

/-- The database that is configured, or the usual one. -/
def databasePath (c : Config) (e : Environment) : String :=
  c.sink.databasePath.getD e.databasePath

end Config

end WindowAlign
