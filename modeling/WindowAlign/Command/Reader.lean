import WindowAlign.Command.Arguments
import WindowAlign.Command.Host
import WindowAlign.Reader.ReportText

/-!
# The reader command

`reader` runs one cycle, or cycles at the pace of the sampling interval, over the
buckets below an event root. Of the readers of one event root only one runs at a
time. The database is kept after every cycle, also after one that failed.
-/

namespace WindowAlign

structure ReaderArguments where
  /-- The configuration file, instead of the usual one. -/
  config : Option String
  /-- The event root, instead of the configured one. -/
  eventRoot : Option String
  /-- The database, instead of the configured one. -/
  database : Option String
  /-- Whether to run one cycle only. -/
  once : Bool
  /-- The time of the only cycle, instead of the clock's. -/
  time : Option Int
  /-- After how many cycles to stop. -/
  cycles : Option Nat
  verbosity : Nat
  deriving DecidableEq, Repr

namespace ReaderArguments

def none : ReaderArguments :=
  ⟨.none, .none, .none, false, .none, .none, 0⟩

def forms : List OptionForm :=
  [⟨"config", some 'c', true⟩, ⟨"event-root", .none, true⟩, ⟨"database", .none, true⟩,
    ⟨"once", .none, false⟩, ⟨"at", .none, true⟩, ⟨"cycles", .none, true⟩,
    ⟨"verbose", some 'v', false⟩, ⟨"help", some 'h', false⟩, ⟨"version", some 'V', false⟩]

def add (a : ReaderArguments) : Given → Except Stop ReaderArguments
  | .flag "help" => throw .help
  | .flag "version" => throw .version
  | .flag "once" => return { a with once := ← Arguments.onlyFlag "once" a.once }
  | .flag "verbose" => return { a with verbosity := a.verbosity + 1 }
  | .value "config" s =>
    return { a with config := ← Arguments.only "config" s a.config Arguments.path? }
  | .value "event-root" s =>
    return { a with eventRoot := ← Arguments.only "event-root" s a.eventRoot Arguments.path? }
  | .value "database" s =>
    return { a with database := ← Arguments.only "database" s a.database Arguments.path? }
  | .value "at" s => return { a with time := ← Arguments.only "at" s a.time Arguments.integer? }
  | .value "cycles" s =>
    return { a with cycles := ← Arguments.only "cycles" s a.cycles Arguments.natural? }
  | .flag name => throw (.usage (.unknownOption ("--" ++ name)))
  | .value name _ => throw (.usage (.unknownOption ("--" ++ name)))

def checked (a : ReaderArguments) : Except Stop ReaderArguments :=
  if a.time.isSome && !a.once then .error (.usage (.incomplete "at" "once"))
  else if a.cycles.isSome && a.once then .error (.usage (.excluded "cycles" "once"))
  else .ok a

/-- The arguments in a list. There are no words among them. -/
def ofList (l : List String) : Except Stop ReaderArguments := do
  let (given, close) := Arguments.read forms l
  let a ← given.foldlM add none
  match close with
  | .finished => a.checked
  | .dashes [] => a.checked
  | .dashes (w :: _) => throw (.usage (.unexpected w))
  | .word w _ => throw (.usage (.unexpected w))
  | .fault f => throw (.usage f)

def override (a : ReaderArguments) (c : Config) : Config :=
  { c with
    reader := { c.reader with eventRoot := a.eventRoot.getD c.reader.eventRoot }
    sink := { c.sink with databasePath := a.database.or c.sink.databasePath } }

def usage : String :=
  "usage: reader [-c|--config PATH] [--event-root PATH] [--database PATH]\n" ++
  "              [--once [--at MILLIS] | --cycles COUNT] [-v|--verbose]\n"

end ReaderArguments

namespace ReaderCommand

variable {m : Type → Type} [Monad m]

/-- The buckets of an event root as far as a cycle at a time looks at them. -/
def source (h : Host m) (root : String) (reader : Reader) (now : Int) : m Source := do
  match reader.pickBucket now with
  | none => return fun _ => .ok []
  | some bucket =>
    let directory := FileTree.bucketDirectory root bucket
    let found ← h.find directory
    return fun _ => FileTree.events directory found

/-- One cycle, after which the database is kept. -/
def cycle (h : Host m) (root path : String) (now : Int) :
    StateT (Session Database) m (Except Fault Report) := fun s => do
  let source ← source h root s.reader now
  let (result, s) := (Session.cycle Database.port source now).outcome s
  h.keep path s.sink
  return (result, s)

/-- One cycle of a run, after which the database is kept; whether it failed. -/
def step (h : Host m) (root path : String) (now : Int) : StateT (Session Database) m Bool :=
  fun s => do
    let source ← source h root s.reader now
    let (report, s) := s.step Database.port source now
    h.keep path s.sink
    return (report.isNone, s)

def clock {σ : Type} (c : Clock m) : Clock (StateT σ m) where
  now := StateT.lift c.now
  sleep span := StateT.lift (c.sleep span)
  running := StateT.lift c.running

/-- More cycles than any run has. -/
def unlimited : Nat := Nat.pow 2 64

def once (h : Host m) (a : ReaderArguments) (root path : String) (s : Session Database) :
    Task m Unit := do
  let now ← match a.time with
    | some t => pure t
    | none => ExceptT.lift h.clock.now
  let (result, _) ← (cycle h root path now).run s
  let report ← Task.attempt "reader cycle failed" result
  h.sayLines (report.lines (0 < a.verbosity))

def repeatedly (h : Host m) (a : ReaderArguments) (root path : String) (s : Session Database) :
    Task m Unit := do
  let settings := s.reader.settings
  h.sayLines [s!"Reading every {settings.samplingInterval}ms. Press Ctrl+C to stop."]
  let (summary, _) ← (Run.loop (clock h.clock) settings.interval a.cycles (step h root path)
    unlimited .zero).run s
  h.sayLines summary.lines

def runWith (h : Host m) (a : ReaderArguments) (env : Environment) (c : Config) :
    Task m Unit := do
  let root := c.reader.eventRoot
  let path := c.databasePath env
  let database ← h.openDatabase path
  let reader ← Task.attempt "failed to create reader"
    ((Reader.fresh? c.reader).mapError .config)
  let session : Session Database := ⟨reader.withRetention c.sink.retentionWindows, database⟩
  h.sayLines ["Event root: " ++ root, "Database:   " ++ path]
  if a.once then once h a root path session else repeatedly h a root path session

def run (h : Host m) (a : ReaderArguments) : Task m Unit := do
  let env := h.environment.withBases
  let c := a.override (← h.loadConfig env a.config)
  Task.attempt "invalid configuration" (c.validate.mapError .config)
  let busy : Failure := ⟨"failed to acquire process lock",
    ["another perfalign-reader is already reading " ++ c.reader.eventRoot]⟩
  h.holding c.reader.eventRoot busy (runWith h a env c)

def main (h : Host m) (arguments : List String) : m UInt32 :=
  h.run ReaderArguments.usage "perfalign-reader 0.1.0\n" (run h)
    (ReaderArguments.ofList arguments)

end ReaderCommand

end WindowAlign
