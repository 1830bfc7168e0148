import WindowAlign.Command.Arguments
import WindowAlign.Command.Host
import WindowAlign.Sink.Listing

/-!
# The query command

`query` lists what a database holds: its latest windows, the aggregates of one window
or the members of the cluster in one window, the latest window unless one is named.
It says so where there is no window.
-/

namespace WindowAlign

inductive Question where
  | windows (limit : Nat)
  | metrics (window : Option Int) (category : Option Category)
  | nodes (window : Option Int)
  deriving DecidableEq, Repr

structure QueryArguments where
  /-- The database, instead of the configured one. -/
  database : Option String
  /-- Whether to answer in JSON. -/
  json : Bool
  question : Question
  deriving DecidableEq, Repr

/-- The options of a query as far as they were read, of the command or of the word
for the question. -/
structure QueryOptions where
  database : Option String
  json : Bool
  limit : Option Nat
  window : Option Int
  category : Option Category

namespace QueryOptions

def none : QueryOptions :=
  ⟨.none, false, .none, .none, .none⟩

/-- The options that stand before the question or after it. -/
def common : List OptionForm :=
  [⟨"database", .none, true⟩, ⟨"json", .none, false⟩, ⟨"help", some 'h', false⟩]

def add (o : QueryOptions) : Given → Except Stop QueryOptions
  | .flag "help" => throw .help
  | .flag "version" => throw .version
  | .flag "json" => return { o with json := ← Arguments.onlyFlag "json" o.json }
  | .value "database" s =>
    return { o with database := ← Arguments.only "database" s o.database Arguments.path? }
  | .value "limit" s =>
    return { o with limit := ← Arguments.only "limit" s o.limit Arguments.natural? }
  | .value "window" s =>
    return { o with window := ← Arguments.only "window" s o.window Arguments.integer? }
  | .value "category" s =>
    return { o with category := ← Arguments.only "category" s o.category Category.ofName? }
  | .flag name => throw (.usage (.unknownOption ("--" ++ name)))
  | .value name _ => throw (.usage (.unknownOption ("--" ++ name)))

end QueryOptions

namespace Question

/-- The words for the questions, with the options that each of them has. -/
def words : List (String × List OptionForm) :=
  [("windows", [⟨"limit", none, true⟩]),
    ("metrics", [⟨"window", none, true⟩, ⟨"category", none, true⟩]),
    ("nodes", [⟨"window", none, true⟩])]

/-- The number of windows that are listed where no limit is given. -/
def usualLimit : Nat := 10

def ofWord (word : String) (o : QueryOptions) : Question :=
  match word with
  | "windows" => .windows (o.limit.getD usualLimit)
  | "metrics" => .metrics o.window o.category
  | _ => .nodes o.window

end Question

namespace QueryArguments

/-- The arguments that begin with the word for the question. Options after the word
go before those of the command, which are `outer`. -/
def ofQuestion (outer : QueryOptions) (word : String) (rest : List String) :
    Except Stop QueryArguments := do
  match Question.words.lookup word with
  | none => throw (.usage (.unexpected word))
  | some forms =>
    let (given, close) := Arguments.read (QueryOptions.common ++ forms) rest
    let o ← given.foldlM QueryOptions.add .none
    let a : QueryArguments :=
      ⟨o.database.or outer.database, o.json || outer.json, .ofWord word o⟩
    match close with
    | .finished => return a
    | .dashes [] => return a
    | .dashes (w :: _) => throw (.usage (.unexpected w))
    | .word w _ => throw (.usage (.unexpected w))
    | .fault f => throw (.usage f)

def ofHelp : List String → Stop
  | [] => .help
  | [word] =>
    if word = "help" ∨ (Question.words.lookup word).isSome then .help else .usage (.unexpected word)
  | _ :: word :: _ => .usage (.unexpected word)

def ofList (l : List String) : Except Stop QueryArguments := do
  let (given, close) := Arguments.read (QueryOptions.common ++ [⟨"version", some 'V', false⟩]) l
  let o ← given.foldlM QueryOptions.add .none
  match close with
  | .finished => throw (.usage .noCommand)
  | .dashes [] => throw (.usage .noCommand)
  | .dashes (w :: _) => throw (.usage (.unexpected w))
  | .word "help" rest => throw (ofHelp rest)
  | .word w rest => ofQuestion o w rest
  | .fault f => throw (.usage f)

def usage : String :=
  "usage: query [--database PATH] [--json] windows [--limit COUNT]\n" ++
  "       query [--database PATH] [--json] metrics [--window MILLIS] [--category NAME]\n" ++
  "       query [--database PATH] [--json] nodes [--window MILLIS]\n"

end QueryArguments

namespace QueryCommand

variable {m : Type → Type} [Monad m]

/-- The text of an answer, in JSON or in lines. -/
def answer (json : Bool) (asJson : Json) (asLines : List String) : String :=
  if json then asJson.pretty ++ "\n" else Host.joined asLines

/-- The window that is named, or else the latest. -/
def windowOf (d : Database) : Option Int → Except StorageFault (Option Int)
  | some w => .ok (some w)
  | none => (d.latestWindows 1).map fun l => l.head?.map Prod.fst

def aboutWindow (h : Host m) (d : Database) (w : Option Int) (ask : Int → Task m String) :
    Task m Unit := do
  match ← Task.attempt "failed to query windows" ((windowOf d w).mapError .storage) with
  | none => h.sayLines Listing.noWindows
  | some w => h.say (← ask w)

def ask (h : Host m) (json : Bool) (path : String) (d : Database) : Question → Task m Unit
  | .windows limit => do
    let windows ← Task.attempt "failed to query windows"
      ((d.latestWindows limit).mapError .storage)
    let written ← h.written path
    h.say (answer json (Listing.windowsJson written windows) (Listing.windowLines written windows))
  | .metrics window category => aboutWindow h d window fun w => do
    let values ← Task.attempt "failed to query metric values"
      ((d.metricValues w category).mapError .storage)
    return answer json (Listing.valuesJson values) (Listing.valueLines w values)
  | .nodes window => aboutWindow h d window fun w => do
    let nodes ← Task.attempt "failed to query cluster nodes"
      ((d.clusterNodes w).mapError .storage)
    return answer json (Listing.nodesJson nodes) (Listing.nodeLines w nodes)

/-- The path of the database: as the arguments say, or else the configuration. -/
def databasePath (h : Host m) (env : Environment) : Option String → Task m String
  | some path => return path
  | none => return (← h.loadConfig env none).databasePath env

def run (h : Host m) (a : QueryArguments) : Task m Unit := do
  let path ← databasePath h h.environment.withBases a.database
  if (← h.find path).isNone then throw ⟨"no metrics database at " ++ path, []⟩
  let d ← h.openDatabase path
  ask h a.json path d a.question

def main (h : Host m) (arguments : List String) : m UInt32 :=
  h.run QueryArguments.usage "perfalign-query 0.1.0\n" (run h) (QueryArguments.ofList arguments)

end QueryCommand

end WindowAlign
