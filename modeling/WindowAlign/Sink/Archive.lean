import WindowAlign.FileTree.Basic
import WindowAlign.Json.Reader
import WindowAlign.Sink.Database
import WindowAlign.Topology.NodeText

/-!
# The database in a file

A database is kept in a file as one JSON value: the version and the tables, those
that are missing as `null`. Doubles are kept by their bits, so that infinities are
not lost. `Database.ofText?` reads what `Database.text` writes. An empty file is a
database without tables, and so is a missing one.
-/

namespace WindowAlign

namespace Archive

/-! ## Writing -/

def optional (f : α → Json) (a : Option α) : Json :=
  (a.map f).getD .null

def double (x : Float) : Json :=
  .int x.toBits.toNat

def window : Int × Option Int → Json
  | (start, stop) => .arr [.int start, optional .int stop]

def value (v : StoredValue) : Json :=
  .arr [.int v.windowStart, .str v.category.name, .str v.metric,
    .obj (v.dimensions.map fun (n, s) => (n, .str s)), optional double v.sum,
    optional double v.mean, optional double v.least, optional double v.greatest, .int v.count]

def nodesOf : Int × List Node → Json
  | (start, nodes) =>
    .arr [.int start,
      .arr (nodes.map fun n => .arr [.str n.id, .str n.host, .str n.role, .bool n.isManager])]

def table (f : α → Json) (rows : Option (List α)) : Json :=
  optional (fun l => .arr (l.map f)) rows

/-! ## Reading -/

def int? : Json → Option Int
  | .int n => some n
  | _ => none

def text? : Json → Option String
  | .str s => some s
  | _ => none

def optional? (f : Json → Option α) : Json → Option (Option α)
  | .null => some none
  | j => (f j).map some

def double? : Json → Option Float
  | .int n => some (Float.ofBits (UInt64.ofNat n.toNat))
  | _ => none

def window? : Json → Option (Int × Option Int)
  | .arr [start, stop] => do return (← int? start, ← optional? int? stop)
  | _ => none

def dimensions? : Json → Option Dimensions
  | .obj members => members.mapM fun (n, j) => (text? j).map fun s => (n, s)
  | _ => none

def value? : Json → Option StoredValue
  | .arr [start, category, metric, dimensions, sum, mean, least, greatest, count] => do
    return ⟨← int? start, ← (text? category).bind Category.ofName?, ← text? metric,
      ← dimensions? dimensions, ← optional? double? sum, ← optional? double? mean,
      ← optional? double? least, ← optional? double? greatest, (← int? count).toNat⟩
  | _ => none

def node? : Json → Option Node
  | .arr [id, host, role, .bool isManager] => do
    return ⟨← text? id, ← text? host, ← text? role, isManager⟩
  | _ => none

def nodesOf? : Json → Option (Int × List Node)
  | .arr [start, .arr nodes] => do return (← int? start, ← nodes.mapM node?)
  | _ => none

def table? (f : Json → Option α) : Json → Option (Option (List α))
  | .null => some none
  | .arr rows => (rows.mapM f).map some
  | _ => none

end Archive

namespace Database

def text (d : Database) : String :=
  (Json.arr [.int d.version, Archive.table Archive.window d.windows,
    Archive.table Archive.value d.values, Archive.table Archive.nodesOf d.nodes]).compact

def ofText? (s : String) : Option Database :=
  match Json.ofText? s.toList with
  | some (.arr [version, windows, values, nodes]) => do
    return ⟨← Archive.int? version, ← Archive.table? Archive.window? windows,
      ← Archive.table? Archive.value? values, ← Archive.table? Archive.nodesOf? nodes⟩
  | _ => none

/-- The database at a path, given what is found there. -/
def ofFound (path : String) : Option FileTree → Except StorageFault Database
  | none => .ok (.blank 0)
  | some (.file []) => .ok (.blank 0)
  | some (.file content) =>
    match content.text?.bind ofText? with
    | some d => .ok d
    | none => .error .notDatabase
  | some (.directory _) => .error (.cannotOpen path)

/-- Whether a path names no file: such a database is gone with the program. -/
def isTransient (path : String) : Bool :=
  path.isEmpty || path == ":memory:"

end Database

end WindowAlign
