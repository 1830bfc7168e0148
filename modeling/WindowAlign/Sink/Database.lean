import WindowAlign.Json.Writer
import WindowAlign.Sink.Aggregate
import WindowAlign.Topology.Basic

/-!
# The metrics database

The database keeps, by reader window, the aggregates of each category and the
members of the cluster. Writing replaces what was there for the same window and
category, and touches the window's own record. Each operation takes effect as a
whole or, on a fault, not at all.

A database is brought up to date by migrations, each of which creates some of the
tables; before that the tables are missing. Doubles are kept without the sign of
a zero, and NaN as a missing value.
-/

namespace WindowAlign

/-- One stored aggregate. The window and the category are where it is kept. -/
structure StoredValue where
  windowStart : Int
  category : Category
  metric : String
  dimensions : Dimensions
  sum : Option Float
  mean : Option Float
  least : Option Float
  greatest : Option Float
  count : Nat

/-- One aggregate as it is read back. -/
structure MetricValue where
  windowStart : Int
  category : Category
  metric : String
  dimensions : Dimensions
  value : Aggregate

/-- The tables of the database; one that no migration created is missing. -/
structure Database where
  version : Int
  /-- Window starts, ascending, and window ends where a category was written. -/
  windows : Option (List (Int × Option Int))
  values : Option (List StoredValue)
  /-- Members by window, those of a window in ascending order of their ids. -/
  nodes : Option (List (Int × List Node))

namespace Database

/-- A database without tables that calls itself migrated up to a version. -/
def blank (version : Int) : Database :=
  ⟨version, none, none, none⟩

/-- The first migration: windows and aggregates. -/
def addMetrics (d : Database) : Database :=
  { d with windows := some (d.windows.getD []), values := some (d.values.getD []), version := 1 }

/-- The second migration: cluster members. -/
def addNodes (d : Database) : Database :=
  { d with nodes := some (d.nodes.getD []), version := 2 }

/-- The database with every migration applied that is newer than it. -/
def migrate (d : Database) : Database :=
  let v := d.version
  let d := if v < 1 then d.addMetrics else d
  if v < 2 then d.addNodes else d

def new : Database :=
  (blank 0).migrate

/-- The names of tables and indexes, ascending. -/
def objects (d : Database) : List String :=
  (if d.values.isSome then
    ["index idx_metric_values_metric", "index idx_metric_values_window"] else []) ++
  (if d.nodes.isSome then ["table cluster_nodes"] else []) ++
  (if d.values.isSome then ["table metric_values"] else []) ++
  (if d.windows.isSome then ["table windows"] else [])

/-- A table, or the fault that it is missing. -/
def require (name : String) : Option α → Except StorageFault α
  | some t => .ok t
  | none => .error (.noTable name)

/-- Windows with one touched: its end is the one given, or the one that it had. -/
def touch (start : Int) (stop : Option Int) :
    List (Int × Option Int) → List (Int × Option Int)
  | [] => [(start, stop)]
  | (t, e) :: r =>
    if start < t then (start, stop) :: (t, e) :: r
    else if start = t then (t, stop.or e) :: r
    else (t, e) :: touch start stop r

/-- A double as it is kept. -/
def kept (x : Float) : Option Float :=
  if x.isNaN then none else some (Binary64.dropZeroSign x)

def record (windowStart : Int) (c : Category) (g : GroupValue) : StoredValue :=
  ⟨windowStart, c, g.metric, g.dimensions, kept g.value.sum, kept g.value.mean,
    kept g.value.least, kept g.value.greatest, g.value.count⟩

/-- Whether two aggregates of a window and category are of one metric and group. -/
def sameValue (a b : GroupValue) : Bool :=
  a.metric == b.metric && a.dimensions == b.dimensions

def hasDuplicate : List GroupValue → Bool
  | [] => false
  | g :: r => r.any (sameValue g) || hasDuplicate r

/-- The columns by which a stored aggregate is identified. -/
def valueKey : List String :=
  ["window_start", "category", "metric", "dimensions"]

/-- Write the aggregates of an aligned table for a window and a category. -/
def writeAggregated (d : Database) (c : Category) (windowStart : Int) (a : Aligned) :
    Except StorageFault (Nat × Database) := do
  let groups := a.aggregate
  let windows ← require "windows" d.windows
  let values ← require "metric_values" d.values
  if hasDuplicate groups then throw (.duplicate "metric_values" valueKey)
  let others := values.filter fun v => !(v.windowStart == windowStart && v.category == c)
  return (groups.length, { d with
    windows := some (touch windowStart (some a.window.stop) windows)
    values := some (others ++ groups.map (record windowStart c)) })

/-- Members with one put in its place, instead of any with the same id. -/
def insertNode (n : Node) : List Node → List Node
  | [] => [n]
  | m :: r =>
    if n.id < m.id then n :: m :: r
    else if n.id = m.id then n :: r
    else m :: insertNode n r

def writeTopology (d : Database) (windowStart : Int) (t : Topology) :
    Except StorageFault (Nat × Database) := do
  let windows ← require "windows" d.windows
  let nodes ← require "cluster_nodes" d.nodes
  let others := nodes.filter (·.1 != windowStart)
  return (t.nodes.length, { d with
    windows := some (touch windowStart none windows)
    nodes := some (others ++ [(windowStart, t.nodes.foldl (fun acc n => insertNode n acc) [])]) })

/-- Drop everything of the windows before a time, and count those windows. -/
def purgeBefore (d : Database) (t : Int) : Except StorageFault (Nat × Database) := do
  let values ← require "metric_values" d.values
  let nodes ← require "cluster_nodes" d.nodes
  let windows ← require "windows" d.windows
  return (windows.countP (·.1 < t), { d with
    values := some (values.filter (t ≤ ·.windowStart))
    nodes := some (nodes.filter (t ≤ ·.1))
    windows := some (windows.filter (t ≤ ·.1)) })

/-- The latest windows, newest first. A limit beyond the signed range does not
limit them. -/
def latestWindows (d : Database) (limit : Nat) :
    Except StorageFault (List (Int × Option Int)) := do
  let windows ← require "windows" d.windows
  let newest := windows.reverse
  return if Signed64.wrap limit < 0 then newest else newest.take limit

/-- The text of dimensions, by which they are ordered. -/
def dimensionsText (d : Dimensions) : String :=
  (Json.obj (d.map fun (n, v) => (n, .str v))).compact

/-- The order in which stored aggregates of a window are listed. -/
def listedBefore (a b : StoredValue) : Bool :=
  if a.category.name ≠ b.category.name then decide (a.category.name < b.category.name)
  else if a.metric ≠ b.metric then decide (a.metric < b.metric)
  else decide (dimensionsText a.dimensions ≤ dimensionsText b.dimensions)

/-- A kept double, or the fault that it is missing. -/
def present (index : Nat) (column : String) : Option Float → Except StorageFault Float
  | some x => .ok x
  | none => .error (.unexpectedKind "Null" index column)

def read (v : StoredValue) : Except StorageFault MetricValue := do
  let sum ← present 3 "sum" v.sum
  let mean ← present 4 "avg" v.mean
  let least ← present 5 "min" v.least
  let greatest ← present 6 "max" v.greatest
  return ⟨v.windowStart, v.category, v.metric, v.dimensions, ⟨sum, mean, least, greatest, v.count⟩⟩

/-- The aggregates of a window, of one category or of all. -/
def metricValues (d : Database) (windowStart : Int) (c : Option Category) :
    Except StorageFault (List MetricValue) := do
  let values ← require "metric_values" d.values
  let listed := values.filter fun v =>
    v.windowStart == windowStart && (c.all (· == v.category))
  (listed.mergeSort listedBefore).mapM read

def clusterNodes (d : Database) (windowStart : Int) : Except StorageFault (List Node) := do
  let nodes ← require "cluster_nodes" d.nodes
  return (nodes.lookup windowStart).getD []

end Database

end WindowAlign
