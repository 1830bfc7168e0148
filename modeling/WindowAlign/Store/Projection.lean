import WindowAlign.Store.Lifecycle
import WindowAlign.Store.Total
import WindowAlign.Table

/-!
# Projection

A snapshot is projected to a metric table with one row a dimension key, where an
empty dimension is the empty text. A sampled record is a row of its own. Complete
operations are grouped by their dimensions: a group has their number, the mean
time from start to end, and the sum of each metric. The other operations are in
no group.
-/

namespace WindowAlign

namespace Schema

def cellOf (s : Schema) (r : Record) (column : String) : Cell :=
  ((s.column? column).bind (r[·]?)).getD .null

def dimensionKey (s : Schema) (r : Record) : Key :=
  s.projectionDimensions.map fun d => keyText (s.cellOf r d)

def metricCells (s : Schema) (r : Record) : List Cell :=
  s.metricFields.map fun f => s.cellOf r f.name

/-- A cell as the value of a metric; `index` is its position in the answer. -/
def metricValue (index : Nat) (column : String) : Cell → Except StorageFault (Option Float)
  | .null => .ok none
  | .int n => .ok (some (Binary64.ofInt n))
  | .real x => .ok (some x)
  | .text s => .error (.unexpectedKind (Cell.text s).kindName index column)

/-- The metric values of a sampled record, from a position of the answer on. -/
def sampleValues (s : Schema) (r : Record) : Nat → List Field → Except StorageFault Values
  | _, [] => .ok []
  | i, f :: fs =>
    match metricValue i f.name (s.cellOf r f.name) with
    | .error e => .error e
    | .ok v =>
      match sampleValues s r (i + 1) fs with
      | .error e => .error e
      | .ok vs => .ok (v :: vs)

def insertSamples (s : Schema) : List Record → Table → Except StorageFault Table
  | [], t => .ok t
  | r :: rs, t =>
    match s.sampleValues r s.projectionDimensions.length s.metricFields with
    | .error e => .error e
    | .ok values => insertSamples s rs (t.insert (s.dimensionKey r) values)

end Schema

/-- What is summed up over a group of complete operations. -/
structure Group where
  count : Nat
  duration : Total
  metrics : List Total

namespace Group

def fresh (s : Schema) : Group :=
  ⟨0, .nothing, s.metricFields.map fun _ => .nothing⟩

def add (s : Schema) (r : Record) (g : Group) : Group :=
  ⟨g.count + 1, g.duration.add ((s.endTime r).minus (s.startTime r)),
    List.zipWith Total.add g.metrics (s.metricCells r)⟩

/-- Groups by key, with one more operation put into its group. -/
def insert (s : Schema) (r : Record) : List (Key × Group) → List (Key × Group)
  | [] => [(s.dimensionKey r, (fresh s).add s r)]
  | (k, g) :: rest =>
    if k = s.dimensionKey r then (k, g.add s r) :: rest else (k, g) :: insert s r rest

def ofRecords (s : Schema) (records : List Record) : List (Key × Group) :=
  records.foldl (fun groups r => insert s r groups) []

/-- The values of a group: number, mean duration and sums. -/
def values (g : Group) : Except StorageFault Values :=
  match g.metrics.mapM Total.sum? with
  | .error e => .error e
  | .ok sums => .ok (some (Binary64.ofInt g.count) :: g.duration.mean? g.count :: sums)

end Group

namespace Schema

def insertGroups : List (Key × Group) → Table → Except StorageFault Table
  | [], t => .ok t
  | (k, g) :: rest, t =>
    match g.values with
    | .error e => .error e
    | .ok values => insertGroups rest (t.insert k values)

def project (s : Schema) (records : List Record) : Except StorageFault Table :=
  let t := Table.empty s.projectionDimensions s.projectedMetrics
  if s.isStartFinish then insertGroups (Group.ofRecords s (records.filter s.isComplete)) t
  else s.insertSamples records t

end Schema

namespace Store

/-- The projection of a window, without rows where it is not kept. -/
def project (s : Store) (c : Category) (windowStart : Int) : Except StorageFault Table :=
  c.schema.project (s.records c windowStart)

end Store

end WindowAlign
