import WindowAlign.Alignment

/-!
# Aggregates

The sink does not keep the rows of an aligned table. They are grouped by the
aggregation dimensions of their category, and of each metric a group has the sum,
the mean, the extremes and the number of values. A group in which no row has a
value for a metric has no aggregate of it.
-/

namespace WindowAlign

/-- Names and values of dimensions, in ascending order of the names. -/
abbrev Dimensions := List (String × String)

/-- What is kept of the values of one metric in one group. -/
structure Aggregate where
  sum : Float
  mean : Float
  least : Float
  greatest : Float
  count : Nat

namespace Aggregate

/-- The lesser of two doubles; NaN counts as missing. -/
def lesser (a b : Float) : Float :=
  if a.isNaN || b < a then b else a

/-- The greater of two doubles; NaN counts as missing. -/
def greater (a b : Float) : Float :=
  if a.isNaN || a < b then b else a

/-- The least of all doubles, and the greatest. -/
def infinity : Float := 1.0 / 0.0

/-- The sum of a list from left to right. Negative zero adds nothing to any
double, so it stands for the empty sum. -/
def sumOf (values : List Float) : Float :=
  values.foldl (· + ·) (-0.0)

/-- The aggregate of a list of values, if it has any. -/
def ofValues? (values : List Float) : Option Aggregate :=
  if values.isEmpty then none
  else
    let sum := sumOf values
    some ⟨sum, sum / Binary64.ofInt values.length, values.foldl lesser infinity,
      values.foldl greater (-infinity), values.length⟩

end Aggregate

/-- The aggregate of one metric in one group. -/
structure GroupValue where
  dimensions : Dimensions
  metric : String
  value : Aggregate

namespace Aligned

def insertDimension (name value : String) : Dimensions → Dimensions
  | [] => [(name, value)]
  | (n, v) :: r =>
    if name < n then (name, value) :: (n, v) :: r else (n, v) :: insertDimension name value r

/-- The dimensions of a row by which it is grouped: those of the names that the
table has, with the row's values. -/
def groupOf (names dimensions : List String) (key : Key) : Dimensions :=
  names.foldl (fun acc name =>
    match dimensions.findIdx? (· == name) with
    | some i => insertDimension name (key.getD i "") acc
    | none => acc) []

/-- The order of dimensions: by name, then by value, one after another. -/
def dimensionsBefore : Dimensions → Dimensions → Bool
  | _, [] => false
  | [], _ :: _ => true
  | (n, v) :: r, (m, w) :: q =>
    if n = m then if v = w then dimensionsBefore r q else decide (v < w) else decide (n < m)

/-- Groups in ascending order, with a row put into the one of its dimensions. -/
def insertIntoGroup (d : Dimensions) (row : Values) :
    List (Dimensions × List Values) → List (Dimensions × List Values)
  | [] => [(d, [row])]
  | (e, rows) :: rest =>
    if d = e then (e, rows ++ [row]) :: rest
    else if dimensionsBefore d e then (d, [row]) :: (e, rows) :: rest
    else (e, rows) :: insertIntoGroup d row rest

/-- The rows of an aligned table in groups, each in the order of the table. -/
def groups (category : Category) (t : Table) : List (Dimensions × List Values) :=
  t.rows.foldl (fun acc row =>
    insertIntoGroup (groupOf category.schema.aggregateDimensions t.dimensions row.1) row.2 acc) []

/-- The values that a group has at one position. -/
def column (rows : List Values) (i : Nat) : List Float :=
  rows.filterMap fun values => (values[i]?).join

/-- The aggregates of a group, from the metric at position `i` on. -/
def groupValues (d : Dimensions) (rows : List Values) : Nat → List String → List GroupValue
  | _, [] => []
  | i, metric :: rest =>
    match Aggregate.ofValues? (column rows i) with
    | some a => ⟨d, metric, a⟩ :: groupValues d rows (i + 1) rest
    | none => groupValues d rows (i + 1) rest

/-- The aggregates of an aligned table, group by group in the order of the
metrics. -/
def aggregate (a : Aligned) : List GroupValue :=
  (groups a.category a.table).flatMap fun g => groupValues g.1 g.2 0 a.table.metrics

end Aligned

end WindowAlign
