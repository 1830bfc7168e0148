/-!
# Metric tables

A table has one row of metric values a dimension key, any of which may be
missing. Rows are in ascending order of their keys, and no two have the same:
`insert` puts a row in its place or in place of the one with its key.
-/

namespace WindowAlign

/-- The values of a table's dimensions in one row. -/
abbrev Key := List String

/-- The values of a table's metrics in one row. -/
abbrev Values := List (Option Float)

/-- One row of metric values a dimension key. -/
structure Table where
  dimensions : List String
  metrics : List String
  rows : List (Key × Values)
  deriving Inhabited

namespace Table

def empty (dimensions metrics : List String) : Table :=
  ⟨dimensions, metrics, []⟩

def find? (key : Key) (rows : List (Key × Values)) : Option Values :=
  rows.lookup key

/-- Rows with one put in its place, instead of any with the same key. -/
def insertRow (key : Key) (values : Values) : List (Key × Values) → List (Key × Values)
  | [] => [(key, values)]
  | (k, v) :: r =>
    if key < k then (key, values) :: (k, v) :: r
    else if key = k then (key, values) :: r
    else (k, v) :: insertRow key values r

def insert (t : Table) (key : Key) (values : Values) : Table :=
  { t with rows := insertRow key values t.rows }

/-- The table whose rows are inserted in the order of a list. -/
def ofRows (dimensions metrics : List String) (rows : List (Key × Values)) : Table :=
  rows.foldl (fun t r => t.insert r.1 r.2) (empty dimensions metrics)

def metricIndex? (t : Table) (metric : String) : Option Nat :=
  t.metrics.findIdx? (· == metric)

def value? (t : Table) (key : Key) (metric : String) : Option Float := do
  let i ← t.metricIndex? metric
  let values ← find? key t.rows
  (values[i]?).join

end Table

end WindowAlign
