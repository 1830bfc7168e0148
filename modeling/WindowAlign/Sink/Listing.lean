import WindowAlign.Calendar
import WindowAlign.Sink.Database
import WindowAlign.Text.Blank
import WindowAlign.Topology.NodeText

/-!
# Listings

What the database holds, as lines of text or as JSON: its windows, the aggregates
of one window and the members of the cluster in one window. Doubles have three
places in text and all their digits in JSON. When a window was written is told by
those who keep the database; here it is a text.
-/

namespace WindowAlign.Listing

def noWindows : List String :=
  ["No windows recorded yet."]

/-! ## Windows -/

/-- A line in the columns of the list of windows. -/
def windowColumns (start stop date written : String) : String :=
  Text.padRight 16 start ++ " " ++ Text.padRight 16 stop ++ " " ++ Text.padRight 20 date ++ " " ++
    written

def windowLine (written : String) : Int × Option Int → String
  | (start, stop) =>
    windowColumns (toString start) ((stop.map toString).getD "-")
      ((Calendar.text? start).getD "-") written

def windowLines (written : String) (windows : List (Int × Option Int)) : List String :=
  if windows.isEmpty then noWindows
  else windowColumns "window start" "window end" "start (UTC)" "written at" ::
    windows.map (windowLine written)

def windowJson (written : String) : Int × Option Int → Json
  | (start, stop) =>
    .obj [("window_end", (stop.map Json.int).getD .null), ("window_start", .int start),
      ("written_at", .str written)]

def windowsJson (written : String) (windows : List (Int × Option Int)) : Json :=
  .arr (windows.map (windowJson written))

/-! ## Aggregates -/

/-- The dimensions of a group, or a dash where it has none. -/
def dimensionsText (d : Dimensions) : String :=
  if d.isEmpty then "-" else ",".intercalate (d.map fun (n, v) => n ++ "=" ++ v)

def valueLine (v : MetricValue) : String :=
  let number (x : Float) : String := Places.fixed 3 x
  "  " ++ Text.padRight 28 v.metric ++ " " ++ Text.padRight 40 (dimensionsText v.dimensions) ++
    " sum=" ++ number v.value.sum ++ " avg=" ++ number v.value.mean ++
    " min=" ++ number v.value.least ++ " max=" ++ number v.value.greatest ++
    " n=" ++ toString v.value.count

/-- The lines of aggregates. The title of a category stands before the first of its
aggregates; `current` is the category of the line before. -/
def titledLines : Option Category → List MetricValue → List String
  | _, [] => []
  | current, v :: r =>
    (if current = some v.category then [] else ["", v.category.title ++ ":"]) ++
      valueLine v :: titledLines (some v.category) r

def valueLines (window : Int) (values : List MetricValue) : List String :=
  s!"Window {window} ({values.length} values)" :: titledLines none values

def valueJson (v : MetricValue) : Json :=
  .obj [("avg", .float v.value.mean), ("category", .str v.category.name),
    ("count", .int v.value.count),
    ("dimensions", .obj (v.dimensions.map fun (n, s) => (n, .str s))),
    ("max", .float v.value.greatest), ("metric", .str v.metric), ("min", .float v.value.least),
    ("sum", .float v.value.sum), ("window_start", .int v.windowStart)]

def valuesJson (values : List MetricValue) : Json :=
  .arr (values.map valueJson)

/-! ## Members of the cluster -/

/-- A member; an asterisk marks a cluster manager. -/
def nodeLine (n : Node) : String :=
  "  " ++ Text.padRight 24 n.id ++ " " ++ Text.padRight 18 n.host ++ " " ++ n.role ++
    if n.isManager then " *" else ""

def nodeLines (window : Int) (nodes : List Node) : List String :=
  s!"Window {window} ({nodes.length} nodes)" :: nodes.map nodeLine

def nodesJson (nodes : List Node) : Json :=
  .arr (nodes.map Node.toJson)

end WindowAlign.Listing
