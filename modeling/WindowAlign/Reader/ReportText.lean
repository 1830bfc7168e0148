import WindowAlign.Reader.Run
import WindowAlign.Text.Blank

/-!
# Reports as text

What the reader tells about a cycle and about a run, line by line. The verbose form
adds what became of each category, and what was wrong with rejected events.
-/

namespace WindowAlign

def CategoryOutcome.text : CategoryOutcome → String
  | emitted rows values => s!"emitted {rows} rows ({values} values)"
  | skipped reason => "skipped: " ++ reason.message

namespace Report

def categoryLine (c : Category) (text : String) : String :=
  "  " ++ Text.padRight 22 c.name ++ " " ++ text

/-- The lines of the verbose form that follow the others. -/
def details (r : Report) : List String :=
  ["", "Categories:"] ++
  (r.outcomes.map fun (c, o) => categoryLine c o.text) ++
  (if 0 < r.topologyNodes then [categoryLine .clusterTopology s!"{r.topologyNodes} nodes"]
    else []) ++
  (r.stats.rejectionsByKind.map fun (k, n) => s!"  parse error {k.name}: {n}")

def lines (r : Report) (verbose : Bool) : List String :=
  match r.bucket, r.window with
  | some bucket, some window =>
    ["",
      "Cycle complete:",
      s!"  Bucket:        {bucket}",
      "  Reader window: " ++ window.text,
      s!"  Events:        {r.stats.events}",
      s!"  Rows written:  {r.stats.rowsWritten}",
      s!"  Stale blocks:  {r.stats.stale}",
      s!"  Parse errors:  {r.stats.totalRejections}",
      s!"  Routing gaps:  {r.stats.unclaimed}",
      s!"  Emitted:       {r.emitted}/{r.outcomes.length}",
      s!"  Trimmed:       {r.trimmed}"] ++
    if verbose then r.details else []
  | _, _ => ["", "No new bucket to read."]

end Report

namespace RunSummary

def lines (s : RunSummary) : List String :=
  ["", "Reader stopped:", s!"  Cycles:   {s.cycles}", s!"  Failures: {s.failures}"]

end RunSummary

end WindowAlign
