import WindowAlign.Store.Projection

/-!
# Alignment

Writers flush their snapshots when they get around to it, so the snapshots do not
meet the reader's windows. For a reader window from `a` to `b` alignment takes the
first observed snapshot that ends at `a` or later. Ending after `b` it covers the
window alone. Otherwise its end `t` is the cutover, and the snapshot after it
covers the rest: a metric that both have is
`(left · (t - a) + right · (b - t)) / (b - a)`. Times are added and subtracted as
64-bit words.
-/

namespace WindowAlign

/-- Why a category has nothing to report for a window. -/
inductive Skip where
  | insufficientHistory (available required : Nat)
  | noSnapshotAfterStart
  | rightNotReady
  | staleRight (rightEnd windowEnd : Int)
  deriving DecidableEq, Repr

namespace Skip

def name : Skip → String
  | insufficientHistory _ _ => "insufficient_history"
  | noSnapshotAfterStart => "no_snapshot_after_start"
  | rightNotReady => "right_not_ready"
  | staleRight _ _ => "stale_right_snapshot"

def message : Skip → String
  | insufficientHistory available required =>
    s!"insufficient history ({available} of {required} snapshots)"
  | noSnapshotAfterStart => "no snapshot ends after window start"
  | rightNotReady => "right snapshot not ready"
  | staleRight rightEnd windowEnd =>
    s!"right snapshot ends at {rightEnd} before window end {windowEnd}"

end Skip

/-- The snapshots that cover a reader window. -/
inductive Selection where
  | left (w : WriterWindow)
  | straddle (left right : WriterWindow)
  deriving DecidableEq, Repr

/-- When a pair of snapshots is good enough. -/
structure AlignmentPolicy where
  /-- Snapshots that a category must have. -/
  minDepth : Nat
  /-- How far before the end of the window the right snapshot may end. -/
  staleTolerance : Int
  deriving DecidableEq, Repr

/-- The metrics of one category for one reader window. -/
structure Aligned where
  category : Category
  window : Window
  cutover : Int
  leftStart : Int
  /-- Missing where the left snapshot covers the window alone. -/
  rightStart : Option Int
  table : Table

namespace AlignmentPolicy

/-- Whether a snapshot can be the left one of a window that starts at `a`. -/
def canBeLeft (a : Int) (w : WriterWindow) : Bool :=
  w.observed && decide (a ≤ w.stop)

/-- The snapshots for a window among ascending ones, or why there are none. -/
def select (p : AlignmentPolicy) (windows : List WriterWindow) (window : Window) :
    Except Skip Selection :=
  if windows.length < p.minDepth then
    .error (.insufficientHistory windows.length p.minDepth)
  else match windows.dropWhile fun w => !canBeLeft window.start w with
    | [] => .error .noSnapshotAfterStart
    | left :: rest =>
      if window.stop < left.stop then .ok (.left left)
      else match rest with
        | [] => .error .rightNotReady
        | right :: _ =>
          if Signed64.add right.stop p.staleTolerance < window.stop then
            .error (.staleRight right.stop window.stop)
          else .ok (.straddle left right)

end AlignmentPolicy

namespace Table

/-- A metric of two rows with one key, where `l` and `r` are the times that the
left and the right snapshot cover. A value that one side misses is the other's. -/
def blendValue (l r : Float) : Option Float → Option Float → Option Float
  | some x, some y => if 0 < l + r then some ((x * l + y * r) / (l + r)) else some x
  | some x, none => some x
  | none, y => y

/-- The rows of the left table, each blended with the right row of its key. -/
def blendRows (l r : Float) (left right : List (Key × Values)) : List (Key × Values) :=
  left.map fun row =>
    match find? row.1 right with
    | none => row
    | some values => (row.1, List.zipWith (blendValue l r) row.2 values)

/-- Rows with those of a second list added whose keys are new. -/
def addMissing (rows : List (Key × Values)) (others : List (Key × Values)) :
    List (Key × Values) :=
  others.foldl (fun acc row => if (find? row.1 acc).isSome then acc else insertRow row.1 row.2 acc)
    rows

/-- Two tables blended over a window. The cutover counts as the nearest time of
the window. A row of one side only is kept as it is. -/
def interpolate (left right : Table) (window : Window) (cutover : Int) : Table :=
  let t := min (max cutover window.start) window.stop
  let l := Binary64.ofInt (Signed64.sub t window.start)
  let r := Binary64.ofInt (Signed64.sub window.stop t)
  { left with rows := addMissing (blendRows l r left.rows right.rows) right.rows }

/-- `interpolate` over a window that is not inverted. -/
def interpolate? (left right : Table) (window : Window) (cutover : Int) : Option Table :=
  if window.stop < window.start then none else some (left.interpolate right window cutover)

end Table

namespace Store

/-- The metrics of a category for a reader window, or why there are none. -/
def align (s : Store) (p : AlignmentPolicy) (c : Category) (window : Window) :
    Except StorageFault (Except Skip Aligned) :=
  match p.select (s.writerWindows c) window with
  | .error reason => .ok (.error reason)
  | .ok (.left w) =>
    match s.project c w.windowStart with
    | .error e => .error e
    | .ok table => .ok (.ok ⟨c, window, w.stop, w.windowStart, none, table⟩)
  | .ok (.straddle left right) =>
    match s.project c left.windowStart with
    | .error e => .error e
    | .ok leftTable =>
      match s.project c right.windowStart with
      | .error e => .error e
      | .ok rightTable =>
        .ok (.ok ⟨c, window, left.stop, left.windowStart, some right.windowStart,
          leftTable.interpolate rightTable window left.stop⟩)

end Store

end WindowAlign
