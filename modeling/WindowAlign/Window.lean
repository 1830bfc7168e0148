/-!
# Windows

Times are epoch milliseconds, given as integers. A window is half open: `⟨start, stop⟩` holds the
times `t` with `start ≤ t < stop`. A grid of windows is given by its interval,
and every time lies in exactly one window of a grid with a positive interval.
-/

namespace WindowAlign

/-- The last grid point at or before `t`. The remainder is never negative, so
times before the epoch round down as well. -/
def alignDown (t interval : Int) : Int :=
  t - t % interval

/-- `alignDown` where the grid exists: an interval of zero has no grid points. -/
def alignDown? (t interval : Int) : Option Int :=
  if interval = 0 then none else some (alignDown t interval)

/-- The half-open interval from `start` to `stop`. -/
structure Window where
  start : Int
  stop : Int
  deriving DecidableEq, Repr, Inhabited

namespace Window

def ofStart (start interval : Int) : Window :=
  ⟨start, start + interval⟩

def containing (t interval : Int) : Window :=
  ofStart (alignDown t interval) interval

def containing? (t interval : Int) : Option Window :=
  (alignDown? t interval).map (ofStart · interval)

def contains (w : Window) (t : Int) : Bool :=
  decide (w.start ≤ t) && decide (t < w.stop)

/-- Distance from `start` to `stop`, negative when they are inverted. -/
def length (w : Window) : Int :=
  w.stop - w.start

def isEmpty (w : Window) : Bool :=
  decide (w.stop ≤ w.start)

/-- The window of equal length that ends where this one starts. -/
def previous (w : Window) : Window :=
  ⟨w.start - w.length, w.start⟩

/-- The window as text, `[start, stop)`. -/
def text (w : Window) : String :=
  "[" ++ toString w.start ++ ", " ++ toString w.stop ++ ")"

theorem contains_iff {w : Window} {t : Int} :
    w.contains t = true ↔ w.start ≤ t ∧ t < w.stop := by
  simp [contains]

end Window

end WindowAlign
