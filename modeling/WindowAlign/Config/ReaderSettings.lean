import WindowAlign.Fault
import WindowAlign.Number.Signed64
import WindowAlign.Window

/-!
# Reader settings

The knobs of the reader, read once at the start. Spans are counted in windows of
the sampling interval; times derived from them are signed.
-/

namespace WindowAlign

structure ReaderSettings where
  /-- Directory into which the writer puts its buckets. -/
  eventRoot : String
  /-- Width of a window in milliseconds. -/
  samplingInterval : Nat
  /-- How many windows the reader stays behind the clock. -/
  lagWindows : Nat
  /-- Snapshots that a category keeps after each cycle. -/
  retainDepth : Nat
  /-- Snapshots that a category must have before it is aligned. -/
  alignmentDepth : Nat
  /-- Windows after which an unfinished operation is given up. -/
  inFlightWindows : Nat
  /-- Buffered rows at which a batch is written. -/
  batchRows : Nat
  /-- How far before the end of a window the right snapshot may end. -/
  staleTolerance : Nat
  deriving DecidableEq, Repr

namespace ReaderSettings

def defaults : ReaderSettings where
  eventRoot := "/dev/shm/perfalign"
  samplingInterval := 5000
  lagWindows := 3
  retainDepth := 4
  alignmentDepth := 2
  inFlightWindows := 3
  batchRows := 500
  staleTolerance := 0

/-- The width of a window as a span of time. -/
def interval (s : ReaderSettings) : Int :=
  Signed64.wrap s.samplingInterval

/-- The greatest age at which an unfinished operation is carried along. -/
def maxInFlightAge (s : ReaderSettings) : Int :=
  s.interval * s.inFlightWindows

/-- The distance to the clock. -/
def writerLag (s : ReaderSettings) : Int :=
  s.interval * s.lagWindows

def tolerance (s : ReaderSettings) : Int :=
  Signed64.wrap s.staleTolerance

/-- The first reason why the settings cannot be used. -/
def validate (s : ReaderSettings) : Except ConfigFault Unit :=
  if s.samplingInterval = 0 then .error .zeroInterval
  else if s.alignmentDepth < 2 then .error .shallowAlignment
  else if s.retainDepth < s.alignmentDepth then
    .error (.retainBelowAlignment s.retainDepth s.alignmentDepth)
  else if s.batchRows = 0 then .error .zeroBatch
  else .ok ()

theorem samplingInterval_pos (s : ReaderSettings) (h : s.validate = .ok ()) : 0 < s.samplingInterval := by
  refine Nat.pos_of_ne_zero fun hzero => ?_
  have hrefused : s.validate = .error .zeroInterval := if_pos hzero
  rw [hrefused] at h
  cases h

end ReaderSettings

end WindowAlign
