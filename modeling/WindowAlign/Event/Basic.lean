import WindowAlign.Text.Blank
import WindowAlign.Window

/-!
# Events

An event is one file of a writer's bucket: a key path and the text of a value
block. The segments of a key are what stands between its slashes, empty ones
left out.
-/

namespace WindowAlign

structure Event where
  key : String
  value : String
  deriving DecidableEq, Repr, Inhabited

namespace Event

/-- The non-empty segments of a key path. -/
def segmentsOf (key : String) : List String :=
  ((Text.pieces '/' key.toList).filter (!·.isEmpty)).map String.ofList

def segments (e : Event) : List String :=
  segmentsOf e.key

end Event

end WindowAlign
