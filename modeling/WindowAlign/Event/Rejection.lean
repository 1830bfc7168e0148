import WindowAlign.Category
import WindowAlign.Json.Writer
import WindowAlign.Text.Quoted

/-!
# Rejections

Why an event could not be decoded. Each cause belongs to one of five kinds, by
which dropped events are counted, and has a detail for the log.
-/

namespace WindowAlign

/-- The classes by which dropped events are counted. -/
inductive RejectionKind where
  | missingTimestamp
  | badTimestamp
  | badNumber
  | badPath
  | badTopology
  deriving DecidableEq, Repr

namespace RejectionKind

def all : List RejectionKind :=
  [missingTimestamp, badTimestamp, badNumber, badPath, badTopology]

def name : RejectionKind → String
  | missingTimestamp => "missing_timestamp"
  | badTimestamp => "bad_timestamp"
  | badNumber => "bad_number"
  | badPath => "bad_path"
  | badTopology => "bad_topology"

end RejectionKind

inductive Rejection where
  /-- The header line is blank. -/
  | emptyBlock
  /-- The header line is not JSON. -/
  | unreadableHeader
  /-- The header has no `current_time`. -/
  | noTime
  /-- The `current_time` of the header is something other than an integer. -/
  | timeNotInteger (found : Json)
  /-- A field's text is no value of the field's type. -/
  | badNumber (field raw : String)
  /-- A claimed key path does not have its category's shape. -/
  | badPath (category : Category) (segments : List String)
  /-- A line of a membership list is no cluster member. -/
  | badNode (line : String)

namespace Rejection

def kind : Rejection → RejectionKind
  | emptyBlock => .missingTimestamp
  | unreadableHeader => .badTimestamp
  | noTime => .missingTimestamp
  | timeNotInteger _ => .badTimestamp
  | badNumber _ _ => .badNumber
  | badPath _ _ => .badPath
  | badNode _ => .badTopology

def detail : Rejection → String
  | emptyBlock => "empty block"
  | unreadableHeader => "header"
  | noTime => "no current_time in header"
  | timeNotInteger found => "current_time is not an integer: " ++ found.compact
  | badNumber field raw => field ++ "=" ++ Text.quoted raw
  | badPath category segments =>
    category.name ++ ": unexpected key path " ++ "/".intercalate segments
  | badNode line => line

def message (r : Rejection) : String :=
  r.kind.name ++ ": " ++ r.detail

end Rejection

end WindowAlign
