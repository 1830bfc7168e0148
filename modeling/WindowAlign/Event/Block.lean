import WindowAlign.Event.Rejection
import WindowAlign.Json.Reader
import WindowAlign.Text.Blank
import WindowAlign.Window

/-!
# Value blocks

The text of an event is a header line, a JSON object whose `current_time` is the
writer's time, and body lines after it. Byte-order marks in front are dropped.
Body lines are taken without the blanks around them and empty ones not at all;
those with a colon are fields, cut at the first colon.
-/

namespace WindowAlign

/-- A decoded block: the writer's time and the lines of its body. -/
structure Block where
  time : Int
  lines : List (List Char)
  deriving DecidableEq, Repr

namespace Block

/-- The header line and the text after it. -/
def split (text : List Char) : List Char × List Char :=
  (Text.cut? '\n' text).getD (text, [])

/-- The non-empty lines of a body, without the blanks around them. -/
def bodyLines (body : List Char) : List (List Char) :=
  ((Text.pieces '\n' body).map Text.trim).filter (!·.isEmpty)

def timeOf (header : List Char) : Except Rejection Int :=
  if header.isEmpty then .error .emptyBlock
  else match Json.ofText? header with
    | none => .error .unreadableHeader
    | some json =>
      match json.member? "current_time" with
      | none => .error .noTime
      | some found =>
        match found.signed? with
        | none => .error (.timeNotInteger found)
        | some t => .ok t

def ofText (value : String) : Except Rejection Block :=
  let (header, body) := split (value.toList.dropWhile (· == '\ufeff'))
  match timeOf (Text.trim header) with
  | .error r => .error r
  | .ok t => .ok ⟨t, bodyLines body⟩

def lineTexts (b : Block) : List String :=
  b.lines.map String.ofList

/-- The name and the value of a line with a colon. -/
def field? (line : List Char) : Option (String × String) :=
  (Text.cut? ':' line).map fun p =>
    (String.ofList (Text.trim p.1), String.ofList (Text.trim p.2))

def fields (b : Block) : List (String × String) :=
  b.lines.filterMap field?

end Block

end WindowAlign
