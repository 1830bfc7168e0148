import WindowAlign.Catalog
import WindowAlign.Number.Decimal
import WindowAlign.Number.Signed64

/-!
# Cells

A cell is one stored value: nothing, a signed 64-bit integer, a double or a
text. `FieldType.cell?` reads the text of a field as a cell of the field's
type; an empty text is nothing, and a text that is no such value has no cell.
-/

namespace WindowAlign

inductive Cell where
  | null
  | int (n : Int)
  | real (x : Float)
  | text (s : String)
  deriving Inhabited

namespace Cell

def isNull : Cell → Bool
  | null => true
  | _ => false

def orElse : Cell → Cell → Cell
  | null, b => b
  | a, _ => a

/-- The kind of a cell, as it is named in messages. -/
def kindName : Cell → String
  | null => "Null"
  | int _ => "Integer"
  | real _ => "Real"
  | text _ => "Text"

/-- The order of cells: nothing, then numbers by size, then texts by their
characters. Numbers are compared exactly, also an integer with a double. -/
def le : Cell → Cell → Bool
  | null, _ => true
  | _, null => false
  | int a, int b => decide (a ≤ b)
  | int a, real b => decide (a * Binary64.unitsPerOne ≤ Binary64.units b)
  | real a, int b => decide (Binary64.units a ≤ b * Binary64.unitsPerOne)
  | real a, real b => decide (Binary64.units a ≤ Binary64.units b)
  | int _, text _ => true
  | real _, text _ => true
  | text _, int _ => false
  | text _, real _ => false
  | text a, text b => decide (a ≤ b)

/-- The greater of two cells, the first where they are equal. -/
def greater (a b : Cell) : Cell :=
  if le b a then a else b

end Cell

/-- The cell that the text of a field stands for. An integer field also takes
the two truth values. -/
def FieldType.cell? (type : FieldType) (raw : String) : Option Cell :=
  if raw.isEmpty then some .null
  else match type with
    | .text => some (.text raw)
    | .float => (Decimal.finiteOfText? raw.toList).map .real
    | .int =>
      if raw = "true" then some (.int 1)
      else if raw = "false" then some (.int 0)
      else (Signed64.ofText? raw.toList).map .int

end WindowAlign
