import WindowAlign.Cell.Basic
import WindowAlign.Number.Places

/-!
# Storing a cell in a column

A column prefers the kind of cell it declares. `FieldType.store` gives the cell
that is kept: a number in a text column becomes its text, an integer in a float
column a double, a whole double in an integer column an integer, and a text that
is a numeral a number in either. What cannot be converted is kept as it is, so a
text may end up in a column of numbers. NaN is kept as nothing, and a zero in a
float column has no sign.
-/

namespace WindowAlign

namespace Cell

/-- A double as text: fifteen significant digits, at least one after the point,
and an exponent from `1e15` up or below `1e-4`. -/
def realText (x : Float) : String :=
  match Binary64.parts? x with
  | none => if Binary64.isNegative x then "-Inf" else "Inf"
  | some p =>
    if p.significand = 0 then "0.0"
    else
      let (num, den) := Binary64.ratio p.significand p.exponent
      let (d, e) := Places.significant 15 num den
      let digits := (toString d).toList
      let scale : Int := digits.length + e - 1
      let fraction (ds : List Char) : String := if ds.isEmpty then "0" else String.ofList ds
      let zeros (n : Nat) : List Char := List.replicate n '0'
      let size :=
        if scale < -4 ∨ 14 < scale then
          String.ofList (digits.take 1) ++ "." ++ fraction (digits.drop 1) ++ "e" ++
            (if scale < 0 then "-" else "+") ++ Places.zeroPadded 2 scale.natAbs
        else if scale < 0 then
          "0." ++ String.ofList (zeros (scale.natAbs - 1) ++ digits)
        else
          let padded := digits ++ zeros (scale.toNat + 1 - digits.length)
          String.ofList (padded.take (scale.toNat + 1)) ++ "." ++
            fraction (padded.drop (scale.toNat + 1))
      (if p.negative then "-" else "") ++ size

/-- Blanks that may stand around a numeral. -/
def isNumeralBlank (c : Char) : Bool :=
  c == ' ' || (9 ≤ c.toNat && c.toNat ≤ 13)

/-- The number that a text begins with, and whether it is the whole text. -/
def leadingNumeral? (s : String) : Option (Float × Bool) :=
  (Decimal.scan? (s.toList.dropWhile isNumeralBlank)).map fun p =>
    (p.1.toFloat, p.2.all isNumeralBlank)

/-- The cell of a whole double: an integer strictly inside the signed range. -/
def ofWhole (x : Float) : Cell :=
  match Binary64.toInt? x with
  | some n => if Signed64.least < n ∧ n < Signed64.greatest then int n else real x
  | none => real x

/-- A double, or nothing for NaN. -/
def ofReal (x : Float) : Cell :=
  if x.isNaN then null else real x

def numeralText (s : String) : List Char :=
  ((s.toList.dropWhile isNumeralBlank).reverse.dropWhile isNumeralBlank).reverse

end Cell

namespace FieldType

/-- The cell that a column keeps when it is given one. -/
def store (type : FieldType) (c : Cell) : Cell :=
  match type, c with
  | _, .null => .null
  | .text, .text s => .text s
  | .text, .int n => .text (toString n)
  | .text, .real x => if x.isNaN then .null else .text (Cell.realText x)
  | .float, .int n => .real (Binary64.ofInt n)
  | .float, .real x => Cell.ofReal (Binary64.dropZeroSign x)
  | .float, .text s =>
    match Cell.leadingNumeral? s with
    | some (x, true) => .real (Binary64.dropZeroSign x)
    | _ => .text s
  | .int, .int n => .int n
  | .int, .real x => if x.isNaN then .null else Cell.ofWhole x
  | .int, .text s =>
    match Signed64.ofText? (Cell.numeralText s), Cell.leadingNumeral? s with
    | some n, _ => .int n
    | none, some (x, true) => Cell.ofWhole x
    | none, _ => .text s

end FieldType

end WindowAlign
