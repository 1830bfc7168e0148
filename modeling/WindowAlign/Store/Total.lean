import WindowAlign.Cell.Storage
import WindowAlign.Fault

/-!
# Totals

The sum of a column of cells. Integers are summed exactly while every partial sum
stays in the signed 64-bit range. From the first step that leaves it, or the first
cell that is no integer, the sum is a double with a running compensation for what
rounding lost. A sum that left the range and met no other number is an overflow.
-/

namespace WindowAlign

/-- A running sum. -/
inductive Total where
  /-- No cell was added yet. -/
  | nothing
  | exact (n : Int)
  | rounded (sum compensation : Float) (overflowed : Bool)

namespace Total

/-- The rounded sum with one more double; what the addition loses is added to the
compensation. -/
def addFloat (sum compensation x : Float) : Float × Float :=
  let t := sum + x
  if x.abs < sum.abs then (t, compensation + ((sum - t) + x))
  else (t, compensation + ((x - t) + sum))

/-- Integers of at least this size are added in two parts. -/
def splitSize : Nat := Nat.pow 2 52

/-- A large integer as a multiple of `2 ^ 14` and a remainder of its sign. -/
def parts (n : Int) : Int × Int :=
  let low := Int.tmod n 16384
  (n - low, low)

def addInt (sum compensation : Float) (n : Int) : Float × Float :=
  if splitSize ≤ n.natAbs then
    let (high, low) := parts n
    let (sum, compensation) := addFloat sum compensation (Binary64.ofInt high)
    addFloat sum compensation (Binary64.ofInt low)
  else addFloat sum compensation (Binary64.ofInt n)

def round (n : Int) : Float × Float :=
  if splitSize ≤ n.natAbs then
    let (high, low) := parts n
    (Binary64.ofInt high, Binary64.ofInt low)
  else (Binary64.ofInt n, 0)

/-- The size of a cell that is no integer. -/
def floatOf : Cell → Float
  | .null => 0
  | .int n => Binary64.ofInt n
  | .real x => x
  | .text s => ((Cell.leadingNumeral? s).map (·.1)).getD 0

/-- The sum with one more cell. An empty cell adds nothing. -/
def add (t : Total) (c : Cell) : Total :=
  match t, c with
  | t, .null => t
  | .nothing, .int n => exact n
  | .exact m, .int n =>
    if Signed64.fits (m + n) then exact (m + n)
    else
      let (sum, compensation) := round m
      let (sum, compensation) := addInt sum compensation n
      rounded sum compensation true
  | .rounded sum compensation overflowed, .int n =>
    let (sum, compensation) := addInt sum compensation n
    rounded sum compensation overflowed
  | .nothing, c =>
    let (sum, compensation) := addFloat 0 0 (floatOf c)
    rounded sum compensation false
  | .exact m, c =>
    let (sum, compensation) := round m
    let (sum, compensation) := addFloat sum compensation (floatOf c)
    rounded sum compensation false
  | .rounded sum compensation _, c =>
    let (sum, compensation) := addFloat sum compensation (floatOf c)
    rounded sum compensation false

def ofList (cells : List Cell) : Total :=
  cells.foldl add nothing

def number? (x : Float) : Option Float :=
  if x.isNaN then none else some x

/-- A rounded sum and its compensation as one double. -/
def settle (sum compensation : Float) : Float :=
  if compensation.isNaN then sum else sum + compensation

/-- The sum as a double, missing where nothing was added. -/
def sum? : Total → Except StorageFault (Option Float)
  | nothing => .ok none
  | exact n => .ok (some (Binary64.ofInt n))
  | rounded _ _ true => .error .integerOverflow
  | rounded sum compensation false => .ok (number? (settle sum compensation))

/-- The mean over `count` cells as a double, missing where nothing was added. The
sum is divided once. -/
def mean? (t : Total) (count : Nat) : Option Float :=
  match t with
  | nothing => none
  | exact n => number? (Binary64.ofInt n / Binary64.ofInt count)
  | rounded sum compensation _ =>
    number? (settle sum compensation / Binary64.ofInt count)

end Total

namespace Cell

/-- A cell as an operand: a text counts for the numeral that it begins with, and
for the integer zero where there is none. -/
def operand : Cell → Cell
  | text s => match leadingNumeral? s with
    | some (x, _) => real x
    | none => int 0
  | c => c

/-- The difference of two cells: an integer while it fits, a double otherwise,
nothing where one of them is nothing. -/
def minus (a b : Cell) : Cell :=
  match a.operand, b.operand with
  | null, _ => null
  | _, null => null
  | int m, int n =>
    if Signed64.fits (m - n) then int (m - n) else ofReal (Binary64.ofInt m - Binary64.ofInt n)
  | m, n => ofReal (Total.floatOf m - Total.floatOf n)

end Cell

end WindowAlign
