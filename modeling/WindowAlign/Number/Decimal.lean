import WindowAlign.Number.Binary64
import WindowAlign.Number.Signed64

/-!
# Decimal literals

A literal has an optional sign, digits with at most one point among them, at
least one digit in all, and an optional exponent. `scan?` reads the longest
literal at the start of a text, and `toFloat` gives the double nearest to it.
-/

namespace WindowAlign

/-- The number `± coefficient · 10 ^ exponent`. -/
structure Decimal where
  negative : Bool
  coefficient : Nat
  exponent : Int
  deriving DecidableEq, Repr, Inhabited

namespace Decimal

/-- The digits at the start of a text, and the rest. -/
def spanDigits : List Char → List Nat × List Char
  | [] => ([], [])
  | c :: r =>
    match Signed64.digit? c with
    | some d => let (ds, rest) := spanDigits r; (d :: ds, rest)
    | none => ([], c :: r)

/-- The natural that a run of digits denotes. -/
def ofDigits (ds : List Nat) : Nat :=
  ds.foldl (fun n d => n * 10 + d) 0

/-- The sign at the start of a text, true when it is a minus, and the rest. -/
def spanSign : List Char → Bool × List Char
  | '-' :: r => (true, r)
  | '+' :: r => (false, r)
  | r => (false, r)

/-- An exponent part at the start of a text and the rest: zero, and nothing
taken, where none is well formed. -/
def spanExponent (s : List Char) : Int × List Char :=
  match s with
  | c :: r =>
    if c = 'e' ∨ c = 'E' then
      let (negative, r) := spanSign r
      match spanDigits r with
      | ([], _) => (0, s)
      | (ds, rest) => (if negative then -(ofDigits ds : Int) else ofDigits ds, rest)
    else (0, s)
  | [] => (0, s)

/-- The longest literal at the start of a text, and the rest. -/
def scan? (s : List Char) : Option (Decimal × List Char) :=
  let (negative, s) := spanSign s
  let (whole, s) := spanDigits s
  let (fraction, s) :=
    match s with
    | '.' :: r => spanDigits r
    | r => ([], r)
  if whole.isEmpty && fraction.isEmpty then none
  else
    let (exponent, s) := spanExponent s
    some (⟨negative, ofDigits (whole ++ fraction), exponent - fraction.length⟩, s)

/-- The literal that is the whole text. -/
def ofText? (s : List Char) : Option Decimal :=
  match scan? s with
  | some (d, []) => some d
  | _ => none

/-- The double nearest to the number. Numbers of at least `10 ^ 310` exceed
every finite double, and those below `10 ^ -330` are nearest to zero; neither
needs the power written out. -/
def toFloat (d : Decimal) : Float :=
  let magnitude := d.exponent + (Nat.log2 d.coefficient * 30103 / 100000 : Nat)
  if d.coefficient = 0 ∨ magnitude < -330 then Binary64.ofRatio d.negative 0 1
  else if 310 < magnitude then Binary64.ofRatio d.negative (Nat.pow 10 310) 1
  else match d.exponent with
    | .ofNat k => Binary64.ofRatio d.negative (d.coefficient * Nat.pow 10 k) 1
    | .negSucc k => Binary64.ofRatio d.negative d.coefficient (Nat.pow 10 (k + 1))

def finiteOfText? (s : List Char) : Option Float :=
  (ofText? s).bind fun d => let x := d.toFloat; if x.isFinite then some x else none

end Decimal

end WindowAlign
