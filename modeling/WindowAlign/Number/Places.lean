import WindowAlign.Number.Binary64
import WindowAlign.Number.Shortest

/-!
# Decimal notations of a double

`fixed` writes a double with a given number of places, rounded from its exact
value with ties to the even digit. `significant` rounds to a number of
significant digits instead and drops the zeros at the end.
-/

namespace WindowAlign.Places

/-- The digits of a natural, with zeros in front up to `width`. -/
def zeroPadded (width n : Nat) : String :=
  let s := toString n
  String.ofList (List.replicate (width - s.length) '0') ++ s

/-- A double with `places` digits after the point. A negative sign is kept also
where every digit is zero. -/
def fixed (places : Nat) (x : Float) : String :=
  match Binary64.parts? x with
  | none => if x.isNaN then "NaN" else if Binary64.isNegative x then "-inf" else "inf"
  | some p =>
    let (num, den) := Binary64.ratio p.significand p.exponent
    let units := Rounding.halfEven (num * Nat.pow 10 places) den
    (if p.negative then "-" else "") ++ toString (units / Nat.pow 10 places) ++ "." ++
      zeroPadded places (units % Nat.pow 10 places)

/-- Digits and exponent of a positive quotient rounded to `n` significant
digits, ties up. -/
def significant (n num den : Nat) : Nat × Int :=
  let e := Shortest.magnitude num den - (n - 1 : Nat)
  let (p, r) := Shortest.power e
  let (d, zeros) := Shortest.stripZeros (n + 1) (Rounding.halfUp (num * r) (den * p))
  (d, e + zeros)

end WindowAlign.Places
