import WindowAlign.Json.Basic
import WindowAlign.Json.Syntax
import WindowAlign.Number.Binary64
import WindowAlign.Number.Decimal

/-!
# Numbers of JSON

A literal without point and exponent is an integer while it fits: an unsigned
64-bit word, or a negative signed one. Every other literal is a double, and so
is `-0`. That double comes from the leading digits that fit into an unsigned
word, scaled by a power of ten in one or more roundings; a value beyond the
greatest double is refused, one below the least is zero.
-/

namespace WindowAlign.Json.Literal

def greatestWord : Nat := Nat.pow 2 64 - 1

/-- Digits added to `word` for as long as it stays an unsigned word, and the
digits left over. -/
def take (word : Nat) : List Nat → Nat × List Nat
  | [] => (word, [])
  | d :: ds => if greatestWord < word * 10 + d then (word, d :: ds) else take (word * 10 + d) ds

/-- The double nearest to a power of ten. -/
def tenTo (n : Nat) : Float :=
  Binary64.ofRatio false (Nat.pow 10 n) 1

/-- `x · 10 ^ e`, or nothing where it is infinite. Powers up to `10 ^ 308` are
applied in one step; below, `10 ^ 308` is divided out first, as often as the
first argument allows. A double is zero after three such steps. -/
def scale? : Nat → Float → Int → Option Float
  | steps, x, e =>
    if e.natAbs ≤ 308 then
      if 0 ≤ e then
        let y := x * tenTo e.natAbs
        if y.isInf then none else some y
      else some (x / tenTo e.natAbs)
    else if x == 0 then some x
    else if 0 ≤ e then none
    else match steps with
      | 0 => some 0
      | n + 1 => scale? n (x / tenTo 308) (e + 308)

/-- The greatest exponent that is still counted. -/
def greatestExponent : Nat := Nat.pow 2 31 - 1

/-- The exponent that is applied to the significand, given the one that the
literal writes out and the one that its digits bring along. An exponent beyond
the counted range has none: it settles the value by its sign alone. -/
def combine? (fromDigits : Int) : Option (Bool × List Nat) → Option Int
  | none => some fromDigits
  | some (negative, ds) =>
    let e := Decimal.ofDigits ds
    if greatestExponent < e then none
    else if negative then some (max (-greatestExponent - 1) (fromDigits - e))
    else some (min greatestExponent (fromDigits + e))

/-- The size of the literal read as a double, without its sign. -/
def magnitude? (l : Literal) : Option Float :=
  let (word, surplus) := take 0 l.whole
  let (word, left) := take word (l.fraction.getD [])
  let taken := (l.fraction.getD []).length - left.length
  let fromDigits : Int := surplus.length - taken
  match combine? fromDigits l.exponent with
  | some e => scale? 8 (UInt64.ofNat word).toFloat e
  | none =>
    match l.exponent with
    | some (false, _) => if word = 0 then some 0 else none
    | _ => some 0

def value? (l : Literal) : Option Json :=
  let n := Decimal.ofDigits l.whole
  let double := l.magnitude?.map fun x => Json.float (if l.negative then -x else x)
  if l.fraction.isSome || l.exponent.isSome then double
  else if l.negative then
    if 0 < n ∧ Signed64.least ≤ -(n : Int) then some (.int (-n)) else double
  else if n ≤ greatestWord then some (.int n) else double

end WindowAlign.Json.Literal
