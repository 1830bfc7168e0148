import WindowAlign.Number.Rounding

/-!
# Doubles

A finite double is a sign, a significand `m` and an exponent `q`, and stands
for `± m · 2 ^ q`. `parts?` takes a double apart, `units` makes it comparable with
integers, and `ofRatio` gives the double nearest to a quotient of naturals, ties to
the even significand, with infinity beyond the greatest finite one.
-/

namespace WindowAlign.Binary64

/-- Sign, significand and binary exponent of a finite double. -/
structure Parts where
  negative : Bool
  significand : Nat
  exponent : Int
  deriving DecidableEq, Repr

/-- The parts of a finite double; infinities and NaN have none. -/
def parts? (x : Float) : Option Parts :=
  let bits := x.toBits.toNat
  let negative := decide (Nat.pow 2 63 ≤ bits)
  let field : Nat := bits / Nat.pow 2 52 % Nat.pow 2 11
  let fraction : Nat := bits % Nat.pow 2 52
  if field = 2047 then none
  else if field = 0 then some ⟨negative, fraction, -1074⟩
  else some ⟨negative, Nat.pow 2 52 + fraction, (field : Int) - 1075⟩

/-- Numerator and denominator of `m · 2 ^ q`. -/
def ratio (m : Nat) (q : Int) : Nat × Nat :=
  match q with
  | .ofNat k => (m * Nat.pow 2 k, 1)
  | .negSucc k => (m, Nat.pow 2 (k + 1))

/-- The bits of infinity, without a sign. -/
def infinityBits : Nat := 2047 * Nat.pow 2 52

/-- The bits of the double nearest to `num / den`, without a sign. With `q` the
exponent at which the quotient has 53 bits, or the least exponent, the bits are
`(q + 1074) · 2 ^ 52` plus the rounded significand: a carry out of the
significand raises the exponent by itself. -/
def nearestBits (num den : Nat) : Nat :=
  if num = 0 then 0
  else
    let scaled (q : Int) : Nat × Nat :=
      match q with
      | .ofNat k => (num, den * Nat.pow 2 k)
      | .negSucc k => (num * Nat.pow 2 (k + 1), den)
    let guess : Int := (Nat.log2 num : Int) - Nat.log2 den - 53
    let exact := scaled guess
    let q := max (-1074) (if Nat.pow 2 53 ≤ exact.1 / exact.2 then guess + 1 else guess)
    let s := scaled q
    min infinityBits ((q + 1074).toNat * Nat.pow 2 52 + Rounding.halfEven s.1 s.2)

def ofRatio (negative : Bool) (num den : Nat) : Float :=
  Float.ofBits (UInt64.ofNat (nearestBits num den + if negative then Nat.pow 2 63 else 0))

def ofInt (n : Int) : Float :=
  ofRatio (decide (n < 0)) n.natAbs 1

/-- The integer that a double stands for exactly, if it does. -/
def toInt? (x : Float) : Option Int := do
  let p ← parts? x
  let (num, den) := ratio p.significand p.exponent
  if num % den = 0 then some (if p.negative then -(num / den : Nat) else (num / den : Nat))
  else none

/-- Whether the sign bit is set, of zeros and NaN as well. -/
def isNegative (x : Float) : Bool :=
  decide (Nat.pow 2 63 ≤ x.toBits.toNat)

/-- The units of `2 ^ -1074` in one. Every finite double is a whole number of such units. -/
def unitsPerOne : Nat := Nat.pow 2 1074

/-- The units in a double, by which doubles and integers are compared exactly. An infinity counts for
more units than any of them has. -/
def units (x : Float) : Int :=
  let size : Nat := match parts? x with
    | some p => p.significand * Nat.pow 2 (p.exponent + 1074).toNat
    | none => Nat.pow 2 2100
  if isNegative x then -size else size

/-- The double with `-0.0` replaced by `0.0`. -/
def dropZeroSign (x : Float) : Float :=
  if x == 0 then 0 else x

end WindowAlign.Binary64
