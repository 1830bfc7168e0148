import WindowAlign.Number.Binary64

/-!
# Shortest decimals

The doubles cut the line into intervals of numbers that round to each of them;
the ends of an interval belong to it exactly when the significand is even.
`shortest` is the decimal with the fewest digits in the interval of a double,
and of those the nearest one.
-/

namespace WindowAlign.Shortest

/-- The numbers that round to `m · 2 ^ q`, scaled by `4 / 2 ^ q`. Below a power
of two the neighbour is at half the distance. -/
structure Interval where
  low : Nat
  value : Nat
  high : Nat
  closed : Bool
  deriving Repr

def interval (m : Nat) (q : Int) : Interval where
  low := if m = Nat.pow 2 52 ∧ -1074 < q then 4 * m - 1 else 4 * m - 2
  value := 4 * m
  high := 4 * m + 2
  closed := m % 2 == 0

def Interval.holds (i : Interval) (num den : Nat) : Bool :=
  if i.closed then decide (i.low * den ≤ num) && decide (num ≤ i.high * den)
  else decide (i.low * den < num) && decide (num < i.high * den)

/-- The power of ten as numerator and denominator. -/
def power (e : Int) : Nat × Nat :=
  match e with
  | .ofNat k => (Nat.pow 10 k, 1)
  | .negSucc k => (1, Nat.pow 10 (k + 1))

/-- The greatest `k` with `10 ^ k ≤ num / den`, for a positive quotient. The
guess from the binary lengths is at most one too small or too large. -/
def magnitude (num den : Nat) : Int :=
  let guess := ((Nat.log2 num : Int) - Nat.log2 den) * 30103 / 100000
  let atLeast (k : Int) : Bool := let (p, r) := power k; decide (p * den ≤ num * r)
  if atLeast (guess + 2) then guess + 2
  else if atLeast (guess + 1) then guess + 1
  else if atLeast guess then guess
  else guess - 1

/-- The multiple of `10 ^ e` nearest to the value among those in the interval;
`num / den` is the unit of the interval. -/
def onGrid? (i : Interval) (num den : Nat) (e : Int) : Option Nat :=
  let (p, r) := power e
  -- the value in grid units is `value * num * r / (den * p)`
  let top := i.value * num * r
  let bottom := den * p
  let below := top / bottom
  let inside (d : Nat) : Bool := i.holds (d * bottom) (num * r)
  let nearBelow := decide (2 * (top - below * bottom) < bottom) ||
    (decide (2 * (top - below * bottom) = bottom) && below % 2 == 0)
  match inside below, inside (below + 1) with
  | true, true => some (if nearBelow then below else below + 1)
  | true, false => some below
  | false, true => some (below + 1)
  | false, false => none

/-- The first grid with a point in the interval, from the coarsest on. -/
def search (i : Interval) (num den : Nat) : Nat → Int → Nat × Int
  | 0, e => ((onGrid? i num den e).getD 0, e)
  | n + 1, e =>
    match onGrid? i num den e with
    | some d => (d, e)
    | none => search i num den n (e - 1)

/-- The number without its trailing zeros, and how many there were. -/
def stripZeros : Nat → Nat → Nat × Nat
  | 0, d => (d, 0)
  | fuel + 1, d =>
    if d ≠ 0 ∧ d % 10 = 0 then
      let (e, n) := stripZeros fuel (d / 10)
      (e, n + 1)
    else (d, 0)

/-- Digits and exponent of the shortest decimal that rounds to `m · 2 ^ q`. -/
def shortest (m : Nat) (q : Int) : Nat × Int :=
  if m = 0 then (0, 0)
  else
    let (num, den) := Binary64.ratio 1 (q - 2)
    let i := interval m q
    let (d, e) := search i num den 17 (magnitude (i.value * num) den)
    let (d, zeros) := stripZeros 20 d
    (d, e + zeros)

end WindowAlign.Shortest
