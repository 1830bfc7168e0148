/-!
# Rounding a quotient

`halfEven` and `halfUp` give the integer nearest to a quotient of naturals.
They differ on a tie only: the even neighbour, or the greater one.
-/

namespace WindowAlign.Rounding

/-- The integer nearest to `num / den`; a tie goes to the even neighbour. -/
def halfEven (num den : Nat) : Nat :=
  let floor := num / den
  let rest := 2 * (num % den)
  if rest < den then floor
  else if den < rest then floor + 1
  else floor + floor % 2

/-- The integer nearest to `num / den`; a tie goes up. -/
def halfUp (num den : Nat) : Nat :=
  (2 * num + den) / (2 * den)

end WindowAlign.Rounding
