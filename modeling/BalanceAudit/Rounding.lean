/-!
# Rounding quotients

- `divideToEven`: the whole number nearest to a quotient.
-/

namespace BalanceAudit

/-- The whole number nearest to `n / d`; a half goes to the even neighbour. -/
def divideToEven (n d : Nat) : Nat :=
  let q := n / d
  let r := n % d
  if 2 * r > d ∨ (2 * r = d ∧ q % 2 = 1) then q + 1 else q

end BalanceAudit
