import BalanceAudit.Rounding

/-!
# Floating numbers of 64 bits

Non-negative finite numbers `m * 2 ^ q` with `m < 2 ^ 53` and `q ≥ -1074`,
computed exactly on whole numbers.

- `Binary64.nearest?`: the number nearest to a ratio, unless it is too large.
- `Binary64.mul?`, `Binary64.div?`: rounded product and quotient.
- `Binary64.shortest`: the fewest digits that read back as the number, and of
  those the nearest.
- `Binary64.plain`: these digits written without exponent.
-/

namespace BalanceAudit

-- Powers are the core ones, also where a library has others.
attribute [local instance(high)] instPowNat

/-- `mantissa * 2 ^ exponent`. -/
structure Binary64 where
  mantissa : Nat
  exponent : Int
  deriving DecidableEq, Inhabited

namespace Binary64

/-- Zero. -/
def zero : Binary64 := ⟨0, -1074⟩

/-- Numerator and denominator of `n * b ^ e`. -/
def ratio (n b : Nat) (e : Int) : Nat × Nat :=
  if 0 ≤ e then (n * b ^ e.toNat, 1) else (n, b ^ (-e).toNat)

/-- The exponent of the number nearest to a positive ratio, before rounding:
the mantissa takes 53 bits unless the exponent is the least one. -/
def exponentOf (n d : Nat) : Int :=
  let guess : Int := (Nat.log2 n : Int) - (Nat.log2 d : Int)
  let top := if n * 2 ^ (-guess).toNat < d * 2 ^ guess.toNat then guess - 1 else guess
  max (-1074) (top - 52)

/-- The number nearest to `n / d`, a half going to the even mantissa; none if it
is beyond the greatest number. -/
def nearest? (n d : Nat) : Option Binary64 :=
  if n = 0 then some zero
  else
    let q := exponentOf n d
    let m := divideToEven (n * 2 ^ (-q).toNat) (d * 2 ^ q.toNat)
    -- Rounding up may carry out of the 53 bits.
    let (m, q) := if m = 2 ^ (53 : Nat) then (2 ^ (52 : Nat), q + 1) else (m, q)
    if q ≤ 971 then some ⟨m, q⟩ else none

/-- The ratio of a number. -/
def toRatio (x : Binary64) : Nat × Nat := ratio x.mantissa 2 x.exponent

/-- The rounded product. -/
def mul? (x y : Binary64) : Option Binary64 :=
  let (a, b) := x.toRatio
  let (c, d) := y.toRatio
  nearest? (a * c) (b * d)

/-- The rounded quotient by a positive number. -/
def div? (x y : Binary64) : Option Binary64 :=
  let (a, b) := x.toRatio
  let (c, d) := y.toRatio
  nearest? (a * d) (b * c)

/-- The number nearest to ten to the power `k`. -/
def powerOfTen (k : Nat) : Binary64 := (nearest? (10 ^ k) 1).getD zero

/-! ## Shortest digits -/

/-- On the grid of multiples of `10 ^ k`, the neighbour of the number that
rounds to it; of two, the nearer, and the lower one at equal distance. -/
def onGrid? (x : Binary64) (k : Int) : Option Nat :=
  -- The bounds of what rounds to `x` are whole quarters of its last place;
  -- below a power of two the next number is only half as far.
  let quarter := x.exponent - 2
  let value := 4 * x.mantissa
  let low := if x.mantissa = 2 ^ (52 : Nat) ∧ x.exponent ≠ -1074 then value - 1 else value - 2
  let high := value + 2
  let (_, d) := ratio 1 2 quarter
  let (unit, _) := ratio 1 2 quarter
  let (step, shrink) := ratio 1 10 k
  let den := d * step
  let num := fun n => n * unit * shrink
  -- A half rounds to an even mantissa, so such a number owns its bounds.
  let even := x.mantissa % 2 = 0
  let inside := fun n =>
    if even then num low ≤ n * den ∧ n * den ≤ num high
    else num low < n * den ∧ n * den < num high
  let below := num value / den
  let above := below + 1
  if inside below then
    if inside above ∧ above * den - num value < num value - below * den then some above
    else some below
  else if inside above then some above
  else none

/-- The first grid with a neighbour that rounds to the number, from `10 ^ k`
down over `fuel` grids. -/
def search (x : Binary64) : (fuel : Nat) → (k : Int) → Nat × Int
  | 0, k => (0, k)
  | fuel + 1, k =>
    match onGrid? x k with
    | some digits => (digits, k)
    | none => search x fuel (k - 1)

/-- Digits `n` and exponent `k` of the shortest `n * 10 ^ k` that rounds to the
number. -/
def shortest (x : Binary64) : Nat × Int :=
  if x.mantissa = 0 then (0, 0) else search x 660 310

/-- The shortest digits without exponent. -/
def plain (x : Binary64) : List Char :=
  let (n, k) := x.shortest
  let digits := Nat.toDigits 10 n
  if 0 ≤ k then digits ++ List.replicate k.toNat '0'
  else
    let places := (-k).toNat
    let padded := List.replicate (places + 1 - digits.length) '0' ++ digits
    padded.take (padded.length - places) ++ '.' :: padded.drop (padded.length - places)

end Binary64

end BalanceAudit
