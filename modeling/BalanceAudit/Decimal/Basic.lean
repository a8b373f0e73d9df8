import BalanceAudit.Rounding

/-!
# Decimals

Amounts are decimals of 96 bits: a whole number of units of `10 ^ -scale`, with
at most 28 places. The places are part of the value that is written, but not of
the value that is compared.

- `Decimal`: units and places, with their limits as fields.
- `Decimal.Same`: equality of amounts, whatever their places.
- `Decimal.fit?`: the fewest places dropped so that units fit 96 bits, a half
  going to the even neighbour.
- `Decimal.add?`: the sum, at the places of the finer operand where it fits.
- `Decimal.toText`: the written form, which keeps the places.
-/

namespace BalanceAudit

-- Powers are the core ones, also where a library has others.
attribute [local instance(high)] instPowNat

/-- `units / 10 ^ scale`. -/
structure Decimal where
  units : Int
  scale : Nat
  units_lt : units.natAbs < 2 ^ (96 : Nat)
  scale_le : scale ≤ 28

namespace Decimal

/-- Magnitudes of units lie below this bound. -/
def unitsBound : Nat := 2 ^ (96 : Nat)

/-- The most places a decimal can have. -/
def maxScale : Nat := 28

theorem ext {a b : Decimal} (units : a.units = b.units) (scale : a.scale = b.scale) : a = b := by
  cases a; cases b; cases units; cases scale; rfl

instance : DecidableEq Decimal := fun a b =>
  decidable_of_iff (a.units = b.units ∧ a.scale = b.scale)
    ⟨fun h => ext h.1 h.2, fun h => h ▸ ⟨rfl, rfl⟩⟩

/-- The decimal of given units and places, if both are within the limits. -/
def ofUnits? (units : Int) (scale : Nat) : Option Decimal :=
  if h : units.natAbs < 2 ^ (96 : Nat) ∧ scale ≤ 28 then some ⟨units, scale, h.1, h.2⟩ else none

/-- Zero without places. -/
def zero : Decimal := ⟨0, 0, by decide, by decide⟩

instance : Inhabited Decimal := ⟨zero⟩

/-- Whether the amount is zero. -/
def isZero (d : Decimal) : Bool := d.units == 0

/-! ## Comparing -/

/-- Two decimals are the same amount. -/
def Same (a b : Decimal) : Prop := a.units * 10 ^ b.scale = b.units * 10 ^ a.scale

instance (a b : Decimal) : Decidable (Same a b) := inferInstanceAs (Decidable (_ = _))

theorem Same.refl (a : Decimal) : Same a a := rfl

/-! ## Adding -/

/-- The magnitude `n` of `scale` places with the fewest places dropped that
make it fit; none if it does not fit without places either. -/
def fit? (negative : Bool) (n scale : Nat) (dropped : Nat := 0) : Option Decimal :=
  let m := divideToEven n (10 ^ dropped)
  match ofUnits? (if negative then -(m : Int) else m) scale with
  | some d => some d
  | none =>
    match scale with
    | 0 => none
    | scale + 1 => fit? negative n scale (dropped + 1)

/-- The sum of two amounts. A zero operand gives the other one as it is;
otherwise the sum is taken at the finer places and loses places only to fit. -/
def add? (a b : Decimal) : Option Decimal :=
  if a.isZero then some b
  else if b.isZero then some a
  else
    let scale := max a.scale b.scale
    let sum := a.units * 10 ^ (scale - a.scale) + b.units * 10 ^ (scale - b.scale)
    fit? (sum < 0) sum.natAbs scale

/-! ## Writing -/

/-- The digits of `n`, at least `width` of them. -/
def paddedDigits (width n : Nat) : List Char :=
  let digits := Nat.toDigits 10 n
  List.replicate (width - digits.length) '0' ++ digits

/-- The characters of the written form. -/
def toChars (d : Decimal) : List Char :=
  let digits := paddedDigits (d.scale + 1) d.units.natAbs
  let whole := digits.take (digits.length - d.scale)
  let places := digits.drop (digits.length - d.scale)
  (if d.units < 0 then ['-'] else []) ++ whole ++ (if d.scale = 0 then [] else '.' :: places)

/-- The written form, with every place. -/
def toText (d : Decimal) : String := String.ofList d.toChars

end Decimal

end BalanceAudit
