import BalanceAudit.Decimal.Basic

/-!
# Reading decimals

A decimal is written with an optional sign, digits with at most one point among
them, and underscores anywhere after the first digit. Digits beyond the limits
of the type are cut off at the first that does not fit, which decides the
rounding alone. A text that is not of this form may still have an exponent.

- `Decimal.positional?`: the form without exponent.
- `Decimal.scientific?`: the form with one.
- `Decimal.ofText?`: either.
-/

namespace BalanceAudit

-- Powers are the core ones, also where a library has others.
attribute [local instance(high)] instPowNat

namespace Decimal

/-- The value of a decimal digit. -/
def digitOf? (c : Char) : Option Nat :=
  if c.isDigit then some (c.toNat - '0'.toNat) else none

/-- Ends a number at `c`, the first character beyond the limits: a digit from
five on rounds up. -/
def settle? (c : Char) (units scale : Nat) : Option (Nat × Nat) := do
  let digit ← if c = '_' ∨ c = '.' then some 0 else digitOf? c
  if digit < 5 then some (units, scale)
  else if units + 1 < unitsBound then some (units + 1, scale)
  else if scale = 0 then none
  -- The next unit needs a digit more than there is room for: a place is given up.
  else some ((units + 5) / 10, scale - 1)

/-- Reads digits on from `units` and `scale`. `point` tells that the point was
met, `started` that a digit was. -/
def digits? : List Char → Nat → Nat → Bool → Bool → Option (Nat × Nat)
  | [], units, scale, _, started => if started then some (units, scale) else none
  | c :: rest, units, scale, point, started =>
    if point ∧ maxScale ≤ scale then settle? c units scale
    else
      match digitOf? c with
      | some digit =>
        let grown := units * 10 + digit
        if grown < unitsBound then digits? rest grown (if point then scale + 1 else 0) point true
        else if point then settle? c units scale
        else none
      | none =>
        if c = '.' ∧ ¬point then digits? rest units scale true started
        else if c = '_' ∧ started then digits? rest units scale point true
        else none

/-- Reads the form without exponent. -/
def positional? (cs : List Char) : Option Decimal := do
  let (negative, body) :=
    match cs with
    | '-' :: rest => (true, rest)
    | '+' :: rest => (false, rest)
    | _ => (false, cs)
  let (units, scale) ← digits? body 0 0 false false
  ofUnits? (if negative then -(units : Int) else units) scale

/-- Reads an unsigned word of 32 bits, with an optional plus sign. -/
def word32? (cs : List Char) : Option Nat :=
  let body := match cs with
    | '+' :: rest => rest
    | _ => cs
  if body.isEmpty ∨ !body.all Char.isDigit then none
  else
    let n := Nat.ofDigitChars 10 body 0
    if n < 2 ^ (32 : Nat) then some n else none

/-- `d` times ten to the power `e`. Places are given up first; an exponent that
leaves none makes the units larger, and zero places are kept. -/
def raise? (d : Decimal) (e : Nat) : Option Decimal :=
  if e ≤ d.scale then ofUnits? d.units (d.scale - e)
  else if e ≤ maxScale then ofUnits? (d.units * 10 ^ (e - d.scale)) 0
  else none

/-- `d` divided by ten to the power `e`, as further places. -/
def lower? (d : Decimal) (e : Nat) : Option Decimal :=
  if e ≤ maxScale then ofUnits? d.units (d.scale + e) else none

/-- Reads the form with an exponent. -/
def scientific? (cs : List Char) : Option Decimal :=
  let isMark := fun c : Char => c == 'e' || c == 'E'
  match cs.dropWhile (!isMark ·) with
  | [] => none
  | _ :: exponent => do
    let base ← positional? (cs.takeWhile (!isMark ·))
    match exponent with
    | '-' :: rest => base.lower? (← word32? rest)
    | _ => base.raise? (← word32? exponent)

/-- Reads a written decimal. -/
def ofText? (s : String) : Option Decimal :=
  positional? s.toList <|> scientific? s.toList

end Decimal

end BalanceAudit
