import BalanceAudit.Binary64
import BalanceAudit.Decimal.Reader
import BalanceAudit.Json.Record

/-!
# Decimals in JSON

Decimals are written as strings. They are read from strings and from numbers:
an integer of 64 bits as it is, any other number through the shortest digits of
the floating number it comes to.

- `Json.Number.toBinary64?`: the magnitude of a number as a floating number.
- `Decimal.ofJson?`, `Decimal.toJson`: reading and writing.
-/

namespace BalanceAudit

-- Powers are the core ones, also where a library has others.
attribute [local instance(high)] instPowNat

namespace Json.Number

/-- Digits taken into a significand of 64 bits while it can hold them, and how
many are left. -/
def significand : List Char → (taken : Nat) → Nat × Nat
  | [], taken => (taken, 0)
  | c :: rest, taken =>
    let grown := taken * 10 + (c.toNat - '0'.toNat)
    if grown < 2 ^ (64 : Nat) then significand rest grown else (taken, rest.length + 1)

/-- The greatest power of ten in the table of powers. -/
def greatestPower : Nat := 308

/-- `f * 10 ^ e`, by one multiplication, or by divisions of at most the greatest
power; none if it is too large. -/
def scaled? (f : Binary64) (e : Int) : Option Binary64 :=
  let limit : Int := greatestPower
  if 0 ≤ e then
    if e ≤ limit then f.mul? (Binary64.powerOfTen e.toNat)
    else if f.mantissa = 0 then some f
    else none
  else if -limit ≤ e then f.div? (Binary64.powerOfTen (-e).toNat)
  else do
    let f ← f.div? (Binary64.powerOfTen greatestPower)
    let e := e + limit
    if -limit ≤ e then f.div? (Binary64.powerOfTen (-e).toNat) else some Binary64.zero

/-- The magnitude of a number as a floating number: a significand of 64 bits,
rounded and then scaled. -/
def toBinary64? (n : Number) : Option Binary64 := do
  let (w, dropped) := significand n.whole 0
  let (s, left) := significand n.places w
  let start : Int := (dropped : Int) - (n.places.length - left : Nat)
  let f ← Binary64.nearest? s 1
  match n.exponent with
  | none => scaled? f start
  | some (negative, digits) =>
    let e := Nat.ofDigitChars 10 digits 0
    if 2 ^ (31 : Nat) ≤ e then
      if s ≠ 0 ∧ ¬negative then none else some Binary64.zero
    else scaled? f (if negative then start - e else start + e)

end Json.Number

namespace Decimal

/-- Reads a decimal from a number. -/
def ofNumber? (n : Json.Number) : Option Decimal :=
  match n.toInt? with
  | some i =>
    if -(2 ^ (63 : Nat)) ≤ i ∧ i < 2 ^ (64 : Nat) then ofUnits? i 0
    else ofFloating? n
  | none => ofFloating? n
where
  /-- Reads a decimal from the floating number that a number comes to. -/
  ofFloating? (n : Json.Number) : Option Decimal := do
    let x ← n.toBinary64?
    positional? ((if n.negative then ['-'] else []) ++ x.plain)

/-- Reads a decimal. -/
def ofJson? : Json → Option Decimal
  | .string t => t >>= ofText?
  | .number n => ofNumber? n
  | _ => none

/-- Writes a decimal. -/
def toJson (d : Decimal) : Json := .text d.toText

end Decimal

end BalanceAudit
