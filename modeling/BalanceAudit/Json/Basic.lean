/-!
# JSON values

A value as it was written: members keep their order and repetitions, numbers
their digits.

- `Json.Number`: the parts of a written number.
- `Json`: a value. A string whose escapes do not spell Unicode text (a lone
  half of a pair) has no text; it may be passed over but not read.
-/

namespace BalanceAudit

/-- The parts of a written number: digits before and after the point, and the
sign (`true` for minus) and digits of the exponent. -/
structure Json.Number where
  negative : Bool
  whole : List Char
  places : List Char
  exponent : Option (Bool × List Char)
  deriving DecidableEq

/-- A JSON value. -/
inductive Json where
  | null
  | bool (b : Bool)
  | number (n : Json.Number)
  | string (text : Option String)
  | array (items : List Json)
  | object (members : List (Option String × Json))

namespace Json

instance : Inhabited Json := ⟨null⟩

/-- The value of a text. -/
def text (s : String) : Json := string (some s)

/-- The number of an integer. -/
def int (i : Int) : Json := number ⟨i < 0, Nat.toDigits 10 i.natAbs, [], none⟩

/-- The number of a natural number. -/
def nat (n : Nat) : Json := int n

/-- An object with the given members. -/
def record (members : List (String × Json)) : Json :=
  object (members.map fun m => (some m.1, m.2))

/-- The value of an optional one, `null` if there is none. -/
def option {α : Type} (f : α → Json) : Option α → Json
  | none => null
  | some a => f a

/-- An array of values. -/
def list {α : Type} (f : α → Json) (as : List α) : Json := array (as.map f)

/-- The integer a number is written as: no point, no exponent, and not minus
zero, which only a floating number can be. -/
def Number.toInt? (n : Number) : Option Int :=
  if n.places = [] ∧ n.exponent = none then
    let m := Nat.ofDigitChars 10 n.whole 0
    if n.negative then (if m = 0 then none else some (-(m : Int))) else some m
  else none

end Json

end BalanceAudit
