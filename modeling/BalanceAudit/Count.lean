import BalanceAudit.Json.Record

/-!
# Counts

Counters hold natural numbers of 256 bits and stay at the greatest one.

- `Count`: a count, with its limit as a field.
- `Count.add`: the sum, or the greatest count.
- `Count.toHex`, `Count.ofHex?`: the form in which counts are stored.
- `Counter`: the counters that an audit keeps.
-/

namespace BalanceAudit

-- Powers are the core ones, also where a library has others.
attribute [local instance(high)] instPowNat

/-- A natural number of 256 bits. -/
structure Count where
  value : Nat
  value_lt : value < 2 ^ (256 : Nat)

namespace Count

theorem ext {a b : Count} (h : a.value = b.value) : a = b := by
  cases a; cases b; cases h; rfl

instance : DecidableEq Count := fun a b =>
  decidable_of_iff (a.value = b.value) ⟨ext, fun h => h ▸ rfl⟩

/-- The greatest count. -/
def greatest : Nat := 2 ^ (256 : Nat) - 1

/-- The count nearest to a number. -/
def ofNat (n : Nat) : Count :=
  ⟨min n greatest, Nat.lt_of_le_of_lt (Nat.min_le_right _ _) (by decide)⟩

instance (n : Nat) : OfNat Count n := ⟨ofNat n⟩

instance : Inhabited Count := ⟨0⟩

/-- The sum, or the greatest count. -/
def add (a b : Count) : Count := ofNat (a.value + b.value)

instance : Add Count := ⟨add⟩

theorem value_add (a b : Count) : (a + b).value = min (a.value + b.value) greatest := rfl

/-- The decimal digits. -/
def toText (c : Count) : String := String.ofList (Nat.toDigits 10 c.value)

/-- Reads decimal digits. -/
def ofText? (s : String) : Option Count :=
  let cs := s.toList
  if cs.isEmpty ∨ !cs.all Char.isDigit then none
  else
    let n := Nat.ofDigitChars 10 cs 0
    if h : n < 2 ^ (256 : Nat) then some ⟨n, h⟩ else none

/-! ## Hexadecimal form -/

/-- Lower-case digits after `0x`, without leading zeros. -/
def toHex (c : Count) : String := String.ofList ('0' :: 'x' :: Nat.toDigits 16 c.value)

/-- The values of hexadecimal digits; blanks are passed over. -/
def hexDigits? : List Char → Option (List Nat)
  | [] => some []
  | c :: rest =>
    if Json.Reader.isBlank c then hexDigits? rest
    else do return (← Json.Reader.hexDigit? c) :: (← hexDigits? rest)

/-- The digits that make up whole bytes, when the text they stand in has
`length` characters: with an odd length the first digit is a byte of its own,
and a last digit without partner is not counted. -/
def bytesOf (length : Nat) (digits : List Nat) : List Nat :=
  let padded := if length % 2 = 1 then 0 :: digits else digits
  padded.take (padded.length - padded.length % 2)

/-- Reads one to 64 hexadecimal digits of either case, with or without `0x`. -/
def ofHex? (s : String) : Option Count :=
  let cs := match s.toList with
    | '0' :: 'x' :: rest => rest
    | cs => cs
  if cs.isEmpty ∨ 64 < cs.length then none
  else do
    let digits ← hexDigits? cs
    let n := (bytesOf cs.length digits).foldl (fun n d => n * 16 + d) 0
    if h : n < 2 ^ (256 : Nat) then some ⟨n, h⟩ else none

/-- Reads a stored count. -/
def ofJson? (v : Json) : Option Count := v.toText? >>= ofHex?

/-- Writes a stored count. -/
def toJson (c : Count) : Json := .text c.toHex

end Count

/-- The counters that an audit keeps. -/
inductive Counter where
  | blocks | transactions | operations | seenAccounts
  | activeReconciliations | inactiveReconciliations | exemptReconciliations
  | skippedReconciliations | failedReconciliations
  deriving DecidableEq

namespace Counter

/-- The name under which a counter is stored. -/
def name : Counter → String
  | blocks => "blocks"
  | transactions => "transactions"
  | operations => "operations"
  | seenAccounts => "seen_accounts"
  | activeReconciliations => "active_reconciliations"
  | inactiveReconciliations => "inactive_reconciliations"
  | exemptReconciliations => "exempt_reconciliations"
  | skippedReconciliations => "skipped_reconciliations"
  | failedReconciliations => "failed_reconciliations"

/-- Every counter, in the order of reports. -/
def all : List Counter :=
  [blocks, transactions, operations, seenAccounts, activeReconciliations,
    inactiveReconciliations, exemptReconciliations, skippedReconciliations,
    failedReconciliations]

end Counter

end BalanceAudit
