import BalanceAudit.Json.Record

/-!
# Accounts and holdings

- `Account`: an address, possibly with a sub-account.
- `Currency`: a symbol and its decimals.
- `Holding`: an account and a currency, the unit whose balance is audited.
  Holdings are ordered by address, sub-account, symbol and decimals.
-/

namespace BalanceAudit

/-- An address, possibly with a sub-account. -/
structure Account where
  address : String
  subAccount : Option String := none
  deriving DecidableEq, Inhabited

/-- A currency. -/
structure Currency where
  symbol : String
  decimals : Nat
  deriving DecidableEq, Inhabited

/-- An account and a currency. -/
structure Holding where
  account : Account
  currency : Currency
  deriving DecidableEq, Inhabited

namespace Account

/-- The address, with the sub-account after a slash. -/
def toText (a : Account) : String :=
  match a.subAccount with
  | some sub => a.address ++ "/" ++ sub
  | none => a.address

/-- Reads an account. -/
def ofJson? (v : Json) : Option Account := do
  let r ← v.record? ["address", "sub_account"]
  return ⟨← r.required? "address" Json.toText?,
    ← r.defaulted? "sub_account" (Json.nullable? Json.toText?) none⟩

/-- Writes an account; a missing sub-account is left out. -/
def toJson (a : Account) : Json :=
  .record (("address", .text a.address) ::
    match a.subAccount with
    | some sub => [("sub_account", .text sub)]
    | none => [])

end Account

namespace Currency

/-- Reads a currency. -/
def ofJson? (v : Json) : Option Currency := do
  let r ← v.record? ["symbol", "decimals"]
  return ⟨← r.required? "symbol" Json.toText?, ← r.required? "decimals" Json.toNat32?⟩

/-- Writes a currency. -/
def toJson (c : Currency) : Json :=
  .record [("symbol", .text c.symbol), ("decimals", .nat c.decimals)]

end Currency

namespace Holding

/-- The account, with the symbol in brackets. -/
def toText (h : Holding) : String := h.account.toText ++ " (" ++ h.currency.symbol ++ ")"

/-- Reads a holding. -/
def ofJson? (v : Json) : Option Holding := do
  let r ← v.record? ["account", "currency"]
  return ⟨← r.required? "account" Account.ofJson?, ← r.required? "currency" Currency.ofJson?⟩

/-- Writes a holding. -/
def toJson (h : Holding) : Json :=
  .record [("account", h.account.toJson), ("currency", h.currency.toJson)]

/-! ## Order -/

/-- By address, sub-account (none first), symbol and decimals. -/
abbrev order : Holding → Holding → Ordering :=
  compareLex (compareOn (·.account.address)) <|
  compareLex (compareOn (·.account.subAccount)) <|
  compareLex (compareOn (·.currency.symbol)) (compareOn (·.currency.decimals))

instance : Ord Holding := ⟨order⟩

instance : Std.TransOrd Holding := inferInstanceAs (Std.TransCmp order)

instance : Std.LawfulEqOrd Holding where
  eq_of_compare := by
    intro a b h
    change order a b = .eq at h
    simp only [order, compareLex, compareOn, Ordering.then_eq_eq] at h
    obtain ⟨address, subAccount, symbol, decimals⟩ := h
    rcases a with ⟨⟨_, _⟩, ⟨_, _⟩⟩
    rcases b with ⟨⟨_, _⟩, ⟨_, _⟩⟩
    cases Std.LawfulEqOrd.eq_of_compare address
    cases Std.LawfulEqOrd.eq_of_compare subAccount
    cases Std.LawfulEqOrd.eq_of_compare symbol
    cases Std.LawfulEqOrd.eq_of_compare decimals
    rfl

end Holding

end BalanceAudit
