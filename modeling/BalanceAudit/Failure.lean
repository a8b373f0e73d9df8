import BalanceAudit.Block

/-!
# Failed reconciliations

- `Kind`: a holding is checked when a block changed it, or in a sweep.
- `Failure`: a computed balance that differs from the one the node reports. Only
  the block of an active failure is known to have caused it.
-/

namespace BalanceAudit

/-- What a check was made for. -/
inductive Kind where
  /-- A block changed the holding. -/
  | active
  /-- A sweep over the holdings came by. -/
  | inactive
  deriving DecidableEq, Inhabited

namespace Kind

/-- The name of a kind. -/
def toText : Kind → String
  | active => "active"
  | inactive => "inactive"

/-- The name of a kind as an alternative. -/
def tag : Kind → String
  | active => "Active"
  | inactive => "Inactive"

/-- The kind of an alternative. -/
def ofTag? : String → Option Kind
  | "Active" => some active
  | "Inactive" => some inactive
  | _ => none

/-- Reads a kind. -/
def ofJson? (v : Json) : Option Kind := v.plainVariant? >>= ofTag?

/-- Writes a kind. -/
def toJson (k : Kind) : Json := .text k.tag

/-- The name of the field that holds the block of a failure. -/
def blockField : Kind → String
  | active => "block"
  | inactive => "observed_at"

end Kind

/-- A computed balance that differs from the live one. -/
structure Failure where
  kind : Kind
  holding : Holding
  /-- The block at which the difference showed. -/
  block : BlockId
  computed : Decimal
  live : Decimal
  deriving DecidableEq, Inhabited

namespace Failure

/-- The block that broke the balance, where that is known. -/
def cause? (f : Failure) : Option BlockId :=
  match f.kind with
  | .active => some f.block
  | .inactive => none

/-- The text of a failure. -/
def message (f : Failure) : String :=
  f.kind.toText ++ " reconciliation failed for " ++ f.holding.toText ++ " at block " ++
    f.block.toText ++ ": computed " ++ f.computed.toText ++ " but node reported " ++ f.live.toText

/-- Reads a failure. -/
def ofJson? (v : Json) : Option Failure := do
  let (tag, body) ← v.variant?
  let kind ← Kind.ofTag? tag
  let r ← (← body).record? ["account_currency", kind.blockField, "computed", "live"]
  return ⟨kind, ← r.required? "account_currency" Holding.ofJson?,
    ← r.required? kind.blockField BlockId.ofJson?,
    ← r.required? "computed" Decimal.ofJson?, ← r.required? "live" Decimal.ofJson?⟩

/-- Writes a failure. -/
def toJson (f : Failure) : Json :=
  .record [(f.kind.tag, .record [("account_currency", f.holding.toJson),
    (f.kind.blockField, f.block.toJson), ("computed", f.computed.toJson),
    ("live", f.live.toJson)])]

end Failure

end BalanceAudit
