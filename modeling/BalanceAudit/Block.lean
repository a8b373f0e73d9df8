import BalanceAudit.Account
import BalanceAudit.Decimal.Json

/-!
# Blocks

- `BlockId`: index and hash of a block.
- `Amount`, `Operation`, `Transaction`, `Block`: what a node reports.
- `Block.deltas?`: the net change of every holding in a block, in the order in
  which they first occur; none if a sum leaves the limits of decimals.
-/

namespace BalanceAudit

/-- Index and hash of a block. -/
structure BlockId where
  index : Int
  hash : String
  deriving DecidableEq, Inhabited

/-- A value in a currency. -/
structure Amount where
  value : Decimal
  currency : Currency
  deriving DecidableEq, Inhabited

/-- A change of one account's balance. -/
structure Operation where
  index : Nat
  account : Account
  amount : Amount
  deriving DecidableEq, Inhabited

/-- Operations that belong together. -/
structure Transaction where
  hash : String
  operations : List Operation
  deriving DecidableEq, Inhabited

/-- A block as the node reports it. -/
structure Block where
  id : BlockId
  parent : BlockId
  transactions : List Transaction := []
  deriving DecidableEq, Inhabited

namespace BlockId

/-- Index and hash around a colon. -/
def toText (b : BlockId) : String := s!"{b.index}:" ++ b.hash

/-- Reads an identifier. -/
def ofJson? (v : Json) : Option BlockId := do
  let r ← v.record? ["index", "hash"]
  return ⟨← r.required? "index" Json.toInt64?, ← r.required? "hash" Json.toText?⟩

/-- Writes an identifier. -/
def toJson (b : BlockId) : Json := .record [("index", .int b.index), ("hash", .text b.hash)]

end BlockId

namespace Amount

/-- Reads an amount. -/
def ofJson? (v : Json) : Option Amount := do
  let r ← v.record? ["value", "currency"]
  return ⟨← r.required? "value" Decimal.ofJson?, ← r.required? "currency" Currency.ofJson?⟩

/-- Writes an amount. -/
def toJson (a : Amount) : Json :=
  .record [("value", a.value.toJson), ("currency", a.currency.toJson)]

end Amount

namespace Operation

/-- The holding that an operation changes. -/
def holding (op : Operation) : Holding := ⟨op.account, op.amount.currency⟩

/-- Reads an operation. -/
def ofJson? (v : Json) : Option Operation := do
  let r ← v.record? ["index", "account", "amount"]
  return ⟨← r.required? "index" Json.toNat64?, ← r.required? "account" Account.ofJson?,
    ← r.required? "amount" Amount.ofJson?⟩

/-- Writes an operation. -/
def toJson (op : Operation) : Json :=
  .record [("index", .nat op.index), ("account", op.account.toJson), ("amount", op.amount.toJson)]

end Operation

namespace Transaction

/-- Reads a transaction. -/
def ofJson? (v : Json) : Option Transaction := do
  let r ← v.record? ["hash", "operations"]
  return ⟨← r.required? "hash" Json.toText?,
    ← r.required? "operations" (Json.toList? Operation.ofJson?)⟩

/-- Writes a transaction. -/
def toJson (t : Transaction) : Json :=
  .record [("hash", .text t.hash), ("operations", .list Operation.toJson t.operations)]

end Transaction

namespace Block

/-- A genesis block points at nothing older than itself. -/
def isGenesis (b : Block) : Bool := b.id.index ≤ b.parent.index

/-- The operations of all transactions, in order. -/
def operations (b : Block) : List Operation := b.transactions.flatMap (·.operations)

/-- The number of operations. -/
def operationCount (b : Block) : Nat := b.operations.length

/-- Reads a block. -/
def ofJson? (v : Json) : Option Block := do
  let r ← v.record? ["identifier", "parent_identifier", "transactions"]
  return ⟨← r.required? "identifier" BlockId.ofJson?,
    ← r.required? "parent_identifier" BlockId.ofJson?,
    ← r.defaulted? "transactions" (Json.toList? Transaction.ofJson?) []⟩

/-- Writes a block. -/
def toJson (b : Block) : Json :=
  .record [("identifier", b.id.toJson), ("parent_identifier", b.parent.toJson),
    ("transactions", .list Transaction.toJson b.transactions)]

/-! ## Net changes -/

/-- The net changes with one more added to the holding it belongs to. -/
def addDelta? (holding : Holding) (value : Decimal) :
    List (Holding × Decimal) → Option (List (Holding × Decimal))
  | [] => some [(holding, value)]
  | (h, sum) :: rest =>
    if h = holding then (sum.add? value).map fun sum => (h, sum) :: rest
    else (addDelta? holding value rest).map ((h, sum) :: ·)

/-- The net changes of a list of operations, on top of earlier ones. -/
def addDeltas? : List Operation → List (Holding × Decimal) → Option (List (Holding × Decimal))
  | [], deltas => some deltas
  | op :: rest, deltas => addDelta? op.holding op.amount.value deltas >>= addDeltas? rest

/-- The net change of every holding in the block. -/
def deltas? (b : Block) : Option (List (Holding × Decimal)) := addDeltas? b.operations []

end Block

end BalanceAudit
