import BalanceAudit.Block
import BalanceAudit.Count
import BalanceAudit.Table

/-!
# Ledgers

A ledger holds what was computed so far: the blocks applied, the balance of
every holding that a block or a manifest named, and the counters.

- `Ledger`, `Balance`, `Record`: the contents.
- `Change`, `Batch`: what one block adds, taken over as a whole by
  `Ledger.apply`.
- `Ledger.seed`: the balances of a manifest, put in before the first block.
- `Ledger.toJson`, `Ledger.ofJson?`: the stored form, in the order of indices,
  holdings and names.
-/

namespace BalanceAudit

/-- A computed balance and the block that changed it last. -/
structure Balance where
  value : Decimal
  block : BlockId
  deriving DecidableEq, Inhabited

/-- A holding with its computed balance. -/
structure Record where
  holding : Holding
  balance : Balance
  deriving DecidableEq, Inhabited

/-- What a block does to a balance. -/
structure Change where
  holding : Holding
  block : BlockId
  /-- The net change. -/
  difference : Decimal
  /-- The balance after the block. -/
  value : Decimal
  /-- Whether the holding had no balance before. -/
  isNew : Bool
  deriving DecidableEq, Inhabited

/-- Everything that one block adds. -/
structure Batch where
  block : BlockId
  changes : List Change := []
  counts : List (String × Count) := []
  deriving DecidableEq, Inhabited

/-- A holding and the balance it has at genesis. -/
structure Seed where
  holding : Holding
  value : Decimal
  deriving DecidableEq, Inhabited

/-- What was computed so far. Whoever writes a block puts it under its own index, and a
record under its own holding, so the values leave out what their keys say: `block?` and
`record?` put it back. -/
structure Ledger where
  /-- The hashes of the blocks by their indices. -/
  blocks : Table Int String := ∅
  balances : Table Holding Balance := ∅
  counters : Table String Count := ∅
  deriving DecidableEq, Inhabited

namespace Batch

/-- The batch with one more amount to be counted. -/
def count (b : Batch) (c : Counter) (amount : Count) : Batch :=
  { b with counts := b.counts ++ [(c.name, amount)] }

end Batch

namespace Ledger

/-! ## Reading -/

/-- The block with the greatest index. -/
def head? (l : Ledger) : Option BlockId := l.blocks.last?.map fun (index, hash) => ⟨index, hash⟩

/-- The block at an index. -/
def block? (l : Ledger) (index : Int) : Option BlockId := (l.blocks.find? index).map (⟨index, ·⟩)

/-- The record of a holding. -/
def record? (l : Ledger) (h : Holding) : Option Record := (l.balances.find? h).map (⟨h, ·⟩)

/-- The record of a holding together with the head. -/
def snapshot? (l : Ledger) (h : Holding) : Option (Record × BlockId) := do
  let head ← l.head?
  return (← l.record? h, head)

/-- The holdings that have a balance, in order. -/
def holdings (l : Ledger) : List Holding := l.balances.keys

/-- The records, in the order of their holdings. -/
def records (l : Ledger) : List Record := l.balances.entries.map fun (h, b) => ⟨h, b⟩

/-- The value of a counter, zero if it was never raised. -/
def counted (l : Ledger) (name : String) : Count := (l.counters.find? name).getD 0

/-- Every counter that was raised, and every well-known one. -/
def report (l : Ledger) : Table String Count :=
  Counter.all.foldl
    (fun t c => if t.contains c.name then t else t.insert c.name 0) l.counters

/-! ## Writing -/

/-- Raises a counter. -/
def increment (l : Ledger) (name : String) (amount : Count) : Ledger :=
  { l with counters := l.counters.insert name (l.counted name + amount) }

/-- Gives a holding a balance. -/
def put (l : Ledger) (h : Holding) (b : Balance) : Ledger :=
  { l with balances := l.balances.insert h b }

/-- Takes over a batch: the last change of every holding, all counts, and the
block as the head. -/
def apply (l : Ledger) (b : Batch) : Ledger :=
  let l := b.changes.foldl (fun l c => l.put c.holding ⟨c.value, c.block⟩) l
  let l := b.counts.foldl (fun l c => l.increment c.1 c.2) l
  { l with blocks := l.blocks.insert b.block.index b.block.hash }

/-- Gives every listed holding its last listed balance, as of `genesis`, and
counts the holdings that had none. -/
def seed (l : Ledger) (seeds : List Seed) (genesis : BlockId) : Ledger :=
  let (l, added) := seeds.foldl
    (fun (l, added) s =>
      (l.put s.holding ⟨s.value, genesis⟩,
        if l.balances.contains s.holding then added else added + 1))
    (l, 0)
  l.increment Counter.seenAccounts.name (.ofNat added)

end Ledger

/-! ## The stored form -/

/-- Reads a record. -/
def Record.ofJson? (v : Json) : Option Record := do
  let r ← v.record? ["account_currency", "value", "block"]
  return ⟨← r.required? "account_currency" Holding.ofJson?,
    ← r.required? "value" Decimal.ofJson?, ← r.required? "block" BlockId.ofJson?⟩

/-- Writes a record. -/
def Record.toJson (r : Record) : Json :=
  .record [("account_currency", r.holding.toJson), ("value", r.balance.value.toJson),
    ("block", r.balance.block.toJson)]

/-- Reads an entry of a manifest. -/
def Seed.ofJson? (v : Json) : Option Seed := do
  let r ← v.record? ["account_currency", "value"]
  return ⟨← r.required? "account_currency" Holding.ofJson?,
    ← r.required? "value" Decimal.ofJson?⟩

namespace Ledger

/-- Reads a ledger; of several entries for the same thing the last one stays. -/
def ofJson? (v : Json) : Option Ledger := do
  let r ← v.record? ["blocks", "balances", "counters"]
  let blocks ← r.required? "blocks" (Json.toList? BlockId.ofJson?)
  let records ← r.required? "balances" (Json.toList? Record.ofJson?)
  let counters ← r.required? "counters" (Json.toMembers? Count.ofJson?)
  return {
    blocks := Table.ofList (blocks.map fun b => (b.index, b.hash))
    balances := Table.ofList (records.map fun r => (r.holding, r.balance))
    counters := Table.ofList counters }

/-- Writes a ledger. -/
def toJson (l : Ledger) : Json :=
  .record [
    ("blocks", .list (fun (index, hash) => BlockId.toJson ⟨index, hash⟩) l.blocks.entries),
    ("balances", .list Record.toJson l.records),
    ("counters", .record (l.counters.entries.map fun (name, c) => (name, c.toJson)))]

end Ledger

end BalanceAudit
