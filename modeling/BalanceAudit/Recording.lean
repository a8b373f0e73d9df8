import BalanceAudit.Node
import BalanceAudit.Table

/-!
# Recorded chains

A recording holds the blocks that a node reports and the balances it reports.
When the blocks lack an operation the balances keep its effect, which is what an
audit looks for.

- `Recording`: the blocks and, sparsely, the balances.
- `Recording.ofHistory?`: the recording whose balances follow every operation.
- `Recording.leaveOut`: takes operations out of a reported block only.
- `Recording.chain`: the recording as it is asked; `Chain.node`: the node that
  answers from it.
-/

namespace BalanceAudit

/-- The balance that a node reports from a block on. -/
structure Snapshot where
  holding : Holding
  index : Int
  value : Decimal
  deriving DecidableEq, Inhabited

/-- What a node reports. -/
structure Recording where
  network : Network
  blocks : List Block
  balances : List Snapshot := []
  deriving DecidableEq, Inhabited

/-- A recording by index and holding. -/
structure Chain where
  network : Network
  blocks : Table Int Block
  balances : Table Holding (Table Int Decimal)

/-! ## Reading and writing -/

/-- Reads a balance. -/
def Snapshot.ofJson? (v : Json) : Option Snapshot := do
  let r ← v.record? ["account_currency", "index", "value"]
  return ⟨← r.required? "account_currency" Holding.ofJson?,
    ← r.required? "index" Json.toInt64?, ← r.required? "value" Decimal.ofJson?⟩

/-- Writes a balance. -/
def Snapshot.toJson (s : Snapshot) : Json :=
  .record [("account_currency", s.holding.toJson), ("index", .int s.index),
    ("value", s.value.toJson)]

namespace Recording

/-- Reads a recording. -/
def ofJson? (v : Json) : Option Recording := do
  let r ← v.record? ["network", "blocks", "balances"]
  return ⟨← r.required? "network" Network.ofJson?,
    ← r.required? "blocks" (Json.toList? Block.ofJson?),
    ← r.defaulted? "balances" (Json.toList? Snapshot.ofJson?) []⟩

/-- Writes a recording. -/
def toJson (r : Recording) : Json :=
  .record [("network", r.network.toJson), ("blocks", .list Block.toJson r.blocks),
    ("balances", .list Snapshot.toJson r.balances)]

/-! ## Recording a history -/

/-- The running balances of all holdings and the snapshots so far. -/
structure Running where
  balances : Table Holding Decimal := ∅
  snapshots : List Snapshot := []

/-- Adds one net change of the block at `index`. -/
def Running.add? (r : Running) (index : Int) (delta : Holding × Decimal) : Option Running := do
  let value ← ((r.balances.find? delta.1).getD .zero).add? delta.2
  return ⟨r.balances.insert delta.1 value, ⟨delta.1, index, value⟩ :: r.snapshots⟩

/-- Adds the net changes of a block. -/
def Running.addBlock? (r : Running) (b : Block) : Option Running := do
  (← b.deltas?).foldlM (·.add? b.id.index ·) r

/-- The recording whose balances follow every operation of the blocks; none if
a sum leaves the limits of decimals. -/
def ofHistory? (network : Network) (blocks : List Block) : Option Recording := do
  let r ← blocks.foldlM Running.addBlock? {}
  return ⟨network, blocks, r.snapshots.reverse⟩

/-! ## Leaving operations out -/

/-- A transaction without the chosen operations. -/
def without (chosen : Operation → Bool) (t : Transaction) : Transaction :=
  { t with operations := t.operations.filter (!chosen ·) }

/-- Takes the chosen operations out of the first block with an index, and tells
how many they were. The balances stay. -/
def leaveOutFrom (index : Int) (chosen : Operation → Bool) : List Block → Nat × List Block
  | [] => (0, [])
  | b :: rest =>
    if b.id.index = index then
      (b.operations.countP chosen,
        { b with transactions := b.transactions.map (without chosen) } :: rest)
    else
      let (removed, rest) := leaveOutFrom index chosen rest
      (removed, b :: rest)

/-- Takes the chosen operations out of the reported block at `index`. The choice looks at
the operation alone: one that keeps a state from operation to operation is left out. -/
def leaveOut (r : Recording) (index : Int) (chosen : Operation → Bool) : Nat × Recording :=
  let (removed, blocks) := leaveOutFrom index chosen r.blocks
  (removed, { r with blocks })

/-! ## Answering -/

/-- A balance put into the histories of all holdings. -/
def record (t : Table Holding (Table Int Decimal)) (s : Snapshot) :
    Table Holding (Table Int Decimal) :=
  t.insert s.holding (((t.find? s.holding).getD ∅).insert s.index s.value)

/-- The recording by index and holding; the last entry for the same thing
stays. It has to have blocks. -/
def chain (r : Recording) : Except FetchError Chain :=
  if r.blocks.isEmpty then .error (.recording "chain has no blocks")
  else
    .ok ⟨r.network, Table.ofList (r.blocks.map fun b => (b.id.index, b)),
      r.balances.foldl record ∅⟩

/-- The chain of a file. -/
def load (file : Except FileFault String) : Except FetchError Recording :=
  match file with
  | .error fault => .error (.recording fault.message)
  | .ok text =>
    match Json.parse? text >>= ofJson? with
    | some r => .ok r
    | none => .error (.recording "malformed document")

end Recording

namespace Chain

/-- The first and the last block. -/
def bounds (c : Chain) : Except FetchError (BlockId × BlockId) :=
  match c.blocks.first?, c.blocks.last? with
  | some (_, first), some (_, last) => .ok (first.id, last.id)
  | _, _ => .error (.notFound "chain has no blocks")

/-- Identity and limits of the chain. -/
def status (c : Chain) : Except FetchError NetworkStatus := do
  let (genesis, tip) ← c.bounds
  return ⟨c.network, genesis, tip⟩

/-- The latest balance of a holding at an index, zero before the first one. -/
def balanceAt (c : Chain) (h : Holding) (index : Int) : Decimal :=
  match (c.balances.find? h).bind (·.atMost? index) with
  | some (_, value) => value
  | none => .zero

/-- The balance of a holding at a block of the chain, or at the last one. -/
def balance (c : Chain) (h : Holding) (at? : Option BlockId) :
    Except FetchError (BlockId × Decimal) :=
  match at? with
  | some id =>
    match c.blocks.find? id.index with
    | some b =>
      if b.id = id then .ok (id, c.balanceAt h id.index)
      else .error (.notFound ("block " ++ id.toText))
    | none => .error (.notFound ("block " ++ id.toText))
  | none => do
    let (_, tip) ← c.bounds
    return (tip, c.balanceAt h tip.index)

/-- The node that answers from a chain. -/
def node (c : Chain) : Node Unit where
  status := fun s => (.replied c.status, s)
  block := fun index s => (.replied (.ok (c.blocks.find? index)), s)
  balance := fun h at? s => (.replied (c.balance h at?), s)

end Chain

end BalanceAudit
