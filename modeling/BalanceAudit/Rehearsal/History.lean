import BalanceAudit.Recording

/-!
# Made-up histories

Chains for rehearsing an audit: regular blocks from templates, blocks written
out, operations left out of the reported blocks, and further balances.

- `Template`, `Generator`: an operation that returns every so many blocks.
- `History.recording?`: the recording of a history.
- `Omission`, `Alteration`: operations left out of blocks and balances added.
-/

namespace BalanceAudit

namespace Rehearsal

/-- An operation that occurs in every block whose index leaves the remainder
`offset` when divided by `every`. -/
structure Template where
  holding : Holding
  value : Decimal
  every : Int := 1
  offset : Int := 0
  deriving Inhabited

/-- Blocks that follow from templates. -/
structure Generator where
  first : Int := 0
  last : Int
  templates : List Template
  deriving Inhabited

/-- The operations of one block that match all given properties. -/
structure Omission where
  index : Int
  address : Option String := none
  operation : Option Nat := none
  deriving Inhabited

/-- What happened on a made-up chain: the blocks of a generator and then
others. -/
structure History where
  network : Network
  generator : Option Generator := none
  blocks : List Block := []
  deriving Inhabited

/-- How a recording differs from what happened. -/
structure Alteration where
  omissions : List Omission := []
  /-- Balances reported besides. -/
  extra : List Snapshot := []
  deriving Inhabited

namespace Generator

/-- The operations of the block at `index`, numbered by their templates. -/
def operations (g : Generator) (index : Int) : List Operation :=
  (g.templates.zipIdx.filter fun (t, _) => index % t.every = t.offset).map fun (t, n) =>
    ⟨n, t.holding.account, t.value, t.holding.currency⟩

/-- The identifier of the block at `index`. -/
def id (index : Int) : BlockId := ⟨index, s!"h{index}"⟩

/-- The block at `index`; the first one is its own parent. -/
def block (g : Generator) (index : Int) : Block :=
  ⟨id index, id (max (index - 1) g.first), [⟨s!"tx{index}", g.operations index⟩]⟩

/-- All blocks. -/
def blocks (g : Generator) : List Block :=
  (List.range (g.last - g.first + 1).toNat).map fun n : Nat => g.block (g.first + n)

end Generator

namespace Omission

/-- Whether an operation is left out. -/
def chooses (o : Omission) (op : Operation) : Bool :=
  o.address.all (· = op.account.address) && o.operation.all (· = op.index)

/-- Leaves the operations out, and notes how many they were. -/
def apply (o : Omission) : List Nat × Recording → List Nat × Recording
  | (removed, r) =>
    let (n, r) := r.leaveOut o.index o.chooses
    (removed ++ [n], r)

end Omission

/-- The recording of a history; none if a sum leaves the limits of decimals. -/
def History.recording? (h : History) : Option Recording :=
  Recording.ofHistory? h.network (h.generator.elim [] Generator.blocks ++ h.blocks)

/-- An altered recording, and how many operations each omission removed. -/
def Alteration.apply (a : Alteration) (r : Recording) : List Nat × Recording :=
  let (removed, r) := a.omissions.foldl (fun acc o => o.apply acc) ([], r)
  (removed, { r with balances := r.balances ++ a.extra })

end Rehearsal

end BalanceAudit
