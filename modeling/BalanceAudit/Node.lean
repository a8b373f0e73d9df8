import BalanceAudit.Error
import BalanceAudit.Network

/-!
# Nodes

The node whose balances are audited. A call may fail, never answer, and be the
moment at which the operator intervenes.

- `Signal`: what an operator asks for.
- `Answer`: the signal that fell into a call, and the reply.
- `Node`: the three calls, on the node's own state.
- `Node.traced`: a node that notes the indices of the blocks it was asked for.
-/

namespace BalanceAudit

/-- Identity and limits of the network behind a node. -/
structure NetworkStatus where
  network : Network
  genesis : BlockId
  tip : BlockId
  deriving DecidableEq, Inhabited

/-- What an operator asks for. -/
inductive Signal where
  /-- Stop everything. -/
  | abort
  /-- Stop this run. -/
  | cancel
  deriving DecidableEq, Inhabited

/-- What came of a call. -/
structure Answer (α : Type) where
  /-- What the operator asked for during the call. -/
  signal : Option Signal := none
  /-- The reply; none if the node never answers. -/
  reply : Option (Except FetchError α)

/-- A node with a state of its own. -/
structure Node (σ : Type) where
  status : σ → Answer NetworkStatus × σ
  /-- The block at an index, none if it is not available yet. -/
  block : Int → σ → Answer (Option Block) × σ
  /-- The balance at a block, or at the tip, and the block it belongs to. -/
  balance : Holding → Option BlockId → σ → Answer (BlockId × Decimal) × σ

namespace Answer

/-- The answer of a node that replies. -/
def replied {α : Type} (reply : Except FetchError α) : Answer α := ⟨none, some reply⟩

/-- The answer of a node that never replies. -/
def silent {α : Type} : Answer α := ⟨none, none⟩

end Answer

/-- A node that never answers. -/
def Node.silent : Node Unit where
  status := fun s => (.silent, s)
  block := fun _ s => (.silent, s)
  balance := fun _ _ s => (.silent, s)

/-! ## Traces -/

/-- The runs of consecutive indices asked for. -/
structure Trace where
  /-- First and last index of each run, the latest run first. -/
  runs : List (Int × Int) := []
  /-- The index whose block was found missing by the latest call. -/
  missing : Option Int := none
  deriving DecidableEq, Inhabited

namespace Trace

/-- Notes a call; asking again for a block found missing is not noted. -/
def note (t : Trace) (index : Int) : Trace :=
  if t.missing = some index then t
  else
    match t.runs with
    | (first, last) :: rest =>
      if index = last + 1 then { t with runs := (first, index) :: rest }
      else { t with runs := (index, index) :: t.runs }
    | [] => { t with runs := [(index, index)] }

/-- Notes whether the block was missing. -/
def answered (t : Trace) (index : Int) (a : Answer (Option Block)) : Trace :=
  { t with
    missing :=
      match a.reply with
      | some (.ok none) => some index
      | _ => none }

end Trace

/-- The node together with a trace of the blocks asked for. -/
def Node.traced {σ : Type} (n : Node σ) : Node (σ × Trace) where
  status := fun (s, t) =>
    let (a, s) := n.status s
    (a, s, t)
  block := fun index (s, t) =>
    let (a, s) := n.block index s
    (a, s, (t.note index).answered index a)
  balance := fun h at? (s, t) =>
    let (a, s) := n.balance h at? s
    (a, s, t)

end BalanceAudit
