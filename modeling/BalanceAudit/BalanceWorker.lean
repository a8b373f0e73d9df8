import BalanceAudit.Sync

/-!
# Computing balances

The worker that turns the operations of a block into changed balances.

- `Auditor.openingBalance`: what a holding had before the first block that
  names it.
- `Auditor.stageBalances`: the changes of a block.
- `Auditor.balanceWorker`: stages them and hands the committed ones on.
-/

namespace BalanceAudit

/-- Is told of the changes of every committed block. -/
abbrev Observer (σ : Type) := Block → List Change → Step (Session σ) ReconcileError Unit

namespace Auditor

variable {σ : Type}

/-- What a holding had before `b`: nothing before genesis, or if the node knows
no past balances. -/
def openingBalance (a : Auditor σ) (b : Block) (h : Holding) :
    Step (Session σ) WorkerError Decimal := do
  if b.isGenesis ∨ ¬a.settings.lookup then return .zero
  let reply ← Step.ask (a.node.balance h (some b.parent))
  let (_, value) ← Step.ofExcept .fetch reply
  return value

/-- The change that a net change makes of a stored or an opening balance. -/
def stageChange (a : Auditor σ) (b : Block) (delta : Holding × Decimal) :
    Step (Session σ) WorkerError Change := do
  let known := (← Step.read .store).record? delta.1
  let previous ← match known with
    | some r => pure r.balance.value
    | none => a.openingBalance b delta.1
  let value ← Step.within .sum (previous.add? delta.2)
  return ⟨delta.1, b.id, delta.2, value, known.isNone⟩

/-- Stages the changes of a block, and counts the holdings that are new. -/
def stageBalances (a : Auditor σ) (b : Block) (batch : Batch) :
    Step (Session σ) WorkerError Batch := do
  let deltas ← Step.within .sum b.deltas?
  let changes ← deltas.mapM (a.stageChange b)
  let batch := { batch with changes := batch.changes ++ changes }
  match changes.countP (·.isNew) with
  | 0 => return batch
  | added => return batch.count .seenAccounts (.ofNat added)

/-- Whether a change is handed on. -/
def isObserved (a : Auditor σ) (c : Change) : Bool := a.settings.restrictTo.all (· = c.holding)

/-- What an observer makes of the changes of a block, if there is one. -/
def observed (a : Auditor σ) (observer : Option (Observer σ)) (b : Block) (cs : List Change) :
    Step (Session σ) ReconcileError Unit :=
  match observer with
  | some observe => observe b (cs.filter a.isObserved)
  | none => pure ()

/-- Hands the changes of a committed block on. -/
def observeBalances (a : Auditor σ) (observer : Option (Observer σ)) (b : Block) (batch : Batch) :
    Step (Session σ) WorkerError Unit := do
  Step.tell (a.settings.log.changes batch.changes)
  Step.mapError .reconcile (a.observed observer b batch.changes)

/-- The worker that computes balances. -/
def balanceWorker (a : Auditor σ) (observer : Option (Observer σ)) : Worker σ where
  stage := a.stageBalances
  committed := a.observeBalances observer

end Auditor

end BalanceAudit
