import BalanceAudit.Sweep

/-!
# Following the chain

Blocks are applied one after the other. Workers stage what a block changes into
one batch, the batch is committed as a whole, and then the workers are told.

- `Worker`: stages a block and is told when it was committed.
- `Auditor.fetchBlock`: a block of the chain, waiting while it is missing and
  repeating calls that fail for a while.
- `Auditor.applyBlock`: fetches, stages, commits and tells.
- `Auditor.sync`: the blocks of a range, or of the chain as it grows.
-/

namespace BalanceAudit

/-- Takes part in applying blocks. -/
structure Worker (σ : Type) where
  /-- Adds what the block changes to its batch. -/
  stage : Block → Batch → Step (Session σ) WorkerError Batch
  /-- Is told that the batch of a block was committed. -/
  committed : Block → Batch → Step (Session σ) WorkerError Unit

/-- The batch of a block before any worker staged something. -/
def Batch.ofBlock (b : Block) : Batch :=
  { block := b.id
    counts := [(Counter.blocks.name, 1),
      (Counter.transactions.name, .ofNat b.transactions.length),
      (Counter.operations.name, .ofNat b.operationCount)] }

namespace Auditor

variable {σ : Type}

/-- Fetches a block. A missing block is waited for; a transient error is
retried, with growing pauses, as often as the settings allow. -/
def fetchFrom (a : Auditor σ) (index : Int) :
    (fuel attempts : Nat) → Step (Session σ) SyncError Block
  | 0, _ => Step.idle
  | fuel + 1, attempts => do
    -- Cancellation wins over a block that could be fetched.
    proceed
    match ← Step.ask (a.node.block index) with
    | .ok (some b) => return b
    | .ok none =>
      a.pause a.settings.tipPollMs
      a.fetchFrom index fuel attempts
    | .error (.transient reason) =>
      if attempts < a.settings.maxFetchRetries then
        a.pause (a.settings.retryBackoffMs * (attempts + 1))
        a.fetchFrom index fuel (attempts + 1)
      else Step.fail (.fetch index (.transient reason))
    | .error cause => Step.fail (.fetch index cause)

/-- Fetches a block; every further call takes some of the operator's patience. -/
def fetchBlock (a : Auditor σ) (index : Int) : Step (Session σ) SyncError Block := do
  a.fetchFrom index ((← get).world.clock.patienceMs + 1) 0

/-- Fetches a block and applies it as a whole. -/
def applyBlock (a : Auditor σ) (workers : List (Worker σ)) (index : Int) :
    Step (Session σ) SyncError Unit := do
  let b ← a.fetchBlock index
  let batch ← Step.mapError (.worker b.id) <|
    workers.foldlM (fun batch w => w.stage b batch) (Batch.ofBlock b)
  Step.commit .store batch
  Step.tell (a.settings.log.block b)
  Step.mapError (.worker b.id) <| workers.forM fun w => w.committed b batch

/-- A run that is idle at block `next` ends when it is canceled. -/
def canceledBefore (a : Auditor σ) (next : Int) : Step (Session σ) SyncError Unit := do
  a.awaitEnd
  if (← get).world.isCanceled then Step.fail (.canceled next)
  else Step.idle

/-- Applies the blocks from `next` on. -/
def syncFrom (a : Auditor σ) (workers : List (Worker σ)) (last : Option Int) :
    (fuel : Nat) → (next : Int) → Step (Session σ) SyncError Unit
  | 0, _ => Step.idle
  | fuel + 1, next => do
    if last.any (· < next) then
      modify fun s => { s with
        world.cancellation := s.world.cancellation.cancel s.shutdown }
    else
      match ← Step.attempt (a.applyBlock workers next) with
      | .ok () => a.syncFrom workers last fuel (← Step.within .next (Index.next? next))
      | .error .idle => a.canceledBefore next
      | .error stop => throw stop

/-- Applies the blocks from `first` to `last`, or as the chain grows, and then
cancels the shutdown token. A run that is canceled before that fails, and one that has
applied the block of the greatest index overflows. There are no more blocks than
indices. -/
def sync (a : Auditor σ) (workers : List (Worker σ)) (first : Int) (last : Option Int) :
    Step (Session σ) SyncError Unit :=
  a.syncFrom workers last (Index.count + 1) first

end Auditor

end BalanceAudit
