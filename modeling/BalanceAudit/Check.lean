import BalanceAudit.Recorder

/-!
# Checks

A check compares a computed balance with the one the node reports. Active checks
follow a block that changed balances; sweeps come by when a holding is due.

- `Auditor.liveBalance`: the node's balance at a block, if it can be compared.
- `Auditor.checkActive`, `Auditor.checkInactive`: one check of either kind.
- `Auditor.checkChanges`: the active checks of one block, as many at once as the
  settings allow. Checks that are waiting to start when an error is seen are
  dropped.
-/

namespace BalanceAudit

namespace Auditor

variable {σ : Type}

/-- The node's balance of a holding at `block`; none, after reporting a skip, if
the node answers for another block. -/
def liveBalance (a : Auditor σ) (h : Holding) (block : BlockId) :
    Step (Session σ) ReconcileError (Option Decimal) := do
  let reply ← Step.ask (a.node.balance h (if a.settings.lookup then some block else none))
  let (at_, live) ← Step.ofExcept .fetch reply
  if at_ = block then return some live
  skipped
  return none

/-- Notes the outcome of a check and reports it. -/
def conclude (a : Auditor σ) (kind : Kind) (h : Holding) (block : BlockId)
    (computed live : Decimal) : Step (Session σ) ReconcileError Unit := do
  if computed.Same live then
    Step.onTracker (·.finish h block.index .inSync)
    a.succeeded kind h block live
  else
    Step.onTracker (·.finish h block.index .failed)
    a.failed ⟨kind, h, block, computed, live⟩

/-- Checks a holding at the block that changed it. -/
def checkActive (a : Auditor σ) (c : Change) : Step (Session σ) ReconcileError Unit := do
  if a.settings.isExempt c.holding then exempted
  else
    match ← a.liveBalance c.holding c.block with
    | some live => a.conclude .active c.holding c.block c.value live
    | none => pure ()

/-- Checks a holding that a sweep claimed when the head had index `claimedAt`.
A holding without a computed balance has nothing to compare with yet. -/
def checkInactive (a : Auditor σ) (h : Holding) (claimedAt : Int) :
    Step (Session σ) ReconcileError Unit := do
  if a.settings.isExempt h then
    Step.onTracker (·.finish h claimedAt .inSync)
    exempted
  else
    match (← Step.read .store).snapshot? h with
    | none => Step.onTracker (·.finish h claimedAt .pending)
    | some (r, head) =>
      match ← a.liveBalance h head with
      | none => Step.onTracker (·.finish h head.index .inSync)
      | some live => a.conclude .inactive h head r.balance.value live

/-! ## The checks of a block -/

/-- What the checks of a block have come to. -/
structure Tally where
  /-- The first error. -/
  error : Option ReconcileError := none
  /-- Checks for which the node never answers. -/
  stuck : Nat := 0

/-- The error of a check or a sweep that broke down. Its text is the one that tells which
task that was, but for the number of the task. -/
def broken (what : Overflow) : ReconcileError :=
  .task ("task panicked with message \"" ++ what.message ++ "\"")

/-- Runs the checks that have started. -/
def runChecks (a : Auditor σ) : List Change → Tally → Step (Session σ) ReconcileError Tally
  | [], t => pure t
  | c :: rest, t => do
    match ← Step.attempt (a.checkActive c) with
    | .ok () => a.runChecks rest t
    | .error (.failed e) => a.runChecks rest { t with error := t.error <|> some e }
    | .error .idle => a.runChecks rest { t with stuck := t.stuck + 1 }
    | .error (.overflow what) => a.runChecks rest { t with error := t.error <|> some (broken what) }

/-- The most active checks at once. -/
def permits (a : Auditor σ) : Nat := max a.settings.active 1

/-- Starts the checks of a list, of which `free` fit beside the ones in `queue`;
when no more fit, those run first. -/
def startChecks (a : Auditor σ) : List Change → (queue : List Change) → (free : Nat) → Tally →
    Step (Session σ) ReconcileError (List Change × Tally)
  | [], queue, _, t => pure (queue, t)
  | c :: rest, queue, free + 1, t => a.startChecks rest (queue ++ [c]) free t
  | c :: rest, queue, 0, t => do
    let t ← a.runChecks queue t
    match a.permits - t.stuck with
    | 0 => Step.idle
    | free + 1 => a.startChecks rest [c] free t

/-- Fails with the first error of a tally. -/
def settle (t : Tally) : Step (Session σ) ReconcileError Unit :=
  match t.error with
  | some e => Step.fail e
  | none => pure ()

/-- Checks every change of a block. -/
def checkAll (a : Auditor σ) (cs : List Change) : Step (Session σ) ReconcileError Unit := do
  let (queue, t) ← a.startChecks cs [] a.permits {}
  settle t
  let t ← a.runChecks queue t
  settle t
  if t.stuck ≠ 0 then Step.idle

/-- Tracks the holdings that a block changed and checks their balances. -/
def checkChanges (a : Auditor σ) (cs : List Change) : Step (Session σ) ReconcileError Unit := do
  Step.onTracker (·.track (cs.map (·.holding)))
  if a.settings.active = 0 ∨ cs = [] then pure ()
  else a.checkAll cs

end Auditor

end BalanceAudit
