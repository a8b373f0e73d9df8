import BalanceAudit.Session

/-!
# Recording results

Every check ends in one of four results. Each is counted; a failure is told as
well, and it is kept and ends the run if the settings say so.

- `Auditor.succeeded`, `Auditor.exempted`, `Auditor.skipped`: the results that
  let a run go on.
- `Auditor.failed`: a computed balance that differs from the live one.
-/

namespace BalanceAudit

namespace Recorder

/-- Keeps a failure unless there is one of its kind. -/
def keep (r : Recorder) (f : Failure) : Recorder :=
  match f.kind with
  | .active => { r with active := r.active <|> some f }
  | .inactive => { r with inactive := r.inactive <|> some f }

/-- The failure of a kind. -/
def failure? (r : Recorder) : Kind → Option Failure
  | .active => r.active
  | .inactive => r.inactive

end Recorder

/-- The counter of successful checks of a kind. -/
def Kind.counter : Kind → Counter
  | .active => .activeReconciliations
  | .inactive => .inactiveReconciliations

namespace Auditor

variable {σ : Type}

/-- The balances matched. -/
def succeeded (a : Auditor σ) (kind : Kind) (h : Holding) (block : BlockId) (value : Decimal) :
    Step (Session σ) ReconcileError Unit := do
  Step.tell (a.settings.log.reconciled kind h block.index value)
  Step.count .store kind.counter

/-- The holding is never compared. -/
def exempted : Step (Session σ) ReconcileError Unit :=
  Step.count .store .exemptReconciliations

/-- There was no comparable live balance. -/
def skipped : Step (Session σ) ReconcileError Unit :=
  Step.count .store .skippedReconciliations

/-- The balances differ. -/
def failed (a : Auditor σ) (f : Failure) : Step (Session σ) ReconcileError Unit := do
  Step.count .store .failedReconciliations
  Step.tell [.mismatch f a.settings.halt]
  if a.settings.halt then
    modify fun s => { s with recorder := s.recorder.keep f }
    Step.fail (.mismatch f)

end Auditor

end BalanceAudit
