import BalanceAudit.Count
import BalanceAudit.Error
import BalanceAudit.Verdict

/-!
# How an audit ended

- `Ending`: what is known once a run has stopped.
- `Ending.conclusion`: the verdict that follows, or the search to be made. An
  abort comes before everything else.
-/

namespace BalanceAudit

/-- What is known once a run has stopped. -/
structure Ending where
  aborted : Bool
  /-- The error that ended the run. -/
  error : Option PipelineError
  /-- Successful checks of both kinds, if they could be read. -/
  reconciliations : Option Count
  /-- The failed sweep that ended the run. -/
  inactiveFailure : Option Failure
  /-- Whether the node is asked for balances at past blocks. -/
  lookup : Bool
  deriving DecidableEq

/-- What to do about an ending. -/
inductive Conclusion where
  | verdict (v : Verdict)
  /-- Search for the block that broke a holding, at or before a block. -/
  | localize (holding : Holding) (observed : BlockId)
  deriving DecidableEq

namespace Ending

/-- The conclusion of an ending without abort and error. -/
def success (e : Ending) : Verdict :=
  match e.reconciliations with
  | some n => if n.value = 0 then .passedUnchecked else .passed
  | none => .passed

/-- What follows from an ending. -/
def conclusion (e : Ending) : Conclusion :=
  if e.aborted then .verdict .halted
  else
    match e.error with
    | none => .verdict e.success
    | some error =>
      match e.inactiveFailure with
      | none => .verdict (.failed error.message)
      | some f =>
        if e.lookup then .localize f.holding f.block
        else .verdict (.undiagnosed f.message)

end Ending

end BalanceAudit
