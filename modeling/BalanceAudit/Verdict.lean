import BalanceAudit.Block

/-!
# Verdicts

- `Verdict`: how an audit ends, as shown to the user.
- `Verdict.isSuccess`, `Verdict.exitCode`, `Verdict.message`: what follows from
  it.
-/

namespace BalanceAudit

/-- How an audit ends. -/
inductive Verdict where
  | passed
  /-- Passed without a single reconciliation. -/
  | passedUnchecked
  | failed (reason : String)
  /-- Failed, and the faulty block cannot be searched for. -/
  | undiagnosed (reason : String)
  /-- The block whose operations do not explain the balance. -/
  | diagnosed (holding : Holding) (block : BlockId)
  /-- Searched back to genesis without finding a faulty block. -/
  | exhausted (reason : String)
  | halted
  deriving DecidableEq, Inhabited

namespace Verdict

/-- Whether the audit found nothing wrong. -/
def isSuccess : Verdict → Bool
  | passed | passedUnchecked => true
  | _ => false

/-- The status with which a program ends on a verdict. -/
def exitCode (v : Verdict) : Nat := if v.isSuccess then 0 else 1

/-- The text of a verdict. -/
def message : Verdict → String
  | passed => "Check succeeded"
  | passedUnchecked => "Check succeeded, however, no reconciliations were performed!"
  | failed reason => "Check failed: " ++ reason
  | undiagnosed reason =>
    "Check failed: " ++ reason ++ ". Can't find the block missing operations automatically, " ++
      "enable historical balance lookup"
  | diagnosed holding block =>
    "Missing operations for " ++ holding.toText ++ " in block " ++ block.toText
  | exhausted reason => "Could not find block with missing operations: " ++ reason
  | halted => "Check halted"

/-- Reads the reason of an alternative that has one. -/
def reason? (body : Json) : Option String := do
  let r ← body.record? ["reason"]
  r.required? "reason" Json.toText?

/-- Reads a verdict. -/
def ofJson? (v : Json) : Option Verdict := do
  match v.plainVariant? with
  | some "Passed" => some passed
  | some "PassedWithWarning" => some passedUnchecked
  | some "Halted" => some halted
  | _ =>
    let (tag, body) ← v.variant?
    match tag with
    | "Failed" => return failed (← reason? (← body))
    | "DiagnosisUnavailable" => return undiagnosed (← reason? (← body))
    | "LocalizationExhausted" => return exhausted (← reason? (← body))
    | "Diagnosed" =>
      let r ← (← body).record? ["account_currency", "block"]
      return diagnosed (← r.required? "account_currency" Holding.ofJson?)
        (← r.required? "block" BlockId.ofJson?)
    | _ => none

/-- Writes an alternative that has a reason. -/
def withReason (tag reason : String) : Json :=
  .record [(tag, .record [("reason", .text reason)])]

/-- Writes a verdict. -/
def toJson : Verdict → Json
  | passed => .text "Passed"
  | passedUnchecked => .text "PassedWithWarning"
  | failed reason => withReason "Failed" reason
  | undiagnosed reason => withReason "DiagnosisUnavailable" reason
  | diagnosed holding block =>
    .record [("Diagnosed", .record [("account_currency", holding.toJson), ("block", block.toJson)])]
  | exhausted reason => withReason "LocalizationExhausted" reason
  | halted => .text "Halted"

end Verdict

end BalanceAudit
