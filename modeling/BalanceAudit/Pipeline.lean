import BalanceAudit.BalanceWorker

/-!
# Pipelines

A pipeline follows the chain and checks balances at the same time, over one
store and under one token. The first error of either side ends both.

- `Auditor.observer`: the checks of what a block changes; `Auditor.workers`: the balance
  worker, which hands its changes to them.
- `Auditor.runPipeline`: one run; its token is canceled whatever happens.

The sweeping workers of a run are tasks of their own, that could come by at any time. Here
they do at the start of a run, and whenever it waits. An observer can be given in place of
`Auditor.observer` that lets them come by behind blocks as well.
-/

namespace BalanceAudit

namespace Auditor

variable {σ : Type}

/-- Checks what a block changes, if checks are enabled. -/
def observer (a : Auditor σ) : Option (Observer σ) :=
  if a.settings.enabled then some fun _ cs => a.checkChanges cs else none

/-- The observer of a pipeline checks the changes if checks are enabled. -/
theorem observed_observer (a : Auditor σ) (b : Block) (cs : List Change) :
    a.observed a.observer b cs =
      if a.settings.enabled then a.checkChanges (cs.filter a.isObserved) else pure () := by
  unfold observed observer
  by_cases enabled : a.settings.enabled = true
  · rw [if_pos enabled, if_pos enabled]
  · rw [if_neg enabled, if_neg enabled]

/-- The workers of a pipeline. -/
abbrev workers (a : Auditor σ) : List (Worker σ) := [a.balanceWorker a.observer]

/-- Reports the error that ended a sweep. -/
def sweepFailure : Step (Session σ) PipelineError Unit := do
  match (← get).sweepers.failure with
  | some e => Step.fail (.reconcile e)
  | none => pure ()

/-- Follows the chain; a step that is idle because a sweep met an error reports
that error. -/
def follow (a : Auditor σ) (first : Int) (last : Option Int)
    (observer : Option (Observer σ) := a.observer) : Step (Session σ) PipelineError Unit := do
  match ← Step.attempt (Step.mapError .sync (a.sync [a.balanceWorker observer] first last)) with
  | .error .idle =>
    sweepFailure
    Step.idle
  | .error stop => throw stop
  | .ok () => pure ()

/-- Runs both sides: an empty range and a canceled run end before any sweep. -/
def runBoth (a : Auditor σ) (first : Int) (last : Option Int)
    (observer : Option (Observer σ) := a.observer) : Step (Session σ) PipelineError Unit := do
  if last.any (· < first) then
    a.follow first last observer
    if a.settings.enabled then Step.mapError .reconcile a.trackKnown
  else if (← get).world.isCanceled then Step.fail (.sync (.canceled first))
  else
    if a.settings.enabled then
      Step.mapError .reconcile a.startReconciler
      sweepFailure
    a.follow first last observer

/-- Follows the chain from `first` to `last` and checks balances, until the range
is done, either side fails or the run is canceled. Sweeps have one fixed schedule, unless
another observer adds to it: they come at the start and at pauses. -/
def runPipeline (a : Auditor σ) (first : Int) (last : Option Int)
    (observer : Option (Observer σ) := a.observer) : Step (Session σ) PipelineError Unit := do
  let result ← Step.attempt (a.runBoth first last observer)
  Step.onWorld (·.cancel)
  match result with
  | .ok () => pure ()
  | .error stop => throw stop

end Auditor

end BalanceAudit
