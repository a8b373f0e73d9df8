import BalanceAudit.Check

/-!
# Sweeps and waiting

While a run waits for the chain, sweeping workers come by every now and then
and check the holdings that are due.

- `Auditor.sweep`: one worker, until nothing is due.
- `Auditor.sweepRound`: every worker that is asleep, in turn.
- `Auditor.startReconciler`: tracks what is known and makes the first round.
- `Auditor.pause`: lets time pass; when the operator's patience ends, the run is
  given up.
-/

namespace BalanceAudit

variable {σ ε : Type}

namespace Auditor

/-- Claims the due holding that waited longest; none without a head. -/
def claim (a : Auditor σ) : Step (Session σ) ReconcileError (Option (Holding × Int)) := do
  match (← Step.read .store).head? with
  | none => return none
  | some head =>
    let s ← get
    let claimed := s.tracker.claim? head.index a.settings.inactiveFrequency
    match ← Step.within .distance claimed with
    | none => return none
    | some (h, tracker) =>
      set { s with tracker }
      return some (h, head.index)

/-- Checks due holdings until none is left or the run is canceled. -/
def sweep (a : Auditor σ) : (fuel : Nat) → Step (Session σ) ReconcileError Unit
  | 0 => pure ()
  | fuel + 1 => do
    if (← get).world.isCanceled then return
    match ← a.claim with
    | none => return
    | some (h, head) =>
      a.checkInactive h head
      a.sweep fuel

/-- One worker; at a fixed head every holding is due at most once. -/
def sweepDue (a : Auditor σ) : Step (Session σ) ReconcileError Unit := do
  a.sweep ((← get).tracker.entries.length + 1)

/-- Lets each of `n` workers sweep. One that meets an error, breaks down or asks a silent
node does not go back to sleep. -/
def sweepRound (a : Auditor σ) : (n : Nat) → Sweepers → Step (Session σ) ε Sweepers
  | 0, w => pure w
  | n + 1, w => do
    match ← Step.attempt a.sweepDue with
    | .ok () => a.sweepRound n { w with asleep := w.asleep + 1 }
    | .error (.failed e) => a.sweepRound n { w with failure := w.failure <|> some e }
    | .error (.overflow what) =>
      a.sweepRound n { w with failure := w.failure <|> some (broken what) }
    | .error .idle => a.sweepRound n w

/-- How long workers sleep, at least a millisecond. -/
def sleepMs (a : Auditor σ) : Nat := max a.settings.inactiveSleepMs 1

/-- Wakes the workers that are asleep and notes when they wake again. -/
def wake (a : Auditor σ) : Step (Session σ) ε Unit := do
  let s ← get
  let w ← a.sweepRound s.sweepers.asleep { s.sweepers with asleep := 0 }
  modify fun s => { s with
    sweepers := { w with wakeMs := s.world.clock.nowMs + a.sleepMs } }

/-- Tracks the stored and the interesting holdings. -/
def trackKnown (a : Auditor σ) : Step (Session σ) ReconcileError Unit := do
  let known := (← Step.read .store).holdings
  Step.onTracker (·.track (known ++ a.settings.interesting))

/-- Tracks what is known and lets the workers sweep for the first time. -/
def startReconciler (a : Auditor σ) : Step (Session σ) ReconcileError Unit := do
  a.trackKnown
  modify fun s => { s with sweepers := { asleep := a.settings.inactive } }
  a.wake

/-- Starts the reconciler, again after every error, at most `n` times. The
errors, in their order. -/
def sweepErrors (a : Auditor σ) : (n : Nat) → Step (Session σ) ε (List ReconcileError)
  | 0 => return []
  | n + 1 => do
    match ← Step.attempt a.startReconciler with
    | .error (.failed e) => return e :: (← a.sweepErrors n)
    | .error .idle => Step.idle
    | .error (.overflow what) => throw (.overflow what)
    | .ok () =>
      match (← get).sweepers.failure with
      | some e => return e :: (← a.sweepErrors n)
      | none => return []

end Auditor

/-! ## Waiting -/

/-- Whether a run has to end: it was canceled, or a sweep met an error. -/
def Session.isOver (s : Session σ) : Bool :=
  s.world.isCanceled || s.sweepers.failure.isSome

namespace Auditor

/-- Time passes until `targetMs`, with the sweeps that fall into it. An error in
a sweep stops the wait. -/
def waitUntil (a : Auditor σ) (targetMs : Nat) : (fuel : Nat) → Step (Session σ) ε Unit
  | 0 => pure ()
  | fuel + 1 => do
    let s ← get
    let now := s.world.clock.nowMs
    if s.sweepers.failure.isSome then pure ()
    -- All workers that sleep wake together.
    else if s.sweepers.asleep ≠ 0 ∧ s.sweepers.wakeMs ≤ targetMs then
      Step.onWorld (·.elapse (s.sweepers.wakeMs - now))
      a.wake
      a.waitUntil targetMs fuel
    else Step.onWorld (·.elapse (targetMs - now))

/-- Time passes. Workers sleep a millisecond at least, which bounds their
rounds. -/
def wait (a : Auditor σ) (ms : Nat) : Step (Session σ) ε Unit := do
  a.waitUntil ((← get).world.clock.nowMs + ms) (ms + 2)

/-- Waits until the run is over, at the latest when the operator gives up. -/
def awaitEnd (a : Auditor σ) : Step (Session σ) ε Unit := do
  let s ← get
  if s.isOver then pure ()
  else
    a.wait s.world.clock.patienceMs
    if (← get).sweepers.failure.isNone then
      Step.onWorld fun w => w.obey w.surrender

/-- Lets a run go on unless it is over. -/
def proceed : Step (Session σ) ε Unit := do
  if (← get).isOver then Step.idle

/-- Waits for a while, a millisecond at least. A wait that outlasts the patience
of the operator ends the run. -/
def pause (a : Auditor σ) (ms : Nat) : Step (Session σ) ε Unit := do
  if (← get).world.clock.patienceMs ≤ max ms 1 then
    a.awaitEnd
    Step.idle
  else
    a.wait (max ms 1)
    proceed

end Auditor

end BalanceAudit
