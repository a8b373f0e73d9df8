import BalanceAudit.Pipeline
import BalanceAudit.Scratch

/-!
# Searching for a faulty block

A failed sweep tells which holding drifted and a head at which that showed. The
search replays windows of history before that head, the latest first, checking
only that holding, until a failed check names the block or genesis is reached.

- `Search`: the world and the scratch stores.
- `Auditor.searchWindow`: replays one window on a store of its own, which is
  released before the search goes on.
- `Auditor.searchFrom`, `Auditor.findMissing`: the search.
-/

namespace BalanceAudit

/-- What a search works on. -/
structure Search (σ : Type) where
  world : World σ
  scratch : Scratch := {}

namespace Search

variable {σ : Type}

/-- An aborted search goes no further. -/
def goOn : Step (Search σ) LocalizeError Unit := do
  if (← get).world.cancellation.aborted then Step.fail .halted

/-- Takes a fresh scratch store. -/
def provision : Step (Search σ) LocalizeError Nat := do
  let s ← get
  let (r, scratch) := s.scratch.provision
  set { s with scratch }
  Step.ofExcept .store r

/-- Closes a scratch store and releases it. -/
def release (slot : Nat) : Step (Search σ) LocalizeError Unit := do
  let s ← get
  match s.scratch.close? slot with
  | some (r, scratch) =>
    set { s with scratch }
    Step.ofExcept .store r
  | none => pure ()

/-- Changes the world of a search. -/
def onWorld (f : World σ → World σ) : Step (Search σ) LocalizeError Unit :=
  modify fun s => { s with world := f s.world }

/-- Runs a session on a scratch store: its outcome and the failures it kept. -/
def runSession {ε α : Type} (slot : Nat) (x : Step (Session σ) ε α) :
    Step (Search σ) LocalizeError (Except (Stop ε) α × Recorder) := do
  let s ← get
  let (r, t) := x.eval { world := s.world, store := (s.scratch.store? slot).getD .scratch }
  set { s with world := t.world, scratch := s.scratch.setStore slot t.store }
  return (r, t.recorder)

end Search

namespace Auditor

variable {σ : Type}

/-- Replays a window. The block at fault, or none if the window is clean; a
window that fails without naming a block ends the search. -/
def searchWindow (a : Auditor σ) (w : SearchWindow) :
    Step (Search σ) LocalizeError (Option BlockId) := do
  Search.goOn
  Search.onWorld World.enter
  let slot ← Search.provision
  Search.onWorld (·.tell [.searching w])
  let (result, recorder) ← Search.runSession slot (a.runPipeline w.first (some w.last))
  Search.release slot
  -- An abort during the replay outweighs what the replay found, but for an overflow.
  match result with
  | .error (.overflow what) => throw (.overflow what)
  | .error .idle =>
    Search.goOn
    Step.idle
  | .ok () =>
    Search.goOn
    return none
  | .error (.failed cause) =>
    Search.goOn
    match recorder.activeBlock? with
    | some b => return some b
    | none => Step.fail (.notFound w cause)

/-- Replays a window and those before it. -/
def searchFrom (a : Auditor σ) (step genesis : Int) :
    (fuel : Nat) → SearchWindow → Step (Search σ) LocalizeError BlockId
  | 0, w => Step.fail (.exhausted w)
  | fuel + 1, w => do
    match ← a.searchWindow w with
    | some b => return b
    | none =>
      match w.preceding? step genesis with
      | some earlier => a.searchFrom step genesis fuel earlier
      | none => Step.fail (.exhausted w)

/-- Finds the block whose operations do not explain the balance of `h` that was
seen at `observed`. Every window ends before the one searched before it, so
there are no more of them than blocks. -/
def findMissing (a : Auditor σ) (h : Holding) (observed step genesis : Int) :
    Step (Search σ) LocalizeError BlockId := do
  let w ← Step.ofExcept .window (SearchWindow.initial observed step genesis)
  let strict : Auditor σ := { a with settings := a.settings.strict h }
  strict.searchFrom step genesis ((observed - genesis).toNat + 1) w

end Auditor

end BalanceAudit
