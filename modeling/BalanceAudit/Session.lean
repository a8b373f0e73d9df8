import BalanceAudit.Cancellation
import BalanceAudit.Event
import BalanceAudit.Node
import BalanceAudit.Step
import BalanceAudit.Store
import BalanceAudit.Tracker

/-!
# Sessions

The state of a run and the steps that change it.

- `World`: what a run shares with others: the node, the tokens, the clock and
  what was told so far.
- `Session`: the world together with the store, the tracked holdings and the
  failures of one run.
- `World.call`: a call of the node, with the operator's signals.
- `Step.ask`, `Step.onStore`, `Step.commit`, `Step.tell`: the steps of which runs are
  made.
-/

namespace BalanceAudit

/-! ## State -/

/-- Time, and how much longer the operator waits. -/
structure Clock where
  nowMs : Nat := 0
  /-- What is left of the time the operator waits before giving up. -/
  patienceMs : Nat := 60000
  deriving DecidableEq, Inhabited

/-- What a run shares with others. -/
structure World (σ : Type) where
  /-- The state of the node. -/
  node : σ
  cancellation : Cancellation := {}
  /-- The token of the run under way. -/
  token : Token := ⟨0, []⟩
  clock : Clock := {}
  /-- What the operator asks for when giving up. -/
  surrender : Signal := .abort
  events : Array Event := #[]

/-- The failures that ended a run, the first of each kind. -/
structure Recorder where
  active : Option Failure := none
  inactive : Option Failure := none
  deriving DecidableEq, Inhabited

/-- The workers that sweep over the tracked holdings. -/
structure Sweepers where
  /-- How many are asleep. -/
  asleep : Nat := 0
  /-- When they wake. -/
  wakeMs : Nat := 0
  /-- The error that ended a sweep. -/
  failure : Option ReconcileError := none
  deriving DecidableEq, Inhabited

/-- The state of one run. -/
structure Session (σ : Type) where
  world : World σ
  store : Store
  tracker : Tracker := ∅
  recorder : Recorder := {}
  sweepers : Sweepers := {}
  /-- The token canceled when the requested range is done. -/
  shutdown : Token := world.token

namespace World

variable {σ : Type}

/-- Whether the run under way was canceled. -/
def isCanceled (w : World σ) : Bool := w.cancellation.isCanceled w.token

/-- Cancels the run under way. -/
def cancel (w : World σ) : World σ := { w with cancellation := w.cancellation.cancel w.token }

/-- Does what the operator asks for. -/
def obey (w : World σ) : Signal → World σ
  | .abort => { w with cancellation := w.cancellation.abort }
  | .cancel => w.cancel

/-- Tells something. -/
def tell (w : World σ) (es : List Event) : World σ := { w with events := w.events ++ es }

/-- Calls the node; a signal that falls into the call is obeyed. -/
def call {α : Type} (w : World σ) (f : σ → Answer α × σ) : Option (Except FetchError α) × World σ :=
  let (a, node) := f w.node
  let w := { w with node }
  (a.reply, match a.signal with
    | some s => w.obey s
    | none => w)

/-- Starts a run with a token that an abort reaches. -/
def enter (w : World σ) : World σ :=
  let (token, cancellation) := w.cancellation.fresh
  { w with token, cancellation }

/-- The time passes, out of the operator's patience. -/
def elapse (w : World σ) (ms : Nat) : World σ :=
  { w with clock := ⟨w.clock.nowMs + ms, w.clock.patienceMs - ms⟩ }

end World

/-- Block of the first active failure that ended the run. -/
def Recorder.activeBlock? (r : Recorder) : Option BlockId := r.active.bind (·.cause?)

/-! ## Steps on sessions -/

namespace Step

variable {ε α σ : Type}

/-- Changes the world of a session. -/
def onWorld (f : World σ → World σ) : Step (Session σ) ε Unit :=
  modify fun s => { s with world := f s.world }

/-- Changes the tracked holdings of a session. -/
def onTracker (f : Tracker → Tracker) : Step (Session σ) ε Unit :=
  modify fun s => { s with tracker := f s.tracker }

/-- Reads the ledger of the session's store. -/
def read (f : StoreError → ε) : Step (Session σ) ε Ledger := do
  ofExcept f (← get).store.read

/-- Changes the store of a session. -/
def onStore (f : StoreError → ε) (op : Store → Except StoreError α × Store) :
    Step (Session σ) ε α := do
  let s ← get
  let (r, store) := op s.store
  set { s with store }
  ofExcept f r

/-- Commits a batch to the store of a session. -/
def commit (f : StoreError → ε) (b : Batch) : Step (Session σ) ε Unit := do
  let s ← get
  let (r, store) := s.store.commit b
  set { s with store }
  ofResult f r

/-- Calls the node of a session and waits for its reply. -/
def ask (call : σ → Answer α × σ) : Step (Session σ) ε (Except FetchError α) := do
  let s ← get
  let (reply, world) := s.world.call call
  set { s with world }
  match reply with
  | some r => pure r
  | none => idle

/-- Tells something. -/
def tell (es : List Event) : Step (Session σ) ε Unit := onWorld (·.tell es)

/-- Raises a counter of the session's store by one. -/
def count (f : StoreError → ε) (c : Counter) : Step (Session σ) ε Unit := do
  let _ ← onStore f (·.update c.name 1)

/-! ## What they do -/

@[simp] theorem eval_onWorld (f : World σ → World σ) (s : Session σ) :
    (onWorld f : Step (Session σ) ε Unit).eval s = (.ok (), { s with world := f s.world }) := rfl

@[simp] theorem eval_onTracker (f : Tracker → Tracker) (s : Session σ) :
    (onTracker f : Step (Session σ) ε Unit).eval s =
      (.ok (), { s with tracker := f s.tracker }) := rfl

@[simp] theorem eval_tell (es : List Event) (s : Session σ) :
    (tell es : Step (Session σ) ε Unit).eval s =
      (.ok (), { s with world := s.world.tell es }) := rfl

@[simp] theorem eval_read (f : StoreError → ε) (s : Session σ) :
    (read f : Step (Session σ) ε Ledger).eval s =
      (s.store.read.mapError (fun e => .failed (f e)), s) := by
  simp [read, eval_bind]

@[simp] theorem eval_onStore (f : StoreError → ε) (op : Store → Except StoreError α × Store)
    (s : Session σ) :
    (onStore f op : Step (Session σ) ε α).eval s =
      ((op s.store).1.mapError (fun e => .failed (f e)), { s with store := (op s.store).2 }) := by
  simp [onStore, eval_bind]

@[simp] theorem eval_commit (f : StoreError → ε) (b : Batch) (s : Session σ) :
    (commit f b : Step (Session σ) ε Unit).eval s =
      ((s.store.commit b).1.mapError (Stop.map f), { s with store := (s.store.commit b).2 }) := by
  simp [commit, eval_bind]

/-- A call that is never answered leaves the step idle. -/
theorem eval_ask (call : σ → Answer α × σ) (s : Session σ) :
    (ask call : Step (Session σ) ε _).eval s =
      (match (s.world.call call).1 with
        | some r => .ok r
        | none => .error .idle,
      { s with world := (s.world.call call).2 }) := by
  simp only [ask, eval_bind, eval_get, eval_set]
  cases (s.world.call call).1 <;> rfl

end Step

/-- The node that is audited and the settings under which that is done. -/
structure Auditor (σ : Type) where
  node : Node σ
  settings : Settings

end BalanceAudit
