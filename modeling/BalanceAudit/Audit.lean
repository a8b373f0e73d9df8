import BalanceAudit.Ending
import BalanceAudit.Files
import BalanceAudit.Search

/-!
# Audits

An audit follows the chain from where the last one stopped, checks balances on
the way, and says how that ended. Where a sweep failed and the node knows past
balances, it searches for the block at fault.

- `Audit`: the node and the configuration.
- `Site`: the world, the files and the scratch stores.
- `Audit.run`: a whole audit; `Audit.findMissing`: only the search.
-/

namespace BalanceAudit

/-- What an audit works on. -/
structure Site (σ : Type) where
  world : World σ
  files : Files := {}
  scratch : Scratch := {}

/-- What an audit found out by following the chain. -/
structure Report where
  result : Except PipelineError Unit
  /-- Successful checks of both kinds, if they could be read. -/
  reconciliations : Option Count
  inactiveFailure : Option Failure

/-- The node to be audited and how to do it. -/
structure Audit (σ : Type) where
  node : Node σ
  config : Config

/-- Successful checks of both kinds. -/
def Ledger.reconciliations (l : Ledger) : Count :=
  l.counted Counter.activeReconciliations.name + l.counted Counter.inactiveReconciliations.name

namespace Site

variable {σ : Type}

/-- Calls the node and waits for its reply. -/
def ask {α : Type} (call : σ → Answer α × σ) : Step (Site σ) AuditError α := do
  let s ← get
  let (reply, world) := s.world.call call
  set { s with world }
  match reply with
  | some r => Step.ofExcept .fetch r
  | none => Step.idle

/-- Whether the operator aborted. -/
def isAborted (s : Site σ) : Bool := s.world.cancellation.aborted

end Site

namespace Audit

variable {σ : Type}

/-- The directory of the store of a network. -/
def directory (u : Audit σ) (n : Network) : String :=
  Files.join (Files.join u.config.dataDirectory "data") n.directory

/-- The settings, with the listed holdings. -/
def settings (u : Audit σ) : Step (Site σ) AuditError Settings := do
  let files := (← get).files
  let interesting ← Step.ofExcept .config (loadHoldings (files.read? u.config.interestingAccounts))
  let exempt ← Step.ofExcept .config (loadHoldings (files.read? u.config.exemptAccounts))
  return Settings.ofConfig u.config interesting exempt

/-! ## Following the chain -/

/-- The block with which to go on: the one after the head, if there is an index for it,
or the first one. -/
def firstIndex? (u : Audit σ) (genesis : BlockId) (l : Ledger) : Option Int :=
  match l.head? with
  | some head => Index.next? head.index
  | none => some (u.config.startIndex.getD genesis.index)

/-- Seeds balances if the configuration asks for it, follows the chain under a
token of its own, and reports. -/
def follow (u : Audit σ) (settings : Settings) (genesis : BlockId)
    (manifest : Option (Except FileFault String)) : Step (Session σ) AuditError Report := do
  if let some manifest := manifest then
    let _ ← Step.onStore AuditError.store (·.bootstrap manifest genesis)
  let l ← Step.read AuditError.store
  let first ← Step.within .next (u.firstIndex? genesis l)
  Step.onWorld World.enter
  let a : Auditor σ := ⟨u.node, settings⟩
  let run := a.runPipeline first u.config.endIndex
  let result ← match ← Step.attempt run with
    | .ok () => pure (.ok ())
    | .error (.failed e) => pure (.error e)
    | .error .idle => Step.idle
    | .error (.overflow what) => throw (.overflow what)
  let s ← get
  return ⟨result, s.store.read.toOption.map (·.reconciliations), s.recorder.inactive⟩

/-- Whether a run came to an end that lets its store be closed. -/
def ended {ε α : Type} : Except (Stop ε) α → Bool
  | .ok _ | .error (.failed _) => true
  | _ => false

/-- Follows the chain on the store of a directory. The store is closed whatever
the run came to; an error of the run comes before one of closing. -/
def followOn (u : Audit σ) (settings : Settings) (genesis : BlockId) (directory : String) :
    Step (Site σ) AuditError Report := do
  let site ← get
  let disk ← Step.ofExcept (fun fault => .store (.io fault)) (site.files.disk directory)
  let store ← Step.ofExcept .store (Store.openAt disk)
  let (report, s) :=
    (u.follow settings genesis (site.files.read? u.config.bootstrapBalances)).eval
      { world := site.world, store := store.withInterval u.config.storeFlushInterval }
  -- A run that waits for good never gets to closing its store.
  let (closed, store) := if ended report then s.store.close else (.ok (), s.store)
  set { site with world := s.world, files := site.files.setDisk directory store.disk }
  match report with
  | .error stop => throw stop
  | .ok report =>
    Step.ofExcept .store closed
    return report

/-! ## Verdicts -/

/-- The verdict of a search. -/
def searchVerdict (h : Holding) : Except LocalizeError BlockId → Verdict
  | .ok b => .diagnosed h b
  | .error .halted => .halted
  | .error (.exhausted w) => .exhausted (LocalizeError.exhausted w).message
  | .error e => .failed e.message

/-- Searches for the block that broke a holding. -/
def localize (u : Audit σ) (settings : Settings) (genesis : BlockId) (h : Holding)
    (observed : BlockId) : Step (Site σ) AuditError Verdict := do
  let site ← get
  let a : Auditor σ := ⟨u.node, settings⟩
  let (r, s) :=
    (a.findMissing h observed.index u.config.lookbackWindow genesis.index).eval
      ⟨site.world, site.scratch⟩
  set { site with world := s.world, scratch := s.scratch }
  match r with
  | .ok b => return searchVerdict h (.ok b)
  | .error (.failed e) => return searchVerdict h (.error e)
  | .error .idle => Step.idle
  | .error (.overflow what) => throw (.overflow what)

/-- A whole audit: follows the chain and says how that ended, after a search if
one is called for. -/
def run (u : Audit σ) : Step (Site σ) AuditError Verdict := do
  let status ← Site.ask u.node.status
  let settings ← u.settings
  let report ← u.followOn settings status.genesis (u.directory status.network)
  let ending : Ending :=
    { aborted := (← get).isAborted
      error := match report.result with
        | .ok () => none
        | .error e => some e
      reconciliations := report.reconciliations
      inactiveFailure := report.inactiveFailure
      lookup := u.config.lookup }
  match ending.conclusion with
  | .verdict v => return v
  | .localize h observed => u.localize settings status.genesis h observed

/-- Searches for the block that broke a holding whose balance was wrong at
`observed`, which needs a node that knows past balances. -/
def findMissing (u : Audit σ) (h : Holding) (observed : Int) :
    Step (Site σ) AuditError Verdict := do
  if ¬u.config.lookup then
    return .undiagnosed ("balance of " ++ h.toText ++ s!" was wrong at block {observed}")
  let status ← Site.ask u.node.status
  let settings ← u.settings
  match ← Site.ask (u.node.block observed) with
  | some b => u.localize settings status.genesis h b.id
  | none => Step.fail (.fetch (.notFound s!"block {observed}"))

end Audit

end BalanceAudit
