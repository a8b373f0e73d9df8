import BalanceAudit.Failure
import BalanceAudit.Window

/-!
# What can go wrong

Each layer has its own causes and passes on those of the layer below.

- `StoreError`, `FetchError`: keeping records and asking the node.
- `ReconcileError`, `WorkerError`, `SyncError`, `PipelineError`: checking a
  balance, applying a block, following the chain, and both together.
- `ConfigError`, `LocalizeError`, `AuditError`: settings, the search for a
  faulty block, and a whole audit.
- `message` in each namespace: the text of an error.
-/

namespace BalanceAudit

/-- Why the file system refused a request. -/
inductive FileFault where
  | missing
  | isDirectory
  | notDirectory
  | occupied
  deriving DecidableEq, Inhabited

/-- Why records could not be kept or read. -/
inductive StoreError where
  | io (fault : FileFault)
  /-- Stored text that does not parse. -/
  | malformed
  | closed
  /-- Balances can be seeded only before the first block. -/
  | alreadySyncing (head : BlockId)
  /-- A block that does not extend the head. -/
  | outOfOrder (head got : BlockId)
  deriving DecidableEq, Inhabited

/-- Why the node gave no answer. -/
inductive FetchError where
  /-- The request may be repeated. -/
  | transient (reason : String)
  | notFound (what : String)
  /-- The recorded chain is unusable. -/
  | recording (reason : String)
  deriving DecidableEq, Inhabited

/-- Why a check of a balance ended without success. -/
inductive ReconcileError where
  | mismatch (failure : Failure)
  | fetch (cause : FetchError)
  | store (cause : StoreError)
  /-- The check itself broke down. -/
  | task (reason : String)
  deriving DecidableEq, Inhabited

/-- Why a worker refused a block. -/
inductive WorkerError where
  | fetch (cause : FetchError)
  | store (cause : StoreError)
  | reconcile (cause : ReconcileError)
  deriving DecidableEq, Inhabited

/-- Why following the chain ended early. -/
inductive SyncError where
  /-- Canceled before block `next`. -/
  | canceled (next : Int)
  | fetch (index : Int) (cause : FetchError)
  | worker (block : BlockId) (cause : WorkerError)
  | store (cause : StoreError)
  deriving DecidableEq, Inhabited

/-- Which side of a pipeline failed. -/
inductive PipelineError where
  | sync (cause : SyncError)
  | reconcile (cause : ReconcileError)
  deriving DecidableEq, Inhabited

/-- Why a configuration cannot be used. -/
inductive ConfigError where
  | io (fault : FileFault)
  | malformed
  | invalid (reason : String)
  deriving DecidableEq, Inhabited

/-- Why a search named no block. -/
inductive LocalizeError where
  | halted
  /-- Every window back to genesis was clean. -/
  | exhausted (searched : SearchWindow)
  /-- A window failed without naming a block. -/
  | notFound (window : SearchWindow) (cause : PipelineError)
  | window (cause : WindowError)
  | store (cause : StoreError)
  deriving DecidableEq

/-- Why an audit has no verdict. -/
inductive AuditError where
  | fetch (cause : FetchError)
  | store (cause : StoreError)
  | config (cause : ConfigError)
  deriving DecidableEq, Inhabited

/-! ## Texts -/

/-- The text of a fault, with its number. -/
def FileFault.message : FileFault → String
  | missing => "No such file or directory (os error 2)"
  | isDirectory => "Is a directory (os error 21)"
  | notDirectory => "Not a directory (os error 20)"
  | occupied => "File exists (os error 17)"

/-- The text of an error. -/
def StoreError.message : StoreError → String
  | io fault => "storage io error: " ++ fault.message
  | malformed => "storage serialization error: malformed document"
  | closed => "storage instance is closed"
  | alreadySyncing head =>
    "cannot bootstrap balances, already synced up to block " ++ head.toText
  | outOfOrder head got =>
    "block " ++ got.toText ++ " does not extend head block " ++ head.toText

/-- The text of an error. -/
def FetchError.message : FetchError → String
  | transient reason => "transient fetch error: " ++ reason
  | notFound what => "not found: " ++ what
  | recording reason => "unable to load recorded chain: " ++ reason

/-- The text of an error. -/
def ReconcileError.message : ReconcileError → String
  | mismatch failure => failure.message
  | fetch cause => cause.message
  | store cause => cause.message
  | task reason => "reconciliation task failed: " ++ reason

/-- The text of an error. -/
def WorkerError.message : WorkerError → String
  | fetch cause => cause.message
  | store cause => cause.message
  | reconcile cause => cause.message

/-- The text of an error. -/
def SyncError.message : SyncError → String
  | canceled next => s!"sync canceled before block {next}"
  | fetch index cause => s!"unable to fetch block {index}: " ++ cause.message
  | worker block cause =>
    "block worker failed on block " ++ block.toText ++ ": " ++ cause.message
  | store cause => cause.message

/-- The text of an error. -/
def PipelineError.message : PipelineError → String
  | sync cause => "syncer failed: " ++ cause.message
  | reconcile cause => "reconciler failed: " ++ cause.message

/-- The text of an error. -/
def ConfigError.message : ConfigError → String
  | io fault => "unable to read file: " ++ fault.message
  | malformed => "unable to parse file"
  | invalid reason => "invalid configuration: " ++ reason

/-- The text of an error. -/
def LocalizeError.message : LocalizeError → String
  | halted => "search halted"
  | exhausted searched =>
    "exhausted search space before locating a missing-operations block (last window " ++
      searched.toText ++ ")"
  | notFound w cause =>
    "unable to find block with missing operations in window " ++ w.toText ++ ": " ++
      cause.message
  | window cause => cause.message
  | store cause => cause.message

/-- The text of an error. -/
def AuditError.message : AuditError → String
  | fetch cause => cause.message
  | store cause => cause.message
  | config cause => cause.message

end BalanceAudit
