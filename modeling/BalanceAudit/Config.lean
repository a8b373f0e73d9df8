import BalanceAudit.Error
import BalanceAudit.Json.Writer

/-!
# Configuration

- `Config`: what a configuration file can set, with its defaults.
- `Config.validate`: the first value that is out of range.
- `Config.load`: reads and validates a file.
- `loadHoldings`: reads a list of holdings.
-/

namespace BalanceAudit

/-- The settings of an audit as a user gives them. -/
structure Config where
  /-- The root of what is kept between audits. -/
  dataDirectory : String := "ledger-check-data"
  /-- Commits between two writes to disk. -/
  storeFlushInterval : Nat := 64
  /-- The root of what is kept only during a search. -/
  scratchDirectory : Option String := none
  /-- The first block when nothing is stored yet; genesis if not set. -/
  startIndex : Option Int := none
  /-- The last block; follow the tip if not set. -/
  endIndex : Option Int := none
  /-- How many active checks may run at once; none are made at zero. -/
  activeConcurrency : Nat := 8
  /-- How many workers sweep; none do at zero. -/
  inactiveConcurrency : Nat := 4
  /-- Blocks between two sweeps over the same holding. -/
  inactiveFrequency : Int := 250
  /-- How long a sweeping worker without work sleeps. -/
  inactiveSleepMs : Nat := 1000
  historicalBalanceDisabled : Bool := false
  ignoreReconciliationError : Bool := false
  reconciliationDisabled : Bool := false
  exemptAccounts : Option String := none
  interestingAccounts : Option String := none
  bootstrapBalances : Option String := none
  /-- The size of a search window. -/
  lookbackWindow : Int := 250
  periodicLoggingSecs : Nat := 10
  tipPollMs : Nat := 1000
  maxFetchRetries : Nat := 5
  logBlocks : Bool := false
  logBalanceChanges : Bool := false
  logReconciliations : Bool := false
  deriving DecidableEq, Inhabited

namespace Config

/-- The names of the fields, in their order. -/
def fieldNames : List String :=
  ["data_directory", "store_flush_interval", "scratch_directory", "start_index", "end_index",
    "active_reconciliation_concurrency", "inactive_reconciliation_concurrency",
    "inactive_reconciliation_frequency", "inactive_reconciliation_sleep_ms",
    "historical_balance_disabled", "ignore_reconciliation_error", "reconciliation_disabled",
    "exempt_accounts", "interesting_accounts", "bootstrap_balances",
    "inactive_failure_lookback_window", "periodic_logging_frequency_secs",
    "tip_poll_interval_ms", "max_fetch_retries", "log_blocks", "log_balance_changes",
    "log_reconciliations"]

/-- Reads the settings; what is missing keeps its default. -/
def ofJson? (v : Json) : Option Config := do
  let r ← v.record? fieldNames
  let d : Config := {}
  let path name default := r.defaulted? name (Json.nullable? Json.toText?) default
  let index name default := r.defaulted? name (Json.nullable? Json.toInt64?) default
  let flag name default := r.defaulted? name Json.toBool? default
  return {
    dataDirectory := ← r.defaulted? "data_directory" Json.toText? d.dataDirectory
    storeFlushInterval := ← r.defaulted? "store_flush_interval" Json.toNat64? d.storeFlushInterval
    scratchDirectory := ← path "scratch_directory" d.scratchDirectory
    startIndex := ← index "start_index" d.startIndex
    endIndex := ← index "end_index" d.endIndex
    activeConcurrency :=
      ← r.defaulted? "active_reconciliation_concurrency" Json.toNat64? d.activeConcurrency
    inactiveConcurrency :=
      ← r.defaulted? "inactive_reconciliation_concurrency" Json.toNat64? d.inactiveConcurrency
    inactiveFrequency :=
      ← r.defaulted? "inactive_reconciliation_frequency" Json.toInt64? d.inactiveFrequency
    inactiveSleepMs :=
      ← r.defaulted? "inactive_reconciliation_sleep_ms" Json.toNat64? d.inactiveSleepMs
    historicalBalanceDisabled := ← flag "historical_balance_disabled" d.historicalBalanceDisabled
    ignoreReconciliationError := ← flag "ignore_reconciliation_error" d.ignoreReconciliationError
    reconciliationDisabled := ← flag "reconciliation_disabled" d.reconciliationDisabled
    exemptAccounts := ← path "exempt_accounts" d.exemptAccounts
    interestingAccounts := ← path "interesting_accounts" d.interestingAccounts
    bootstrapBalances := ← path "bootstrap_balances" d.bootstrapBalances
    lookbackWindow :=
      ← r.defaulted? "inactive_failure_lookback_window" Json.toInt64? d.lookbackWindow
    periodicLoggingSecs :=
      ← r.defaulted? "periodic_logging_frequency_secs" Json.toNat64? d.periodicLoggingSecs
    tipPollMs := ← r.defaulted? "tip_poll_interval_ms" Json.toNat64? d.tipPollMs
    maxFetchRetries := ← r.defaulted? "max_fetch_retries" Json.toNat32? d.maxFetchRetries
    logBlocks := ← flag "log_blocks" d.logBlocks
    logBalanceChanges := ← flag "log_balance_changes" d.logBalanceChanges
    logReconciliations := ← flag "log_reconciliations" d.logReconciliations }

/-- Writes the settings. -/
def toJson (c : Config) : Json :=
  .record <| fieldNames.zip
    [.text c.dataDirectory, .nat c.storeFlushInterval, .option .text c.scratchDirectory,
      .option .int c.startIndex, .option .int c.endIndex, .nat c.activeConcurrency,
      .nat c.inactiveConcurrency, .int c.inactiveFrequency, .nat c.inactiveSleepMs,
      .bool c.historicalBalanceDisabled, .bool c.ignoreReconciliationError,
      .bool c.reconciliationDisabled, .option .text c.exemptAccounts,
      .option .text c.interestingAccounts, .option .text c.bootstrapBalances,
      .int c.lookbackWindow, .nat c.periodicLoggingSecs, .nat c.tipPollMs,
      .nat c.maxFetchRetries, .bool c.logBlocks, .bool c.logBalanceChanges,
      .bool c.logReconciliations]

/-- Whether the node is asked for balances at past blocks. -/
def lookup (c : Config) : Bool := !c.historicalBalanceDisabled

/-- Seconds between two reports of the counters, at least one. -/
def loggingSecs (c : Config) : Nat := max c.periodicLoggingSecs 1

/-- Refuses the first value that is out of range. -/
def validate (c : Config) : Except ConfigError Unit :=
  if c.lookbackWindow ≤ 0 then
    .error (.invalid "inactive_failure_lookback_window must be positive")
  else if c.inactiveFrequency < 0 then
    .error (.invalid "inactive_reconciliation_frequency must not be negative")
  else
    match c.startIndex, c.endIndex with
    | some first, some last =>
      if last < first then .error (.invalid s!"start_index {first} is after end_index {last}")
      else .ok ()
    | _, _ => .ok ()

/-- The configuration in a parsed file. -/
def ofFile? (v : Json) : Option Config := do
  let r ← v.record? ["data"]
  r.defaulted? "data" ofJson? {}

/-- The contents of a file, read as JSON. -/
def parseFile {α : Type} (read : Json → Option α) (file : Except FileFault String) :
    Except ConfigError α :=
  match file with
  | .error fault => .error (.io fault)
  | .ok text =>
    match Json.parse? text >>= read with
    | some a => .ok a
    | none => .error .malformed

/-- Reads and validates a configuration file. -/
def load (file : Except FileFault String) : Except ConfigError Config := do
  let c ← parseFile ofFile? file
  c.validate
  return c

end Config

/-- The holdings listed in a file; none without a file. -/
def loadHoldings (file : Option (Except FileFault String)) : Except ConfigError (List Holding) :=
  match file with
  | none => .ok []
  | some file => Config.parseFile (Json.toList? Holding.ofJson?) file

end BalanceAudit
