import BalanceAudit.Config
import BalanceAudit.Table

/-!
# Settings of a run

- `LogOptions`: which streams of events are kept.
- `Settings`: how a run fetches, checks and ends.
- `Settings.ofConfig`: the settings of a regular audit.
- `Settings.strict`: those of a search for one holding. Only its changes are
  checked, one at a time, nothing is swept, and the first failure ends the run.
-/

namespace BalanceAudit

/-- Which streams of events are kept. -/
structure LogOptions where
  blocks : Bool := false
  balanceChanges : Bool := false
  reconciliations : Bool := false
  deriving DecidableEq, Inhabited

/-- How a run fetches, checks and ends. -/
structure Settings where
  tipPollMs : Nat := 1000
  maxFetchRetries : Nat := 5
  /-- The pause after a first failed attempt; later ones are multiples of it. -/
  retryBackoffMs : Nat := 500
  /-- How many active checks may run at once; none are made at zero. -/
  active : Nat := 8
  /-- How many workers sweep; none do at zero. -/
  inactive : Nat := 4
  /-- Holdings that are swept whether or not a block named them. -/
  interesting : List Holding := []
  /-- Holdings that are never compared. -/
  exempt : Table Holding Unit := ∅
  /-- Whether the node is asked for balances at past blocks. -/
  lookup : Bool := true
  inactiveFrequency : Int := 250
  inactiveSleepMs : Nat := 1000
  /-- Whether anything is checked. -/
  enabled : Bool := true
  /-- The only holding whose changes are checked, if there is one. -/
  restrictTo : Option Holding := none
  /-- Whether a failure ends the run. -/
  halt : Bool := true
  log : LogOptions := {}

namespace Settings

instance : Inhabited Settings := ⟨{}⟩

/-- The set of the listed holdings. -/
def holdingSet (hs : List Holding) : Table Holding Unit := Table.ofList (hs.map fun h => (h, ()))

/-- The settings of a regular audit. -/
def ofConfig (c : Config) (interesting exempt : List Holding) : Settings :=
  { tipPollMs := c.tipPollMs
    maxFetchRetries := c.maxFetchRetries
    active := c.activeConcurrency
    inactive := c.inactiveConcurrency
    interesting
    exempt := holdingSet exempt
    lookup := c.lookup
    inactiveFrequency := c.inactiveFrequency
    inactiveSleepMs := c.inactiveSleepMs
    enabled := !c.reconciliationDisabled
    halt := !c.ignoreReconciliationError
    log := ⟨c.logBlocks, c.logBalanceChanges, c.logReconciliations⟩ }

/-- The settings of a search for the block that broke `h`. -/
def strict (s : Settings) (h : Holding) : Settings :=
  { s with
    active := 1
    inactive := 0
    interesting := [h]
    exempt := ∅
    enabled := true
    restrictTo := some h
    halt := true
    log := {} }

/-- Whether a holding is never compared. -/
def isExempt (s : Settings) (h : Holding) : Bool := s.exempt.contains h

end Settings

end BalanceAudit
