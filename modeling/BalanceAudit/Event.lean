import BalanceAudit.Error
import BalanceAudit.Ledger
import BalanceAudit.Settings

/-!
# Events

What a run tells about itself, in the order in which it happens.

- `Event`: one thing told, with its name and its fields as text.
- `Event.ofReport`: the counters as an event.
- `LogOptions.block`, `LogOptions.changes`, `LogOptions.reconciled`: the events
  of a stream, none if the stream is not wanted.
-/

namespace BalanceAudit

/-- One thing that a run tells. -/
inductive Event where
  | progress (counters : Table String Count)
  | blockAdded (block : BlockId) (transactions operations : Nat)
  | balanceChanged (change : Change)
  | reconciled (kind : Kind) (holding : Holding) (index : Int) (value : Decimal)
  /-- A check failed, which the run may or may not end with. -/
  | mismatch (failure : Failure) (halts : Bool)
  /-- The counters could not be read. -/
  | countersUnavailable (cause : StoreError)
  | searching (window : SearchWindow)
  deriving DecidableEq

namespace Event

/-- The name of an event. -/
def name : Event → String
  | progress _ => "Progress"
  | blockAdded .. => "Block added"
  | balanceChanged _ => "Balance changed"
  | reconciled .. => "Reconciled"
  | mismatch _ true => "Reconciliation failed"
  | mismatch _ false => "Ignoring reconciliation failure"
  | countersUnavailable _ => "Counters unavailable"
  | searching _ => "Searching window"

/-- The field in which a report shows a counter. -/
def counterField : Counter → String
  | .seenAccounts => "accounts"
  | c => c.name

/-- The fields of an event, as text. -/
def fields : Event → List (String × String)
  | progress counters =>
    Counter.all.map fun c => (counterField c, ((counters.find? c.name).getD 0).toText)
  | blockAdded block transactions operations =>
    [("block", block.toText), ("transactions", toString transactions),
      ("operations", toString operations)]
  | balanceChanged c =>
    [("account", c.holding.toText), ("block", c.block.toText),
      ("difference", c.difference.toText), ("value", c.value.toText),
      ("new_account", if c.isNew then "true" else "false")]
  | reconciled kind holding index value =>
    [("kind", kind.toText), ("account", holding.toText), ("index", toString index),
      ("value", value.toText)]
  | mismatch f _ => [("failure", f.message)]
  | countersUnavailable cause => [("error", cause.message)]
  | searching w => [("window", w.toText)]

/-- The counters of an open ledger, or why there are none. -/
def ofReport (ledger : Except StoreError Ledger) : Event :=
  match ledger with
  | .ok l => progress l.report
  | .error cause => countersUnavailable cause

/-- Whether an event belongs to one of the streams. -/
def isItem : Event → Bool
  | blockAdded .. | balanceChanged _ | reconciled .. => true
  | _ => false

/-- The failure of a check, if the event tells of one. -/
def failure? : Event → Option Failure
  | mismatch f _ => some f
  | _ => none

/-- The window of a search, if the event tells of one. -/
def window? : Event → Option SearchWindow
  | searching w => some w
  | _ => none

end Event

namespace LogOptions

/-- What is told of an applied block. -/
def block (o : LogOptions) (b : Block) : List Event :=
  if o.blocks then [.blockAdded b.id b.transactions.length b.operationCount] else []

/-- What is told of changed balances. -/
def changes (o : LogOptions) (cs : List Change) : List Event :=
  if o.balanceChanges then cs.map .balanceChanged else []

/-- What is told of a balance that was confirmed. -/
def reconciled (o : LogOptions) (kind : Kind) (h : Holding) (index : Int) (value : Decimal) :
    List Event :=
  if o.reconciliations then [.reconciled kind h index value] else []

end LogOptions

/-- The reports of counters while `ms` pass: one after every interval that ends
before, and a last one. -/
def periodicReports (ledger : Except StoreError Ledger) (intervalMs ms : Nat) : List Event :=
  List.replicate ((ms - 1) / max intervalMs 1 + 1) (Event.ofReport ledger)

end BalanceAudit
