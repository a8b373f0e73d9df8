import BalanceAudit.Account
import BalanceAudit.Index
import BalanceAudit.Table

/-!
# Tracking

The reconciler remembers when it last checked every holding it knows of, so
that sweeps come by in turn.

- `Tracked`: the state of a holding.
- `Tracked.isDue?`: it was never checked, or long enough ago.
- `Tracker.claim?`: the due holding that waited longest, now being checked. All holdings
  are asked how long they waited, which overflows where that is no word.
- `Tracker.finish`: the outcome of a check.
-/

namespace BalanceAudit

/-- Where the checks of a holding stand. -/
inductive CheckStatus where
  /-- Never compared. -/
  | pending
  /-- Claimed by a sweep. -/
  | checking
  /-- The last check matched or had nothing to compare with. -/
  | inSync
  | failed
  deriving DecidableEq, Inhabited

/-- What is remembered of a holding. -/
structure Tracked where
  /-- The head at the last check. -/
  lastChecked : Option Int := none
  status : CheckStatus := .pending
  deriving DecidableEq, Inhabited

namespace Tracked

/-- Whether a sweep at `head` should check the holding, if the distance to the last check
is a word. That of a claimed holding is not asked for. -/
def isDue? (t : Tracked) (head frequency : Int) : Option Bool :=
  if t.status = .checking then some false
  else
    match t.lastChecked with
    | none => some true
    | some last => (Index.distance? head last).map (max frequency 1 ≤ ·)

/-- The state after a check at `index`. -/
def finish (t : Tracked) (index : Int) (status : CheckStatus) : Tracked :=
  ⟨some (match t.lastChecked with
    | some last => max last index
    | none => index), status⟩

/-- Whether `t` waited longer than `u`: never checked comes first. -/
def waitedLonger (t u : Tracked) : Bool :=
  match t.lastChecked, u.lastChecked with
  | none, some _ => true
  | some a, some b => a < b
  | _, none => false

end Tracked

/-- The holdings that are tracked. -/
abbrev Tracker := Table Holding Tracked

namespace Tracker

/-- Tracks one more holding. -/
def add (t : Tracker) (h : Holding) : Tracker :=
  if t.contains h then t else t.insert h {}

/-- Tracks the holdings of a list that are not tracked yet. -/
def track (t : Tracker) (hs : List Holding) : Tracker := hs.foldl add t

/-- Notes the outcome of a check of a tracked holding. -/
def finish (t : Tracker) (h : Holding) (index : Int) (status : CheckStatus) : Tracker :=
  match t.find? h with
  | some s => t.insert h (s.finish index status)
  | none => t

/-- Of two entries the one that waited longer, the first if neither did. -/
def longer (best : Option (Holding × Tracked)) (e : Holding × Tracked) :
    Option (Holding × Tracked) :=
  match best with
  | none => some e
  | some b => if e.2.waitedLonger b.2 then some e else some b

/-- The entries that are due, if it can be told of all. -/
def dueOf? (head frequency : Int) :
    List (Holding × Tracked) → Option (List (Holding × Tracked))
  | [] => some []
  | e :: es => do
    let due ← e.2.isDue? head frequency
    let rest ← dueOf? head frequency es
    return if due then e :: rest else rest

/-- Claims the due holding that waited longest, if there is one. Without any result a
distance overflowed. -/
def claim? (t : Tracker) (head frequency : Int) : Option (Option (Holding × Tracker)) := do
  let due ← dueOf? head frequency t.entries
  return (due.foldl longer none).map fun (h, s) => (h, t.insert h { s with status := .checking })

end Tracker

end BalanceAudit
