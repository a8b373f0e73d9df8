import BalanceAudit.Index
import BalanceAudit.Json.Basic

/-!
# Search windows

A search goes back through history in windows of blocks. Each window ends where
the one after it starts.

- `SearchWindow`: first and last index, in order.
- `SearchWindow.initial`: the window that ends at a failure.
- `SearchWindow.preceding?`: the window before another one, until genesis.
-/

namespace BalanceAudit

/-- The blocks from `first` to `last`. -/
structure SearchWindow where
  first : Int
  last : Int
  first_le_last : first ≤ last

/-- Why there is no window. -/
inductive WindowError where
  | reversed (start stop : Int)
  | step (step : Int)
  deriving DecidableEq

/-- The text of an error. -/
def WindowError.message : WindowError → String
  | reversed start stop =>
    s!"invalid search window: start index {start} must not exceed end index {stop}"
  | step n => s!"window step must be positive, got {n}"

namespace SearchWindow

theorem ext {a b : SearchWindow} (first : a.first = b.first) (last : a.last = b.last) : a = b := by
  cases a; cases b; cases first; cases last; rfl

instance : DecidableEq SearchWindow := fun a b =>
  decidable_of_iff (a.first = b.first ∧ a.last = b.last)
    ⟨fun h => ext h.1 h.2, fun h => h ▸ ⟨rfl, rfl⟩⟩

/-- The window from `start` to `stop`. -/
def new (start stop : Int) : Except WindowError SearchWindow :=
  if h : start ≤ stop then .ok ⟨start, stop, h⟩ else .error (.reversed start stop)

/-- The window of a failure at `failure`: it reaches `step` blocks back, but not
behind genesis. -/
def initial (failure step genesis : Int) : Except WindowError SearchWindow :=
  if step ≤ 0 then .error (.step step)
  else new (max (Index.back failure step) genesis) failure

/-- The window moved back by `step`, cut off at genesis, unless nothing is left
of it. -/
def preceding? (w : SearchWindow) (step genesis : Int) : Option SearchWindow :=
  let first := max (Index.back w.first step) genesis
  let last := Index.back w.last step
  if h : first < last then some ⟨first, last, Int.le_of_lt h⟩ else none

/-- First and last index around a dash. -/
def toText (w : SearchWindow) : String := s!"{w.first}-{w.last}"

/-- Writes a window. -/
def toJson (w : SearchWindow) : Json :=
  .record [("start_index", .int w.first), ("end_index", .int w.last)]

end SearchWindow

end BalanceAudit
