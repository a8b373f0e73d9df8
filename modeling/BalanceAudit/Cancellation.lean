/-!
# Cancellation

A run ends its own token when it reaches the end of its range, which is not an
error; an abort by the operator has to reach every run. So an abort is a flag
together with the tokens that are registered when it is raised or later.

- `Token`: a handle that can be canceled, with the tokens it descends from.
- `Cancellation`: the canceled tokens, the registered ones and the flag.
- `Cancellation.isCanceled`: a token is canceled with itself or an ancestor.
- `Cancellation.abort`: raises the flag, then cancels the registered tokens.
-/

namespace BalanceAudit

/-- A handle, and the handles it was made from. -/
structure Token where
  id : Nat
  ancestors : List Nat := []
  deriving DecidableEq, Inhabited

/-- What is known about all tokens. -/
structure Cancellation where
  /-- The number of tokens made. -/
  made : Nat := 0
  /-- The tokens canceled directly. -/
  canceled : List Nat := []
  /-- The tokens that an abort reaches. -/
  registered : List Token := []
  aborted : Bool := false
  deriving DecidableEq, Inhabited

namespace Cancellation

/-- Whether a token or one of its ancestors was canceled. -/
def isCanceled (c : Cancellation) (t : Token) : Bool :=
  (t.id :: t.ancestors).any (c.canceled.contains ·)

/-- A new token without ancestors. -/
def create (c : Cancellation) : Token × Cancellation :=
  (⟨c.made, []⟩, { c with made := c.made + 1 })

/-- A new token that descends from `t`. -/
def child (c : Cancellation) (t : Token) : Token × Cancellation :=
  (⟨c.made, t.id :: t.ancestors⟩, { c with made := c.made + 1 })

/-- Cancels a token, and with it its descendants. -/
def cancel (c : Cancellation) (t : Token) : Cancellation :=
  if c.canceled.contains t.id then c else { c with canceled := t.id :: c.canceled }

/-- Lets an abort reach `t`; after an abort it is canceled at once. Canceled
tokens are forgotten. -/
def register (c : Cancellation) (t : Token) : Cancellation :=
  let live := c.registered.filter fun r => !c.isCanceled r
  let c := { c with registered := live ++ [t] }
  if c.aborted then c.cancel t else c

/-- A new registered token without ancestors. -/
def fresh (c : Cancellation) : Token × Cancellation :=
  let (t, c) := c.create
  (t, c.register t)

/-- Raises the flag of an abort. -/
def raise (c : Cancellation) : Cancellation := { c with aborted := true }

/-- Cancels the registered tokens. -/
def sweep (c : Cancellation) : Cancellation := c.registered.foldl cancel c

/-- Aborts: the flag first, then the tokens. -/
def abort (c : Cancellation) : Cancellation := c.raise.sweep

end Cancellation

end BalanceAudit
