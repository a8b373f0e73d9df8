import BalanceAudit.Node

/-!
# Made-up faults

Faults stand before a node and change what comes of some calls.

- `Fault`: which calls it matches, how often it acts, and what it does.
- `Rehearsal.faulty`: a node behind a list of faults. The first one that matches
  acts; without one the node answers as it would.
-/

namespace BalanceAudit

namespace Rehearsal

/-- The calls of a node. -/
inductive CallKind where
  | status | block | balance
  deriving DecidableEq, Inhabited

/-- The blocks for which a fault acts. -/
inductive Place where
  | anywhere
  | index (i : Int)
  /-- A balance at the tip. -/
  | tip
  /-- A balance at a given block. -/
  | past
  deriving DecidableEq, Inhabited

/-- What a fault does. -/
inductive Effect where
  | fail (cause : FetchError)
  /-- The block is not available yet. -/
  | missing
  /-- The operator intervenes, and the node answers as it would. -/
  | signal (s : Signal)
  /-- The node never answers, after the operator intervened or without. -/
  | hang (s : Option Signal)
  deriving DecidableEq, Inhabited

/-- A change of what comes of some calls. -/
structure Fault where
  kind : CallKind
  place : Place := .anywhere
  address : Option String := none
  /-- How often it still acts; always if not given. -/
  times : Option Nat := none
  effect : Effect
  deriving Inhabited

/-- What a call asks for. -/
structure Request where
  kind : CallKind
  /-- The block of the call, if it names one. -/
  index : Option Int := none
  /-- The address whose balance is asked for. -/
  address : Option String := none

namespace Fault

/-- Whether the place of a fault is that of a call. -/
def covers (p : Place) (r : Request) : Bool :=
  match p with
  | .anywhere => true
  | .index i => r.index = some i
  | .tip => r.kind = .balance ∧ r.index = none
  | .past => r.kind = .balance ∧ r.index ≠ none

/-- Whether a fault acts on a call. -/
def acts (f : Fault) (r : Request) : Bool :=
  f.kind = r.kind ∧ covers f.place r ∧ (f.address = none ∨ f.address = r.address) ∧
    f.times ≠ some 0

/-- The effect of the first fault that acts, which then acts once less. -/
def first? (r : Request) : List Fault → Option Effect × List Fault
  | [] => (none, [])
  | f :: rest =>
    if f.acts r then (some f.effect, { f with times := f.times.map (· - 1) } :: rest)
    else
      let (e, rest) := first? r rest
      (e, f :: rest)

end Fault

/-- What comes of a call under an effect. `absent` is the reply for something
that is not available yet. -/
def Effect.answer {α σ : Type} (absent : Option α) (call : σ → Answer α × σ) (s : σ) :
    Effect → Answer α × σ
  | .fail cause => (⟨none, some (.error cause)⟩, s)
  | .missing => (⟨none, absent.map .ok⟩, s)
  | .signal sig =>
    let (a, s) := call s
    ({ a with signal := some sig }, s)
  | .hang sig => (⟨sig, none⟩, s)

/-- A call behind faults. -/
def react {α σ : Type} (r : Request) (absent : Option α) (call : σ → Answer α × σ) :
    List Fault × σ → Answer α × List Fault × σ
  | (faults, s) =>
    match Fault.first? r faults with
    | (none, faults) =>
      let (a, s) := call s
      (a, faults, s)
    | (some e, faults) =>
      let (a, s) := e.answer absent call s
      (a, faults, s)

/-- A node behind faults. -/
def faulty {σ : Type} (n : Node σ) : Node (List Fault × σ) where
  status := react { kind := .status } none n.status
  block := fun i => react { kind := .block, index := some i } (some none) (n.block i)
  balance := fun h at? =>
    react { kind := .balance, index := at?.map (·.index), address := some h.account.address } none
      (n.balance h at?)

end Rehearsal

end BalanceAudit
