import BalanceAudit.BalanceWorker

/-!
# Made-up workers and observers

Workers and observers that follow a script, for rehearsing how blocks are
applied. What they see goes into a diary, which is kept beside the node's state.

- `ScriptedWorker`: where a worker fails or cancels the run.
- `Diary`: what workers wrote and observers saw.
- `Rehearsal.worker`, `Rehearsal.observer`: the participants.
-/

namespace BalanceAudit

namespace Rehearsal

/-- What a worker does besides keeping its diary. -/
structure ScriptedWorker where
  /-- The block that it refuses to stage. -/
  stageFail : Option Int := none
  /-- The block whose commit makes it fail. -/
  commitFail : Option Int := none
  /-- The block after which it cancels the run. -/
  cancelAfter : Option Int := none
  deriving Inhabited

/-- The node's state with what workers wrote and observers saw. -/
structure Diary (σ : Type) where
  node : σ
  lines : Array String := #[]
  seen : Array (BlockId × List Change) := #[]

/-- A node whose state has a diary beside it. -/
def withDiary {σ : Type} (n : Node σ) : Node (Diary σ) where
  status := fun d =>
    let (a, s) := n.status d.node
    (a, { d with node := s })
  block := fun i d =>
    let (a, s) := n.block i d.node
    (a, { d with node := s })
  balance := fun h at? d =>
    let (a, s) := n.balance h at? d.node
    (a, { d with node := s })

/-- Writes a line. -/
def write {σ ε : Type} (line : String) : Step (Session (Diary σ)) ε Unit :=
  Step.onWorld fun w => { w with node.lines := w.node.lines.push line }

/-- The worker with number `n` that follows a script. -/
def worker {σ : Type} (n : Nat) (w : ScriptedWorker) : Worker (Diary σ) where
  stage := fun b batch => do
    let i := b.id.index
    write s!"w{n} stage {i}"
    if w.stageFail = some i then Step.fail (.fetch (.notFound s!"stage {i}"))
    return { batch with counts := batch.counts ++ [(s!"w{n}", 1)] }
  committed := fun b batch => do
    let i := b.id.index
    let entries := batch.counts.length
    write s!"w{n} committed {i} with {entries}"
    if w.cancelAfter = some i then Step.onWorld (·.cancel)
    if w.commitFail = some i then Step.fail (.reconcile (.task s!"commit {i}"))

/-- An observer that notes the changes it is told of and fails at a block. -/
def observer {σ : Type} (failAt : Option Int) : Observer (Diary σ) := fun b cs => do
  Step.onWorld fun w => { w with node.seen := w.node.seen.push (b.id, cs) }
  if failAt = some b.id.index then Step.fail (.task "observer")

end Rehearsal

end BalanceAudit
