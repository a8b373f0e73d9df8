import BalanceAudit.Check
import BalanceAudit.Recording
import BalanceAudit.Proofs.Step
import BalanceAudit.Proofs.Store

/-!
# Nodes that answer from a chain

What calls of such a node do to a session, whatever may happen to the world
meanwhile.

- `Node.Serves`: every call is answered as the chain has it, and a property of
  worlds is kept by calls and by telling events.
- `Node.Recites`: the calls do not interfere with any run, as those of the node
  of the chain itself: `Chain.recites`.
- `Session.raise`: the session with a counter raised.
- `Step.ends_read`, `Auditor.ends_checkChanges`, `Auditor.eval_succeeded`: what reads and
  the parts of checks come to.
-/

namespace BalanceAudit

variable {σ ε α : Type}

/-- The node answers every call as the chain has it, and calls keep `I`. -/
structure Node.Serves (n : Node σ) (c : Chain) (I : World σ → Prop) : Prop where
  block : ∀ index w, I w →
    (w.call (n.block index)).1 = some (.ok (c.blocks.find? index)) ∧ I (w.call (n.block index)).2
  balance : ∀ h at? w, I w →
    (w.call (n.balance h at?)).1 = some (c.balance h at?) ∧ I (w.call (n.balance h at?)).2
  tell : ∀ w es, I w → I (w.tell es)

/-- The worlds agree on the run under way and on what the operator may ask for. -/
structure World.SameRun (v w : World σ) : Prop where
  cancellation : w.cancellation = v.cancellation
  token : w.token = v.token
  surrender : w.surrender = v.surrender

namespace World.SameRun

variable {v w : World σ}

theorem refl (w : World σ) : w.SameRun w := ⟨rfl, rfl, rfl⟩

theorem isCanceled (h : v.SameRun w) : w.isCanceled = v.isCanceled := by
  unfold World.isCanceled
  rw [h.cancellation, h.token]

end World.SameRun

/-- The node answers as the chain has it, and its calls interfere with no run. -/
def Node.Recites (n : Node σ) (c : Chain) : Prop := ∀ v : World σ, n.Serves c v.SameRun

/-- The node of a chain does so. -/
theorem Chain.recites (c : Chain) : c.node.Recites c := fun _ =>
  { block := fun _ _ same => ⟨rfl, same.cancellation, same.token, same.surrender⟩
    balance := fun _ _ _ same => ⟨rfl, same.cancellation, same.token, same.surrender⟩
    tell := fun _ _ same => ⟨same.cancellation, same.token, same.surrender⟩ }

namespace Chain

/-- The chain has the block with the identifier. -/
def Has (c : Chain) (id : BlockId) : Prop := ∃ b, c.blocks.find? id.index = some b ∧ b.id = id

theorem balance_at {c : Chain} {id : BlockId} (has : c.Has id) (h : Holding) :
    c.balance h (some id) = .ok (id, c.balanceAt h id.index) := by
  obtain ⟨b, found, same⟩ := has
  rw [balance, found]
  exact if_pos same

/-- Without a block the node answers for its tip. -/
theorem balance_tip {c : Chain} {id : BlockId} (has : c.Has id) (h : Holding) :
    ∃ tip : BlockId, c.balance h none = .ok (tip, c.balanceAt h tip.index) := by
  obtain ⟨b, found, _⟩ := has
  have mem := Table.find?_eq_some_iff.mp found
  have nonempty : c.blocks.entries ≠ [] := List.ne_nil_of_mem mem
  obtain ⟨first, first?⟩ := Option.isSome_iff_exists.mp (List.isSome_head?.mpr nonempty)
  obtain ⟨last, last?⟩ := Option.isSome_iff_exists.mp (List.getLast?_isSome.mpr nonempty)
  refine ⟨last.2.id, ?_⟩
  rw [balance, bounds, Table.first?, Table.last?, first?, last?]
  rfl

end Chain

namespace Step

theorem eval_ask_block {a : Auditor σ} {c : Chain} {I : World σ → Prop}
    (serves : a.node.Serves c I) {s : Session σ} (inv : I s.world) (index : Int) :
    ∃ w, I w ∧ (ask (a.node.block index) : Step (Session σ) ε _).eval s =
      (.ok (.ok (c.blocks.find? index)), { s with world := w }) := by
  obtain ⟨reply, kept⟩ := serves.block index s.world inv
  refine ⟨_, kept, ?_⟩
  rw [eval_ask, reply]

theorem eval_ask_balance {a : Auditor σ} {c : Chain} {I : World σ → Prop}
    (serves : a.node.Serves c I) {s : Session σ} (inv : I s.world) (h : Holding)
    (at? : Option BlockId) :
    ∃ w, I w ∧ (ask (a.node.balance h at?) : Step (Session σ) ε _).eval s =
      (.ok (c.balance h at?), { s with world := w }) := by
  obtain ⟨reply, kept⟩ := serves.balance h at? s.world inv
  refine ⟨_, kept, ?_⟩
  rw [eval_ask, reply]

end Step

/-! ## Raised counters -/

/-- The session with a counter raised by one. -/
def Session.raise (s : Session σ) (c : Counter) : Session σ :=
  { s with store := { s.store with ledger := s.store.ledger.increment c.name 1 } }

theorem Step.eval_count {f : StoreError → ε} {s : Session σ} (isOpen : s.store.closed = false)
    (c : Counter) : (Step.count f c).eval s = (.ok (), s.raise c) := by
  rw [count, eval_bind, eval_onStore, Store.update_eq isOpen]
  rfl

theorem Step.eval_read_of_open {f : StoreError → ε} {s : Session σ}
    (isOpen : s.store.closed = false) :
    (Step.read f : Step (Session σ) ε Ledger).eval s = (.ok s.store.ledger, s) := by
  rw [eval_read, Store.read_of_open isOpen]
  rfl

/-- A read finishes with the ledger, unless the store is closed. -/
theorem Step.ends_read {f : StoreError → ε} {s : Session σ} {Q : Ledger → Session σ → Prop}
    {E : Stop ε → Session σ → Prop} :
    (Step.read f).Ends s Q E ↔
      if s.store.closed then E (.failed (f .closed)) s else Q s.store.ledger s := by
  unfold Ends
  rw [eval_read, Store.read]
  cases s.store.closed <;> exact Iff.rfl

namespace Auditor

/-- What a block changed is tracked, and checked unless no check may run. -/
theorem ends_checkChanges {a : Auditor σ} {cs : List Change} {s : Session σ}
    {Q : Unit → Session σ → Prop} {E : Stop ReconcileError → Session σ → Prop} :
    (a.checkChanges cs).Ends s Q E ↔
      if a.settings.active = 0 ∨ cs = [] then
        Q () { s with tracker := s.tracker.track (cs.map (·.holding)) }
      else
        (a.checkAll cs).Ends { s with tracker := s.tracker.track (cs.map (·.holding)) } Q E := by
  unfold checkChanges
  rw [Step.ends_bind]
  show Step.Ends (if a.settings.active = 0 ∨ cs = [] then pure () else a.checkAll cs) _ Q E ↔ _
  split <;> exact Iff.rfl

/-- A success is told and counted. -/
theorem eval_succeeded (a : Auditor σ) {s : Session σ} (isOpen : s.store.closed = false)
    (kind : Kind) (h : Holding) (block : BlockId) (value : Decimal) :
    (a.succeeded kind h block value).eval s =
      (.ok (), { s with
        world := s.world.tell (a.settings.log.reconciled kind h block.index value) }.raise
          kind.counter) := by
  rw [succeeded, Step.eval_bind, Step.eval_tell]
  exact Step.eval_count (by exact isOpen) kind.counter

end Auditor

namespace Counter

theorem name_injective {c c' : Counter} (h : c.name = c'.name) : c = c' := by
  cases c <;> cases c' <;> first | rfl | exact absurd h (by decide)

/-- The counters of checks that did not fail. -/
def passing : List Counter :=
  [.activeReconciliations, .inactiveReconciliations, .exemptReconciliations,
    .skippedReconciliations]

/-- The counters of checks. -/
def ofChecks : List Counter := .failedReconciliations :: passing

theorem ne_failed_of_passing {c : Counter} (passing : c ∈ Counter.passing) :
    c ≠ .failedReconciliations := by
  rintro rfl
  exact absurd passing (by decide)

end Counter

end BalanceAudit
