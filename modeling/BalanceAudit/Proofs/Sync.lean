import BalanceAudit.Pipeline
import BalanceAudit.Proofs.Check
import BalanceAudit.Proofs.Moves

/-!
# What applying a block comes to

A served block is staged, committed as a whole, and handed to an observer.

- `Session.Took`: the block and its changes are in the ledger, nothing else
  happened.
- `Auditor.applyBlock_ends`: applying a block ends as its observer ends.
- `Session.Took.value?`, `Session.Took.head?`: balances and head after it.
-/

namespace BalanceAudit

variable {σ : Type}

/-- The block and its changes were committed. -/
structure Session.Took (I : World σ → Prop) (b : Block) (cs : List Change) (s t : Session σ) :
    Prop where
  inv : I t.world
  ledger : ∃ counts : List (String × Count),
    (∀ e ∈ counts, e.1 ∈ [Counter.blocks.name, Counter.transactions.name, Counter.operations.name,
      Counter.seenAccounts.name]) ∧
    t.store.ledger = s.store.ledger.apply ⟨b.id, cs, counts⟩
  mode : s.store.SameMode t.store
  recorder : t.recorder = s.recorder
  sweepers : t.sweepers = s.sweepers
  shutdown : t.shutdown = s.shutdown

namespace Session.Took

variable {I : World σ → Prop} {b : Block} {cs : List Change} {s t : Session σ}
  {V : Holding → Decimal → Prop}

/-- A reported holding has a staged value. -/
theorem value? (took : Session.Took I b cs s t) (staged : b.Staged V cs) {h : Holding}
    (reports : b.reports h = true) :
    ∃ v, (t.store.ledger.balances.find? h).map (·.value) = some v ∧ V h v := by
  obtain ⟨counts, _, eq⟩ := took.ledger
  obtain ⟨change, mem, rfl⟩ := List.mem_map.mp ((staged.mem_iff h).mpr reports)
  refine ⟨change.value, ?_, staged.value change mem⟩
  rw [eq, Ledger.find?_balances_apply (b := ⟨b.id, cs, counts⟩) staged.distinct mem]
  rfl

/-- Every other holding keeps its balance. -/
theorem find?_of_not_reports (took : Session.Took I b cs s t) (staged : b.Staged V cs)
    {h : Holding} (silent : ¬b.reports h = true) :
    t.store.ledger.balances.find? h = s.store.ledger.balances.find? h := by
  obtain ⟨counts, _, eq⟩ := took.ledger
  rw [eq]
  refine Ledger.find?_balances_apply_of_notMem (b := ⟨b.id, cs, counts⟩) fun mem => ?_
  exact silent ((staged.mem_iff h).mp mem)

theorem head? (took : Session.Took I b cs s t)
    (behind : ∀ head, s.store.ledger.head? = some head → head.index < b.id.index) :
    t.store.ledger.head? = some b.id := by
  obtain ⟨counts, _, eq⟩ := took.ledger
  rw [eq]
  exact Ledger.head?_apply (b := ⟨b.id, cs, counts⟩) behind

theorem counted (took : Session.Took I b cs s t) {k : Counter}
    (other : k.name ∉ [Counter.blocks.name, Counter.transactions.name, Counter.operations.name,
      Counter.seenAccounts.name]) : t.counted k = s.counted k := by
  obtain ⟨counts, names, eq⟩ := took.ledger
  unfold Session.counted
  rw [eq, Ledger.counted_apply_of_notMem (b := ⟨b.id, cs, counts⟩)]
  intro mem
  obtain ⟨e, mem, same⟩ := List.mem_map.mp mem
  exact other (same ▸ names e mem)

/-- A call before the block changes nothing about it. -/
theorem of_asked {w : World σ} (took : Session.Took I b cs { s with world := w } t) :
    Session.Took I b cs s t :=
  ⟨took.inv, took.ledger, took.mode, took.recorder, took.sweepers, took.shutdown⟩

/-- Nor does telling of it. -/
theorem told {a : Auditor σ} {c : Chain} (serves : a.node.Serves c I)
    (took : Session.Took I b cs s t) : Session.Took I b cs s (a.told b cs t) :=
  { took with inv := serves.tell _ _ (serves.tell _ _ took.inv) }

end Session.Took

namespace Auditor

variable {a : Auditor σ} {c : Chain} {I : World σ → Prop} {s : Session σ} {b : Block} {index : Int}

theorem fetchBlock_ends (serves : a.node.Serves c I) (inv : I s.world)
    (running : s.isOver = false) (found : c.blocks.find? index = some b) :
    (a.fetchBlock index).Ends s (fun b' t => b' = b ∧ Session.Asked I s t) (fun _ _ => False) := by
  unfold fetchBlock
  rw [Step.ends_bind, Step.ends_get]
  unfold fetchFrom proceed
  rw [Step.ends_bind, Step.ends_bind, Step.ends_get, running, if_neg Bool.false_ne_true,
    Step.ends_pure, Step.ends_bind]
  obtain ⟨w, inv', eq⟩ := Step.eval_ask_block (ε := SyncError) serves inv index
  refine Step.ends_of_ok eq ?_
  rw [found]
  exact ⟨rfl, w, inv', rfl⟩

section Serves

variable (serves : a.node.Serves c I) (isOpen : s.store.closed = false)
  (canWrite : s.store.canWrite = true)
  (next : ∀ head, s.store.ledger.head? = some head → Index.next? head.index = some b.id.index)
  (opens : a.settings.lookup = true → b.isGenesis = true ∨ c.Has b.parent)
  {ds : List (Holding × Decimal)} (deltas : b.deltas? = some ds) {V : Holding → Decimal → Prop}
  (sums : ∀ h d, (h, d) ∈ ds → ∃ v, (a.prior c s.store.ledger b h).add? d = some v ∧ V h v)

include serves isOpen canWrite next opens deltas sums

/-- A block whose balances can be staged is committed with them. -/
theorem commitBlock_takes (inv : I s.world) :
    (a.commitBlock b).Ends s
      (fun r t => r.1 = b ∧ b.Staged V r.2.changes ∧ Session.Took I b r.2.changes s t)
      (fun _ _ => False) := by
  unfold commitBlock
  rw [Step.ends_bind, Step.ends_mapError]
  refine (stageBalances_ends serves inv isOpen opens deltas sums).mono ?_ fun _ _ h => h.elim
  rintro _ t ⟨⟨cs, rfl, staged⟩, w, inv', rfl⟩
  obtain ⟨counts, names, same⟩ := Batch.changing_counts b cs
  rw [same, Step.ends_bind]
  -- The commit is in order and the file can be written.
  have committed := Store.commit_result (s := s.store) (b := ⟨b.id, cs, counts⟩) isOpen next
  have ok := committed.resolve_right fun broken => by
    rw [canWrite] at broken
    cases broken.2
  refine Step.ends_of_ok (a := ()) (by rw [Step.eval_commit, ok]; rfl) ?_
  exact ⟨rfl, staged, inv', ⟨counts, names, Store.commit_ledger isOpen next⟩,
    Store.commit_sameMode isOpen next, rfl, rfl, rfl⟩

/-- A served block is entered with what is staged for it. -/
theorem enterBlock_takes (inv : I s.world) (running : s.isOver = false)
    (found : c.blocks.find? index = some b) :
    (a.enterBlock index).Ends s
      (fun r t => r.1 = b ∧ b.Staged V r.2.changes ∧ Session.Took I b r.2.changes s t)
      (fun _ _ => False) := by
  rw [enterBlock_eq, Step.ends_bind]
  refine (fetchBlock_ends serves inv running found).mono ?_ fun _ _ h => h.elim
  rintro _ _ ⟨rfl, w, inv', rfl⟩
  have takes := commitBlock_takes (s := { s with world := w }) serves isOpen canWrite next opens
    deltas sums inv'
  exact takes.mono (fun _ _ ⟨same, staged, took⟩ => ⟨same, staged, took.of_asked⟩) fun _ _ h => h

/-- **A served block is applied up to its observer.** Whatever the observer of the
committed changes comes to is what applying the block comes to. -/
theorem applyBlock_ends (inv : I s.world) (running : s.isOver = false)
    (found : c.blocks.find? index = some b)
    {observer : Option (Observer σ)} {Q : Session σ → Prop} {E : Stop SyncError → Session σ → Prop}
    (observes : ∀ cs t, b.Staged V cs → Session.Took I b cs s t →
      (a.observed observer b cs).Ends t (fun _ => Q)
        (fun stop => E ((stop.map .reconcile).map (.worker b.id)))) :
    (a.applyBlock [a.balanceWorker observer] index).Ends s (fun _ => Q) E := by
  rw [applyBlock_eq, Step.ends_bind]
  refine (enterBlock_takes serves isOpen canWrite next opens deltas sums inv running found).mono ?_
    fun _ _ h => h.elim
  rintro ⟨_, batch⟩ t ⟨rfl, staged, took⟩
  rw [ends_announceBlock]
  exact observes batch.changes _ staged (took.told serves)

end Serves

end Auditor

end BalanceAudit
