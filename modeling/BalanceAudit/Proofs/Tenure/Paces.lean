import BalanceAudit.Proofs.Computed
import BalanceAudit.Proofs.Ledger.Tally

/-!
# What runs do to their stores

Whatever a run does, there are two ways in which it changes its store: a check raises a
counter, and the batch of a block that the node reported is committed. This holds for any
node, whatever it answers and whoever interrupts it.

- `Auditor.Pace`: one such change, or none, and the block that was taken over.
- `Auditor.Paces`: a part of a run that goes by paces.
- `Auditor.stageBalances_fresh`: what staging comes to on any store.
- `Auditor.commitBlock_paces`, `Auditor.runPipeline_paces`: **runs go by paces**.
-/

namespace BalanceAudit

variable {σ ε α : Type}

/-- At some time the node reports the block. -/
def Node.Reports (n : Node σ) (b : Block) : Prop :=
  ∃ index w, (n.block index w).1.reply = some (.ok (some b))

namespace Auditor

open Step (Leaves Along)

variable {a : Auditor σ} {s t u : Session σ} {b : Block}

/-! ## Staging on any store

Nothing is known of the node's answers here. What counts is which holdings are new. -/

/-- A change says whether its holding has no record in the ledger. -/
theorem stageChange_fresh {l : Ledger} (same : s.store.ledger = l) (delta : Holding × Decimal) :
    (a.stageChange b delta).Ends s
      (fun c t => c.holding = delta.1 ∧ c.block = b.id ∧
        c.isNew = !l.balances.contains delta.1 ∧ t.store.ledger = l) (fun _ _ => True) := by
  -- Known or looked up, the previous balance changes neither the ledger nor whether the holding
  -- is new.
  refine stageChange_of_previous (h := delta.1) (d := delta.2)
    (P := fun _ isNew t => isNew = !l.balances.contains delta.1 ∧ t.store.ledger = l)
    (fun _ => trivial) (fun r found => ?_) (fun missing => ?_) ?_
  · rw [same] at found
    exact ⟨by simp [Table.contains, found], same⟩
  · rw [same] at missing
    have opens := openingBalance_outer Session.store (fun _ _ => rfl) a b delta.1
    refine (opens.ends s).mono (fun previous t store => ?_) fun _ _ _ => trivial
    exact ⟨by simp [Table.contains, missing], (congrArg Store.ledger store).trans same⟩
  · rintro previous isNew t ⟨isNew_, same'⟩
    rw [Step.ends_within]
    exact ⟨fun v _ => ⟨rfl, rfl, isNew_, same'⟩, fun _ => trivial⟩

/-- **Staging comes to the batch of a block**, with a change for each holding that the
block reports, which says whether the holding is new. -/
theorem stageBalances_fresh (a : Auditor σ) (b : Block) (s : Session σ) :
    (a.stageBalances b (Batch.ofBlock b)).Ends s
      (fun batch _ => ∃ cs, batch = Batch.changing b cs ∧ s.store.ledger.Fresh cs ∧
        ∀ c ∈ cs, b.reports c.holding = true ∧ c.block = b.id) (fun _ _ => True) := by
  cases deltas : b.deltas? with
  | none =>
    unfold stageBalances
    rw [deltas, Step.ends_bind]
    trivial
  | some ds =>
    refine (stageBalances_each deltas
      (C := fun c => c.block = b.id ∧ c.isNew = !s.store.ledger.balances.contains c.holding)
      (R := fun t => t.store.ledger = s.store.ledger) ?_ rfl).mono ?_ fun _ _ h => h
    · intro h d t _ same
      refine (stageChange_fresh same (h, d)).mono ?_ fun _ _ h => h
      rintro c u ⟨rfl, block, isNew, same'⟩
      exact ⟨⟨rfl, block, isNew⟩, same'⟩
    · rintro _ t ⟨⟨cs, rfl, holdings, each⟩, _⟩
      refine ⟨cs, rfl, ⟨holdings ▸ Block.nodup_deltas? deltas, fun c mem => (each c mem).2⟩, ?_⟩
      exact fun c mem => ⟨(Block.mem_keys_deltas? deltas _).mp
        (holdings ▸ List.mem_map_of_mem mem), (each c mem).1⟩

/-! ## Paces

Every move is a pace or none, the commit apart, of which a move knows the batch and not
where it comes from. So applying a block is cut open there. -/

/-- What a run does at one go to its store, and the block that is taken over. -/
inductive Pace (a : Auditor σ) (s : Session σ) : List Block → Session σ → Prop where
  | rest {t : Session σ} (same : t.store = s.store) : Pace a s [] t
  /-- A check raises a counter. -/
  | check {t : Session σ} {k : Counter} (mem : k ∈ Counter.ofChecks)
      (raised : t.store = (s.raise k).store) : Pace a s [] t
  /-- The batch of a block that the node reported is committed, whether or not the file can
  then be written. -/
  | enter {t u : Session σ} {b : Block} {batch : Batch} (reported : a.node.Reports b)
      (staged : (a.stageBalances b (Batch.ofBlock b)).eval s = (.ok batch, u))
      (accepted : s.store.closed = false ∧ Store.extends? s.store.ledger b.id = .ok ())
      (committed : t.store = (s.store.commit batch).2) : Pace a s [b] t

/-- A part of a run goes by paces, however it ends. -/
abbrev Paces (a : Auditor σ) (x : Step (Session σ) ε α) : Prop :=
  Along (fun s t => ∃ more, a.Pace s more t) x

/-- A move that commits nothing is a pace. -/
theorem Move.pace {p : Scope} (idle : ¬p.commits) (move : a.Move p s t) : a.Pace s [] t := by
  cases move with
  | count k passing => exact .check (List.mem_cons_of_mem _ passing) rfl
  | report f => exact .check List.mem_cons_self rfl
  | commit b commits => exact absurd commits idle
  | _ => exact .rest rfl

theorem paces_of_moves {p : Scope} {x : Step (Session σ) ε α} (moves : a.Moves p x)
    (idle : ¬p.commits) : a.Paces x := fun s =>
  (moves s).lift id fun _ _ move => ⟨[], move.pace idle⟩

/-- A block that the node reported is staged and committed at one go. -/
theorem commitBlock_paces (reported : a.node.Reports b) : a.Paces (a.commitBlock b) := by
  intro s
  have stays := stageBalances_outer Session.store (fun _ _ => rfl) a b (Batch.ofBlock b) s
  have changing := a.stageBalances_fresh b s
  rw [commitBlock, Step.eval_bind, Step.eval_mapError]
  rcases staged : (a.stageBalances b (Batch.ofBlock b)).eval s with ⟨stop | batch, u⟩
  · rw [staged] at stays
    exact .single ⟨[], .rest stays⟩
  · rw [staged] at stays
    obtain ⟨cs, rfl, -, -⟩ := changing.of_ok staged
    dsimp only [Except.mapError] at stays ⊢
    rw [Step.eval_bind, Step.eval_commit]
    have path : ∀ t : Session σ, t.store = (u.store.commit (Batch.changing b cs)).2 →
        ∃ more, a.Pace s more t := by
      intro t store
      rw [stays] at store
      rcases Store.commit_cases s.store (Batch.changing b cs) with ⟨same, _⟩ | ⟨isOpen, next, _⟩
      · exact ⟨[], .rest (store.trans same)⟩
      · rw [Batch.changing_block] at next
        exact ⟨[b], .enter reported staged ⟨isOpen, Store.extends?_eq_ok_iff.mpr next⟩ store⟩
    cases (u.store.commit (Batch.changing b cs)).1 with
    | error e => exact .single (path _ rfl)
    | ok => exact .single (path _ rfl)

theorem applyBlock_paces (a : Auditor σ) (index : Int) :
    a.Paces (a.applyBlock a.workers index) := by
  rw [applyBlock_eq, enterBlock_eq]
  have fetches : a.Paces (a.fetchBlock index) :=
    paces_of_moves (p := { Scope.sweeps with asks := fun _ => True })
      (a.fetchBlock_moves trivial trivial trivial) id
  refine .bind (fetches.bind_of_ends (Q := a.node.Reports)
    (fun s => fetchBlock_replies fun w b reply => ⟨index, w, reply⟩) fun b reported =>
      commitBlock_paces reported) fun r => ?_
  exact paces_of_moves (p := .checks)
    (a.announceBlock_moves r.1 r.2 (a.observer_moves trivial _ _)) id

theorem syncFrom_paces (a : Auditor σ) (last : Option Int) (fuel : Nat) (next : Int) :
    a.Paces (a.syncFrom a.workers last fuel next) := by
  induction fuel generalizing next with
  | zero => exact .idle
  | succ fuel ih =>
    refine .ite (fun _ => .modify fun _ => ⟨[], .rest rfl⟩) fun _ => ?_
    refine (a.applyBlock_paces next).attempt.bind fun result => ?_
    split
    · exact (Along.within _ _).bind fun _ => ih _
    · exact paces_of_moves (p := .sweeps) (a.canceledBefore_moves trivial trivial next) id
    · exact .throw _

theorem follow_paces (a : Auditor σ) (first : Int) (last : Option Int) :
    a.Paces (a.follow first last) := by
  refine .bind ((a.syncFrom_paces last (Index.count + 1) first).mapError _).attempt fun result => ?_
  split
  · exact (paces_of_moves (p := .checks) (a.sweepFailure_moves _) id).bind fun _ => .idle
  · exact .throw _
  · exact .pure _

/-- **A pipeline goes by paces**, whatever comes in between. -/
theorem runPipeline_paces (a : Auditor σ) (first : Int) (last : Option Int) :
    a.Paces (a.runPipeline first last) := by
  have follow := a.follow_paces first last
  have both : a.Paces (a.runBoth first last) := by
    refine .ite (fun _ => follow.bind fun _ => .ite (fun _ => ?_) fun _ => .pure _) fun _ =>
      Along.get.bind fun _ => .ite (fun _ => .fail _) fun _ => .ite (fun _ => ?_) fun _ => follow
    · exact (paces_of_moves (p := .checks) (a.trackKnown_moves _) id).mapError _
    · refine .bind ((paces_of_moves (p := .sweeps) (a.startReconciler_moves trivial trivial)
        id).mapError _) fun _ => ?_
      exact (paces_of_moves (p := .checks) (a.sweepFailure_moves _) id).bind fun _ => follow
  refine .bind both.attempt fun result => .bind (.modify fun _ => ⟨[], .rest rfl⟩) fun _ => ?_
  cases result
  · exact .throw _
  · exact .pure _

end Auditor

end BalanceAudit
