import BalanceAudit.Proofs.Moves

/-!
# Who touches the books

The blocks and balances of a store change when a block is committed and at no
other moment: not while the node is asked, not in checks of either kind, and not
while time passes. This holds for any node, whatever it answers and whoever
interrupts it.

- `Step.Leaves`: a step that leaves a part of the state as it is, whether it
  finishes or stops.
- `Session.books`: the blocks and balances of a session.
- `Auditor.Move.books`: no other move changes them; so `Auditor.checkChanges_leaves`,
  `Auditor.pause_leaves`, `Auditor.fetchBlock_leaves` and others.
- `Auditor.runPipeline_ends_of_sync`: so a pipeline has the books of the run inside it.
-/

namespace BalanceAudit

/-! ## Parts of the state that steps leave alone

A part of the state is any function of it. What is put together from steps that leave it
alone leaves it alone, however it ends. -/

namespace Step

variable {S ε ε' α β γ : Type} {part : S → γ}

/-- Whether it finishes or stops, the step leaves a part of the state as it is. -/
def Leaves (part : S → γ) (x : Step S ε α) : Prop := ∀ s, part (x.eval s).2 = part s

theorem Leaves.pure (a : α) : Leaves part (Pure.pure a : Step S ε α) := fun _ => rfl

/-- Two steps in a row leave what both of them leave. -/
theorem Leaves.bind {x : Step S ε α} {f : α → Step S ε β} (h : Leaves part x)
    (later : ∀ a, Leaves part (f a)) : Leaves part (x >>= f) := by
  intro s
  rw [eval_bind]
  have first := h s
  revert first
  -- The second step is not reached if the first one stopped.
  rcases x.eval s with ⟨_ | a, t⟩ <;> intro first
  · exact first
  · exact (later a t).trans first

theorem Leaves.mapError {x : Step S ε α} (f : ε → ε') (h : Leaves part x) :
    Leaves part (Step.mapError f x) := h

/-- A step for each element leaves what the step for any element leaves. -/
theorem Leaves.mapM {f : β → Step S ε α} (each : ∀ c, Leaves part (f c)) (l : List β) :
    Leaves part (l.mapM f) := by
  induction l with
  | nil => exact .pure []
  | cons c cs ih =>
    rw [List.mapM_cons]
    exact (each c).bind fun _ => ih.bind fun _ => .pure _

theorem Leaves.ofExcept (f : ε → ε') (r : Except ε α) :
    Leaves part (Step.ofExcept f r : Step S ε' α) := fun s => by cases r <;> rfl

theorem Leaves.within (what : Overflow) (r : Option α) :
    Leaves part (Step.within what r : Step S ε α) := fun s => by
  cases r <;> rfl

/-- However the step ends, the part is as it was. -/
theorem Leaves.ends {x : Step S ε α} (h : Leaves part x) (s : S) :
    x.Ends s (fun _ t => part t = part s) (fun _ t => part t = part s) := by
  have here := h s
  unfold Ends
  rcases eq : x.eval s with ⟨_ | a, t⟩
  all_goals
    rw [eq] at here
    exact here

end Step

/-! ## Blocks and balances

Every part of a run goes by moves, and of these a commit alone writes to the books. So each
lemma names the part and nothing else. -/

variable {σ ε α : Type}

/-- The blocks and balances of a session. -/
def Session.books (s : Session σ) : Table Int String × Table Holding Balance :=
  (s.store.ledger.blocks, s.store.ledger.balances)

namespace Step

theorem tell_leaves (es : List Event) :
    Leaves Session.books (tell es : Step (Session σ) ε Unit) := fun _ => rfl

variable {γ : Type} {part : Session σ → γ}

/-- A read leaves everything. -/
theorem Leaves.read (f : StoreError → ε) :
    Leaves part (Step.read f : Step (Session σ) ε Ledger) := fun s => by
  rw [eval_read]

/-- A call changes nothing but the world. -/
theorem Leaves.ask (outer : ∀ s w, part { s with world := w } = part s)
    (call : σ → Answer α × σ) : Leaves part (Step.ask call : Step (Session σ) ε _) := fun s => by
  rw [eval_ask]
  exact outer s _

end Step

namespace Auditor

open Step (Leaves)

variable {a : Auditor σ} {p : Scope} {s t : Session σ}

section Staging

variable {γ : Type} (part : Session σ → γ) (outer : ∀ s w, part { s with world := w } = part s)

include outer

/-! Staging changes nothing but the world. -/

/-- A past balance may be asked for, and that is all. -/
theorem openingBalance_outer (a : Auditor σ) (b : Block) (h : Holding) :
    Leaves part (a.openingBalance b h) := by
  unfold openingBalance
  split
  · exact .pure _
  · exact (Leaves.ask outer _).bind fun _ => (Leaves.ofExcept _ _).bind fun _ => .pure _

/-- The store is read only. -/
theorem stageChange_outer (a : Auditor σ) (b : Block) (delta : Holding × Decimal) :
    Leaves part (a.stageChange b delta) := by
  refine (Leaves.read _).bind fun l => ?_
  dsimp only
  split
  · exact (Leaves.pure _).bind fun _ => (Leaves.within _ _).bind fun _ => .pure _
  · exact (openingBalance_outer part outer a b _).bind fun _ =>
      (Leaves.within _ _).bind fun _ => .pure _

/-- So it is for all changes of a block. -/
theorem stageBalances_outer (a : Auditor σ) (b : Block) (batch : Batch) :
    Leaves part (a.stageBalances b batch) := by
  refine (Leaves.within _ _).bind fun ds =>
    (Leaves.mapM (stageChange_outer part outer a b) ds).bind fun cs => ?_
  dsimp only
  split <;> exact .pure _

end Staging

/-- Only commits change the books. -/
theorem Move.books (idle : ¬p.commits) (move : a.Move p s t) : t.books = s.books := by
  cases move with
  | commit b allowed => exact absurd allowed idle
  | _ => rfl

/-- A part of a run that does not commit leaves the books. -/
theorem leaves_of_moves {x : Step (Session σ) ε α} (moves : a.Moves p x)
    (idle : ¬p.commits) : Leaves Session.books x := fun s =>
  moves.keeps (P := fun t => t.books = s.books)
    (fun _ _ move same => (move.books idle).trans same) rfl

variable (a)

/-- A check does not commit, and so leaves the books. -/
theorem checkActive_leaves (c : Change) : Leaves Session.books (a.checkActive c) :=
  leaves_of_moves (p := .checks) (a.checkActive_moves trivial c) id

/-- All checks of a block together leave them. -/
theorem checkChanges_leaves (cs : List Change) : Leaves Session.books (a.checkChanges cs) :=
  leaves_of_moves (p := .checks) (a.checkChanges_moves trivial cs) id

/-- A wait for the end leaves them, whatever is swept meanwhile. -/
theorem awaitEnd_leaves : Leaves Session.books (a.awaitEnd : Step (Session σ) ε Unit) :=
  leaves_of_moves (p := .sweeps) (a.awaitEnd_moves trivial trivial) id

theorem proceed_leaves : Leaves Session.books (proceed : Step (Session σ) ε Unit) := fun s => by
  rw [proceed, Step.eval_bind, Step.eval_get]
  dsimp only
  split <;> rfl

/-- A pause leaves them. -/
theorem pause_leaves (ms : Nat) : Leaves Session.books (a.pause ms : Step (Session σ) ε Unit) :=
  leaves_of_moves (p := .sweeps) (a.pause_moves trivial trivial ms) id

/-- A run that was canceled says so and leaves them. -/
theorem canceledBefore_leaves (next : Int) : Leaves Session.books (a.canceledBefore next) :=
  leaves_of_moves (p := .sweeps) (a.canceledBefore_moves trivial trivial next) id

theorem trackKnown_leaves : Leaves Session.books (a.trackKnown : Step (Session σ) _ _) :=
  leaves_of_moves (a.trackKnown_moves {}) id

/-- The first round of sweeps leaves them too. -/
theorem startReconciler_leaves : Leaves Session.books (a.startReconciler : Step (Session σ) _ _) :=
  leaves_of_moves (p := .sweeps) (a.startReconciler_moves trivial trivial) id

theorem sweepFailure_leaves :
    Leaves Session.books (sweepFailure : Step (Session σ) PipelineError Unit) := fun s => by
  rw [sweepFailure, Step.eval_bind, Step.eval_get]
  dsimp only
  split <;> rfl

/-- A fetch only asks, however often it pauses. -/
theorem fetchBlock_leaves (index : Int) : Leaves Session.books (a.fetchBlock index) :=
  leaves_of_moves (p := { Scope.sweeps with asks := fun _ => True })
    (a.fetchBlock_moves trivial trivial trivial) id

theorem stageChange_leaves (b : Block) (delta : Holding × Decimal) :
    Leaves Session.books (a.stageChange b delta) :=
  leaves_of_moves (a.stageChange_moves {} b delta) id

/-- Staging is not committing yet. -/
theorem stageBalances_leaves (b : Block) (batch : Batch) :
    Leaves Session.books (a.stageBalances b batch) :=
  leaves_of_moves (a.stageBalances_moves {} b batch) id

/-! ## Pipelines -/

/-- **A pipeline ends as following the chain does**, as far as the books are
concerned: what is done around it leaves them. -/
theorem runPipeline_ends_of_sync {first : Int} {last : Option Int} {s : Session σ}
    {Q E : Session σ → Prop}
    (sync : ∀ t, t.books = s.books →
      (a.sync a.workers first last).Ends t (fun _ => Q) (fun _ => E))
    (goes : ∀ t u, u.books = t.books → Q t → Q u) (stops : ∀ t u, u.books = t.books → E t → E u)
    (weaker : ∀ t, Q t → E t) (start : E s) :
    (a.runPipeline first last).Ends s (fun _ => Q) (fun _ => E) := by
  have still : ∀ t, t.books = s.books → E t := fun t same => stops s t same start
  -- Behind the sync only the error of a sweep may be raised.
  have follow : ∀ t, t.books = s.books →
      (a.follow first last).Ends t (fun _ => Q) (fun _ => E) := by
    intro t same
    unfold Auditor.follow
    rw [Step.ends_bind, Step.ends_attempt, Step.ends_mapError]
    refine (sync t same).mono (fun _ _ h => h) fun stop u h => ?_
    cases stop with
    | idle =>
      show Step.Ends (sweepFailure >>= _) u _ _
      rw [Step.ends_bind]
      exact (sweepFailure_leaves.ends u).mono (fun _ v same => stops u v same h)
        fun _ v same => stops u v same h
    | failed cause => exact h
    | overflow => exact h
  -- In front of it what is known is tracked, and a first round of sweeps is made.
  have both : (a.runBoth first last).Ends s (fun _ => Q) (fun _ => E) := by
    unfold runBoth
    split
    · rw [Step.ends_bind]
      refine (follow s rfl).mono (fun _ t h => ?_) fun _ _ h => h
      split
      · exact ((a.trackKnown_leaves.mapError _).ends t).mono (fun _ u same => goes t u same h)
          fun _ u same => stops t u same (weaker t h)
      · exact h
    · rw [Step.ends_bind, Step.ends_get]
      split
      · exact start
      · split
        · rw [Step.ends_bind]
          refine ((a.startReconciler_leaves.mapError _).ends s).mono (fun _ t same => ?_)
            fun _ t same => still t same
          rw [Step.ends_bind]
          exact (sweepFailure_leaves.ends t).mono (fun _ u same' => follow u (same'.trans same))
            fun _ u same' => still u (same'.trans same)
        · exact follow s rfl
  unfold runPipeline
  rw [Step.ends_bind, Step.ends_attempt]
  refine both.mono (fun _ t h => goes t _ rfl h) fun stop t h => ?_
  rw [Step.ends_bind]
  exact stops t _ rfl h

end Auditor

end BalanceAudit
