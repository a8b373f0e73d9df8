import Mathlib.Logic.Relation
import BalanceAudit.Pipeline
import BalanceAudit.Proofs.Served
import BalanceAudit.Proofs.Step

/-!
# The moves of a run

Whatever a run does comes down to a few moves: calls of the node, time that
passes, what is told, counted, tracked and kept, commits, and the end of the
range. This holds for any node, whatever it answers and whoever interrupts it.

- `Auditor.commitBlock`, `Auditor.enterBlock`, `Auditor.announceBlock`: the parts of
  applying a block.
- `Auditor.ends_announceBlock`, `Auditor.ends_sweepFailure`, `Auditor.eval_trackKnown`: what
  small parts of a run come to.
- `Auditor.Scope`: which blocks a part of a run may ask for, and whether it may
  report failures, wait, commit and end the range.
- `Auditor.Move`: one move; `Auditor.Moves`: a part of a run as moves one after
  another, however it ends.
- `Auditor.checkActive_moves`, `Auditor.sweep_moves` and so on: every part of a
  run is one; `Auditor.runBoth_moves`: and so is the run.
- `Step.Along.keeps`: what every move keeps, the part of the run keeps.
-/

namespace BalanceAudit

/-! ## Steps along a relation

One lemma for each way of putting steps together, so that a part of a run is dealt with by
following its text. -/

namespace Step

variable {S ε ε' α β : Type} {R : S → S → Prop}

/-- Whether it finishes or stops, the step goes along `R`, any number of times. -/
def Along (R : S → S → Prop) (x : Step S ε α) : Prop :=
  ∀ s, Relation.ReflTransGen R s (x.eval s).2

namespace Along

theorem pure (a : α) : Along R (Pure.pure a : Step S ε α) := fun _ => .refl

theorem throw (stop : Stop ε) : Along R (MonadExcept.throw stop : Step S ε α) := fun _ => .refl

theorem fail (cause : ε) : Along R (Step.fail cause : Step S ε α) := fun _ => .refl

theorem idle : Along R (Step.idle : Step S ε α) := fun _ => .refl

theorem get : Along R (MonadState.get : Step S ε S) := fun _ => .refl

theorem modify {f : S → S} (h : ∀ s, R s (f s)) : Along R (modify f : Step S ε PUnit) :=
  fun s => .single (h s)

/-- Taking over a result goes nowhere, whichever it is. -/
theorem ofExcept (f : ε → ε') (r : Except ε α) : Along R (Step.ofExcept f r : Step S ε' α) := by
  cases r <;> exact fun _ => .refl

/-- Nor does arithmetic, whether or not it overflows. -/
theorem within (what : Overflow) (r : Option α) :
    Along R (Step.within what r : Step S ε α) := by
  cases r <;> exact fun _ => .refl

/-- The second step may rely on what the first one finished with. -/
theorem bind_of_ends {x : Step S ε α} {f : α → Step S ε β} {Q : α → Prop} (h : Along R x)
    (ends : ∀ s, x.Ends s (fun a _ => Q a) (fun _ _ => True))
    (later : ∀ a, Q a → Along R (f a)) : Along R (x >>= f) := by
  intro s
  rw [eval_bind]
  have first := h s
  rcases eq : x.eval s with ⟨_ | a, t⟩
  · rw [eq] at first
    exact first
  · rw [eq] at first
    exact first.trans (later a ((ends s).of_ok eq) t)

/-- Of two steps in a row each goes along `R`, the second whatever the first one finished
with. -/
theorem bind {x : Step S ε α} {f : α → Step S ε β} (h : Along R x)
    (later : ∀ a, Along R (f a)) : Along R (x >>= f) :=
  h.bind_of_ends (Q := fun _ => True)
    (Ends.any x) fun a _ => later a

theorem attempt {x : Step S ε α} (h : Along R x) : Along R (Step.attempt x : Step S ε' _) := h

theorem mapError {x : Step S ε α} (f : ε → ε') (h : Along R x) : Along R (Step.mapError f x) := h

theorem ite {p : Prop} [Decidable p] {x y : Step S ε α} (yes : p → Along R x)
    (no : ¬p → Along R y) : Along R (if p then x else y) := by
  split
  · next h => exact yes h
  · next h => exact no h

/-- A step for each element goes along `R` if the step for any element does. -/
theorem mapM {γ : Type} {f : γ → Step S ε α} (h : ∀ c, Along R (f c)) (l : List γ) :
    Along R (l.mapM f) := by
  induction l with
  | nil => exact Along.pure []
  | cons c cs ih =>
    rw [List.mapM_cons]
    exact (h c).bind fun _ => ih.bind fun _ => Along.pure _

/-- What `R` keeps, the step keeps, however it ends. -/
theorem keeps {P : S → Prop} {x : Step S ε α} (h : Along R x) (kept : ∀ s t, R s t → P s → P t)
    {s : S} (start : P s) : P (x.eval s).2 := by
  -- Induction on the path: what holds at its start holds wherever it ends.
  have along : ∀ t, Relation.ReflTransGen R s t → P t := by
    intro t path
    induction path with
    | refl => exact start
    | tail _ move ih => exact kept _ _ move ih
  exact along _ (h s)

/-- What `R` keeps holds at the end of the step, whether it finishes or stops. -/
theorem ends {P : S → Prop} {x : Step S ε α} (h : Along R x) (kept : ∀ s t, R s t → P s → P t)
    {s : S} (start : P s) : x.Ends s (fun _ => P) (fun _ => P) := by
  have final := h.keeps kept start
  unfold Ends
  rcases eq : x.eval s with ⟨_ | a, t⟩
  all_goals
    rw [eq] at final
    exact final

end Along

end Step

namespace Auditor

variable {σ ε : Type}

/-! ## Moves

The scope says which moves a part of a run may make, so that one relation serves for checks,
for sweeps and for whole runs. -/

/-- What a part of a run may do besides asking for balances, telling and counting. -/
structure Scope where
  /-- The blocks it may ask for. -/
  asks : Int → Prop := fun _ => False
  /-- Whether it may report failures, as checks do. -/
  reports : Prop := False
  /-- Whether it may wait, with the sweeps that fall into it. -/
  waits : Prop := False
  /-- Whether it may commit. -/
  commits : Prop := False
  /-- Whether it may end the range. -/
  finishes : Prop := False

namespace Scope

/-- What checks may do. -/
def checks : Scope := { reports := True }

/-- What may happen while a run waits. -/
def sweeps : Scope := { reports := True, waits := True }

/-- What may happen before the range is done. -/
def within : Scope := { asks := fun _ => True, reports := True, waits := True, commits := True }

/-- Whatever may happen in a run. -/
def all : Scope := { within with finishes := True }

end Scope

end Auditor

namespace Session

variable {σ : Type}

/-- The range is done: the shutdown token is canceled. -/
def finish (s : Session σ) : Session σ :=
  { s with world.cancellation := s.world.cancellation.cancel s.shutdown }

/-- A failure is counted, told, and kept if it ends the run. -/
def report (s : Session σ) (halts : Bool) (f : Failure) : Session σ :=
  { s.raise .failedReconciliations with
    world := s.world.tell [.mismatch f halts]
    recorder := if halts then s.recorder.keep f else s.recorder }

end Session

namespace Step

variable {σ ε : Type}

/-- What the store answers decides how the step ends. -/
theorem ends_onStore {α : Type} {f : StoreError → ε}
    {op : Store → Except StoreError α × Store} {s : Session σ}
    {Q : α → Session σ → Prop} {E : Stop ε → Session σ → Prop}
    (ok : ∀ a, (op s.store).1 = .ok a → Q a { s with store := (op s.store).2 })
    (error : ∀ e, (op s.store).1 = .error e →
      E (.failed (f e)) { s with store := (op s.store).2 }) :
    (onStore f op).Ends s Q E := by
  unfold Ends
  rw [eval_onStore]
  cases result : (op s.store).1 with
  | ok a => exact ok a result
  | error e => exact error e result

/-- What the store makes of the batch decides how a commit ends. -/
theorem ends_commit {f : StoreError → ε} {b : Batch} {s : Session σ}
    {Q : Unit → Session σ → Prop} {E : Stop ε → Session σ → Prop}
    (ok : (s.store.commit b).1 = .ok () → Q () { s with store := (s.store.commit b).2 })
    (error : ∀ stop, (s.store.commit b).1 = .error stop →
      E (stop.map f) { s with store := (s.store.commit b).2 }) :
    (commit f b).Ends s Q E := by
  unfold Ends
  rw [eval_commit]
  cases result : (s.store.commit b).1 with
  | ok => exact ok result
  | error stop => exact error stop result

/-- A closed store counts nothing. -/
theorem eval_count_of_closed {f : StoreError → ε} {s : Session σ}
    (closed : s.store.closed = true) (c : Counter) :
    (count f c).eval s = (.error (.failed (f .closed)), s) := by
  rw [count, eval_bind, eval_onStore, Store.update, Store.read, if_pos closed]
  rfl

end Step

namespace Batch

/-- The batch counts no failures. -/
def Plain (b : Batch) : Prop := ∀ e ∈ b.counts, e.1 ≠ Counter.failedReconciliations.name

/-- Only the counter of failures goes by its name. -/
theorem name_ne_failed {c : Counter} (other : c ≠ .failedReconciliations) :
    c.name ≠ Counter.failedReconciliations.name := fun same => other (Counter.name_injective same)

/-- A block by itself counts blocks, transactions and operations only. -/
theorem plain_ofBlock (b : Block) : (ofBlock b).Plain := by
  intro e mem
  simp only [ofBlock, List.mem_cons, List.not_mem_nil, or_false] at mem
  rcases mem with rfl | rfl | rfl
  · exact name_ne_failed (c := .blocks) (by decide)
  · exact name_ne_failed (c := .transactions) (by decide)
  · exact name_ne_failed (c := .operations) (by decide)

end Batch

/-- A commit, refused or not, leaves the store open and as persistent as it was. -/
theorem Store.commit_mode (s : Store) (b : Batch) : Store.SameMode s (s.commit b).2 := by
  rcases Store.commit_cases s b with ⟨same, _⟩ | ⟨isOpen, next, _⟩
  · rw [same]
    exact .refl s
  · exact Store.commit_sameMode isOpen next

namespace LogOptions

variable (o : LogOptions)

/-- A line that tells of a block reports no failure. -/
theorem block_harmless (b : Block) : ∀ e ∈ o.block b, e.failure? = none := by
  intro e mem
  unfold block at mem
  split at mem
  · rw [List.mem_singleton.mp mem]
    rfl
  · cases mem

/-- Nor does a line that tells of a change. -/
theorem changes_harmless (cs : List Change) : ∀ e ∈ o.changes cs, e.failure? = none := by
  intro e mem
  unfold changes at mem
  split at mem
  · obtain ⟨c, _, rfl⟩ := List.mem_map.mp mem
    rfl
  · cases mem

/-- Nor does one that tells of a balance found right. -/
theorem reconciled_harmless (kind : Kind) (h : Holding) (index : Int) (value : Decimal) :
    ∀ e ∈ o.reconciled kind h index value, e.failure? = none := by
  intro e mem
  unfold reconciled at mem
  split at mem
  · rw [List.mem_singleton.mp mem]
    rfl
  · cases mem

end LogOptions

namespace Auditor

/-! ## The parts of applying a block

Applying a block is cut at the commit: what comes before may refuse the block, what comes
behind may not. -/

section Parts

variable {σ : Type}

/-- Stages a fetched block and commits it. -/
def commitBlock (a : Auditor σ) (b : Block) : Step (Session σ) SyncError (Block × Batch) := do
  let batch ← Step.mapError (.worker b.id) (a.stageBalances b (Batch.ofBlock b))
  Step.commit .store batch
  return (b, batch)

/-- Fetches a block, stages it and commits it. -/
def enterBlock (a : Auditor σ) (index : Int) : Step (Session σ) SyncError (Block × Batch) := do
  let b ← a.fetchBlock index
  let batch ← Step.mapError (.worker b.id) (a.stageBalances b (Batch.ofBlock b))
  Step.commit .store batch
  return (b, batch)

/-- Tells of a committed block and hands its changes on. -/
def announceBlock (a : Auditor σ) (observer : Option (Observer σ)) (b : Block) (batch : Batch) :
    Step (Session σ) SyncError Unit := do
  Step.tell (a.settings.log.block b)
  Step.mapError (.worker b.id) (a.observeBalances observer b batch)

/-- Up to its commit a block is fetched, staged and entered. -/
theorem enterBlock_eq (a : Auditor σ) (index : Int) :
    a.enterBlock index = a.fetchBlock index >>= a.commitBlock := rfl

/-- With the balance worker alone, a block is applied by entering it and then telling of it. -/
theorem applyBlock_eq (a : Auditor σ) (observer : Option (Observer σ)) (index : Int) :
    a.applyBlock [a.balanceWorker observer] index =
      (do let (b, batch) ← a.enterBlock index; a.announceBlock observer b batch) := by
  simp [applyBlock, enterBlock, announceBlock, balanceWorker, bind_assoc]

/-- A session in which a block and its changes were told. -/
def told (a : Auditor σ) (b : Block) (cs : List Change) (s : Session σ) : Session σ :=
  { s with
    world := (s.world.tell (a.settings.log.block b)).tell (a.settings.log.changes cs) }

/-- The block and its changes are told, and then the observer sees the changes. -/
theorem ends_announceBlock {a : Auditor σ} {observer : Option (Observer σ)} {b : Block}
    {batch : Batch} {s : Session σ} {Q : Unit → Session σ → Prop}
    {E : Stop SyncError → Session σ → Prop} :
    (a.announceBlock observer b batch).Ends s Q E ↔
      (a.observed observer b batch.changes).Ends (a.told b batch.changes s) Q
        (fun stop => E ((stop.map .reconcile).map (.worker b.id))) := by
  unfold announceBlock observeBalances
  rw [Step.ends_bind]
  show Step.Ends (Step.mapError _ _) _ _ _ ↔ _
  rw [Step.ends_mapError, Step.ends_bind]
  show Step.Ends (Step.mapError _ _) _ _ _ ↔ _
  rw [Step.ends_mapError]
  exact Iff.rfl

end Parts

/-! ## The parts of a run

The moves themselves: one constructor for each thing that a run does to its session. -/

section Parts

variable {σ : Type}

/-- An error that a sweep met is raised. -/
theorem ends_sweepFailure {s : Session σ} {Q : Unit → Session σ → Prop}
    {E : Stop PipelineError → Session σ → Prop} :
    sweepFailure.Ends s Q E ↔
      match s.sweepers.failure with
      | some e => E (.failed (.reconcile e)) s
      | none => Q () s := by
  unfold sweepFailure
  rw [Step.ends_bind, Step.ends_get]
  cases s.sweepers.failure <;> exact Iff.rfl

/-- What is stored is tracked, and what is interesting. -/
theorem eval_trackKnown (a : Auditor σ) {s : Session σ} (isOpen : s.store.closed = false) :
    a.trackKnown.eval s = (.ok (), { s with
      tracker := s.tracker.track (s.store.ledger.holdings ++ a.settings.interesting) }) := by
  rw [trackKnown, Step.eval_bind, Step.eval_read_of_open isOpen]
  rfl

end Parts

variable {σ ε : Type}

/-- One move of a part of a run. -/
inductive Move (a : Auditor σ) (p : Scope) (s : Session σ) : Session σ → Prop where
  | fetch {index : Int} (allowed : p.asks index) :
      Move a p s { s with world := (s.world.call (a.node.block index)).2 }
  | lookup (h : Holding) (at? : Option BlockId) :
      Move a p s { s with world := (s.world.call (a.node.balance h at?)).2 }
  | elapse (ms : Nat) (allowed : p.waits) : Move a p s { s with world := s.world.elapse ms }
  | giveUp (allowed : p.waits) : Move a p s { s with world := s.world.obey s.world.surrender }
  | tell (es : List Event) (harmless : ∀ e ∈ es, e.failure? = none) :
      Move a p s { s with world := s.world.tell es }
  | track (tracker : Tracker) : Move a p s { s with tracker }
  | rest (sweepers : Sweepers) (allowed : p.waits) : Move a p s { s with sweepers }
  | count (c : Counter) (passing : c ∈ Counter.passing) : Move a p s (s.raise c)
  | report (f : Failure) (allowed : p.reports) (isOpen : s.store.closed = false) :
      Move a p s (s.report a.settings.halt f)
  | commit (b : Batch) (allowed : p.commits) (plain : b.Plain) :
      Move a p s { s with store := (s.store.commit b).2 }
  | finish (allowed : p.finishes) : Move a p s s.finish

namespace Move

variable {a : Auditor σ} {p : Scope} {s t : Session σ}

/-- A run neither closes its store nor makes it a persistent one. -/
theorem mode (move : a.Move p s t) : s.store.SameMode t.store := by
  cases move with
  | commit b => exact Store.commit_mode s.store b
  | count c => exact .setLedger _ _
  | report f => exact .setLedger _ _
  | _ => exact .refl _

/-- Only a wait touches the sweepers. -/
theorem sweepers (busy : ¬p.waits) (move : a.Move p s t) : t.sweepers = s.sweepers := by
  cases move with
  | rest _ waits => exact absurd waits busy
  | _ => rfl

end Move

/-- A part of a run goes by moves, however it ends. -/
abbrev Moves (a : Auditor σ) (p : Scope) (x : Step (Session σ) ε α) : Prop :=
  Step.Along (a.Move p) x

variable (a : Auditor σ) (p : Scope)

open Step (Along)

/-! ## What runs are made of

Calls, reads, tracking, telling and counting are a move each, or none at all. -/

/-- A call for a balance is one move, in any scope. -/
theorem ask_balance_moves (h : Holding) (at? : Option BlockId) :
    a.Moves p (Step.ask (a.node.balance h at?) : Step (Session σ) ε _) := by
  intro s
  rw [Step.eval_ask]
  exact .single (.lookup h at?)

/-- A call for a block is one move, if the scope allows for that block. -/
theorem ask_block_moves {index : Int} (allowed : p.asks index) :
    a.Moves p (Step.ask (a.node.block index) : Step (Session σ) ε _) := by
  intro s
  rw [Step.eval_ask]
  exact .single (.fetch allowed)

/-- A read leaves the session as it is, even of a closed store. -/
theorem read_moves (f : StoreError → ε) :
    a.Moves p (Step.read f : Step (Session σ) ε Ledger) := by
  intro s
  rw [Step.eval_read]

theorem track_moves (f : Tracker → Tracker) :
    a.Moves p (Step.onTracker f : Step (Session σ) ε Unit) := fun s =>
  .single (.track (f s.tracker))

/-- Telling is a move unless it reports a failure, which is a move of its own. -/
theorem tell_moves {es : List Event} (harmless : ∀ e ∈ es, e.failure? = none) :
    a.Moves p (Step.tell es : Step (Session σ) ε Unit) := fun _ => .single (.tell es harmless)

/-- So is counting, for any counter but that of failures; a closed store counts nothing. -/
theorem count_moves (f : StoreError → ε) {c : Counter} (passing : c ∈ Counter.passing) :
    a.Moves p (Step.count f c : Step (Session σ) ε Unit) := by
  intro s
  cases closed : s.store.closed with
  | false =>
    rw [Step.eval_count closed]
    exact .single (.count c passing)
  | true => rw [Step.eval_count_of_closed closed]

/-! ## What sweeps and waits look at -/

/-- A sweeping worker that claims a holding changes the tracker only. -/
theorem claim_moves : a.Moves p (a.claim : Step (Session σ) _ _) := by
  refine (a.read_moves p _).bind fun l => ?_
  split
  · exact .pure _
  · intro s
    rw [Step.eval_bind, Step.eval_get]
    dsimp only
    -- A claim either leaves the tracked holdings as they are or marks one of them.
    rcases s.tracker.claim? _ _ with _ | _ | ⟨h, tracker⟩
    · exact .refl
    · exact .refl
    · exact .single (.track tracker)

/-- Looking whether the run was canceled changes nothing. -/
theorem proceed_moves : a.Moves p (proceed : Step (Session σ) ε Unit) :=
  Along.get.bind fun _ => .ite (fun _ => .idle) fun _ => .pure _

/-- What is known is tracked from the start. -/
theorem trackKnown_moves : a.Moves p (a.trackKnown : Step (Session σ) _ _) :=
  (a.read_moves p _).bind fun _ => a.track_moves p _

/-- Raising the error of a sweep changes nothing. -/
theorem sweepFailure_moves :
    a.Moves p (sweepFailure : Step (Session σ) PipelineError Unit) := by
  refine Along.get.bind fun s => ?_
  split
  · exact .fail _
  · exact .pure _

/-! ## Staging

Staging asks and calculates, and hands back a batch. The store is as it was. -/

/-- The balance that a holding opens with is asked of the node, if at all. -/
theorem openingBalance_moves (b : Block) (h : Holding) : a.Moves p (a.openingBalance b h) :=
  .ite (fun _ => .pure _) fun _ => (a.ask_balance_moves p _ _).bind fun _ =>
    (Along.ofExcept _ _).bind fun _ => .pure _

/-- Staging a change reads the store and asks for a balance at most. -/
theorem stageChange_moves (b : Block) (delta : Holding × Decimal) :
    a.Moves p (a.stageChange b delta) := by
  refine (a.read_moves p _).bind fun l => ?_
  dsimp only
  split
  · exact (Along.pure _).bind fun _ => (Along.within _ _).bind fun _ => .pure _
  · exact (a.openingBalance_moves p _ _).bind fun _ => (Along.within _ _).bind fun _ => .pure _

/-- So does staging a block, once for each change. -/
theorem stageBalances_moves (b : Block) (batch : Batch) :
    a.Moves p (a.stageBalances b batch) := by
  refine (Along.within _ _).bind fun ds =>
    (Along.mapM (a.stageChange_moves p b) ds).bind fun cs => ?_
  dsimp only
  split <;> exact .pure _

/-- Staging keeps whose batch it is, and counts nothing but new holdings. -/
theorem stageBalances_batch (b : Block) (batch : Batch) (s : Session σ) :
    (a.stageBalances b batch).Ends s
      (fun batch' _ => batch'.block = batch.block ∧
        ∀ e ∈ batch'.counts, e ∈ batch.counts ∨ e.1 = Counter.seenAccounts.name)
      (fun _ _ => True) := by
  unfold stageBalances
  rw [Step.ends_bind]
  refine (Step.Ends.any _ s).mono (fun ds t _ => ?_) fun _ _ h => h
  rw [Step.ends_bind]
  refine (Step.Ends.any _ t).mono (fun cs u _ => ?_) fun _ _ h => h
  dsimp only
  split
  · exact ⟨rfl, fun _ mem => .inl mem⟩
  · refine ⟨rfl, fun e mem => ?_⟩
    rcases List.mem_append.mp mem with mem | mem
    · exact .inl mem
    · rw [List.mem_singleton.mp mem]
      exact .inr rfl

/-- Staging and committing a block ends with one commit, of a batch that counts no failures. -/
theorem commitBlock_moves (commits : p.commits) (b : Block) : a.Moves p (a.commitBlock b) := by
  refine Along.bind_of_ends (Q := Batch.Plain) (.mapError _ (a.stageBalances_moves p b _)) ?_
    fun batch plain => .bind ?_ fun _ => .pure _
  -- The batch has the counts of the block and, at most, that of new holdings.
  · intro s
    rw [Step.ends_mapError]
    refine (a.stageBalances_batch b _ s).mono (fun batch t h => ?_) fun _ _ h => h
    intro e mem
    rcases h.2 e mem with mem | name
    · exact Batch.plain_ofBlock b e mem
    · rw [name]
      exact Batch.name_ne_failed (by decide)
  · intro s
    rw [Step.eval_commit]
    exact .single (.commit batch commits plain)

/-! ## Checks

A check asks for a balance, tracks, tells and counts. It needs a scope that lets it report. -/

/-- A balance that the node reports for another block is counted and passed over. -/
theorem liveBalance_moves (h : Holding) (block : BlockId) : a.Moves p (a.liveBalance h block) :=
  (a.ask_balance_moves p _ _).bind fun _ => (Along.ofExcept _ _).bind fun _ =>
    .ite (fun _ => .pure _) fun _ => (a.count_moves p _ (by decide)).bind fun _ => .pure _

/-- The end of a tally changes nothing. -/
theorem settle_moves (t : Tally) :
    a.Moves p (settle t : Step (Session σ) ReconcileError Unit) := by
  unfold settle
  split
  · exact .fail _
  · exact .pure _

/-- A balance that is right is told of and counted. -/
theorem succeeded_moves (kind : Kind) (h : Holding) (block : BlockId) (value : Decimal) :
    a.Moves p (a.succeeded kind h block value) := by
  refine (a.tell_moves p (LogOptions.reconciled_harmless _ _ _ _ _)).bind fun _ =>
    a.count_moves p _ ?_
  cases kind <;> decide

/-- A failure is a single move, unless the store is closed. -/
theorem eval_failed {s : Session σ} (isOpen : s.store.closed = false) (f : Failure) :
    (a.failed f).eval s =
      (if a.settings.halt then .error (.failed (.mismatch f)) else .ok (),
        s.report a.settings.halt f) := by
  unfold failed
  rw [Step.eval_bind, Step.eval_count isOpen]
  dsimp only
  rw [Step.eval_bind, Step.eval_tell]
  cases a.settings.halt <;> rfl

variable {p} (reports : p.reports)

include reports

/-- A balance that is wrong is reported, in a single move; a closed store stops before that. -/
theorem failed_moves (f : Failure) : a.Moves p (a.failed f) := by
  intro s
  cases closed : s.store.closed with
  | false =>
    rw [a.eval_failed closed]
    exact .single (.report f reports closed)
  | true =>
    rw [failed, Step.eval_bind, Step.eval_count_of_closed closed]

/-- A comparison tracks its result and then counts it. -/
theorem conclude_moves (kind : Kind) (h : Holding) (block : BlockId) (computed live : Decimal) :
    a.Moves p (a.conclude kind h block computed live) :=
  .ite (fun _ => (a.track_moves p _).bind fun _ => a.succeeded_moves p _ _ _ _)
    fun _ => (a.track_moves p _).bind fun _ => a.failed_moves reports _

/-- The check of a change. -/
theorem checkActive_moves (c : Change) : a.Moves p (a.checkActive c) := by
  refine .ite (fun _ => a.count_moves p _ (by decide)) fun _ =>
    (a.liveBalance_moves p _ _).bind fun live => ?_
  cases live
  · exact .pure _
  · exact a.conclude_moves reports _ _ _ _ _

/-- The check of a claimed holding, with or without a record. -/
theorem checkInactive_moves (h : Holding) (claimedAt : Int) :
    a.Moves p (a.checkInactive h claimedAt) := by
  refine .ite (fun _ => (a.track_moves p _).bind fun _ => a.count_moves p _ (by decide)) fun _ =>
    (a.read_moves p _).bind fun l => ?_
  split
  · exact a.track_moves p _
  · refine (a.liveBalance_moves p _ _).bind fun live => ?_
    cases live
    · exact a.track_moves p _
    · exact a.conclude_moves reports _ _ _ _ _

/-- Checks in a row, of which every one is run, whatever becomes of the others. -/
theorem runChecks_moves (cs : List Change) (t : Tally) : a.Moves p (a.runChecks cs t) := by
  induction cs generalizing t with
  | nil => exact .pure _
  | cons c cs ih =>
    refine (a.checkActive_moves reports c).attempt.bind fun result => ?_
    -- A result only decides what the tally says; in all four cases the rest is run.
    split
    · exact ih _
    · exact ih _
    · exact ih _
    · exact ih _

/-- Checks are started while there is room, and run when there is none. -/
theorem startChecks_moves (cs queue : List Change) (free : Nat) (t : Tally) :
    a.Moves p (a.startChecks cs queue free t) := by
  induction cs generalizing queue free t with
  | nil => exact .pure _
  | cons c cs ih =>
    cases free with
    | succ free => exact ih _ _ _
    | zero =>
      refine (a.runChecks_moves reports _ _).bind fun t => ?_
      split
      · exact .idle
      · exact ih _ _ _

/-- All checks of a block. -/
theorem checkChanges_moves (cs : List Change) : a.Moves p (a.checkChanges cs) := by
  refine (a.track_moves p _).bind fun _ => .ite (fun _ => .pure _) fun _ => ?_
  refine (a.startChecks_moves reports _ _ _ _).bind fun _ => (a.settle_moves p _).bind fun _ => ?_
  exact (a.runChecks_moves reports _ _).bind fun _ => (a.settle_moves p _).bind fun _ =>
    .ite (fun _ => .idle) fun _ => .pure _

/-- The observer of a pipeline goes by moves, as long as it may report failures. -/
theorem observer_moves (b : Block) (cs : List Change) :
    a.Moves p (a.observed a.observer b cs) := by
  rw [observed_observer]
  exact .ite (fun _ => a.checkChanges_moves reports _) fun _ => .pure _

omit reports in
/-- Telling of a block moves as its observer does. -/
theorem announceBlock_moves {observer : Option (Observer σ)} (b : Block) (batch : Batch)
    (observes : a.Moves p (a.observed observer b batch.changes)) :
    a.Moves p (a.announceBlock observer b batch) :=
  (a.tell_moves p (LogOptions.block_harmless _ b)).bind fun _ =>
    ((a.tell_moves p (LogOptions.changes_harmless _ _)).bind fun _ =>
      observes.mapError _).mapError _

/-! ## Sweeps and waiting

A sweep checks what is due. It falls into a wait, so that a wait may do what a sweep does. -/

/-- One worker that sweeps until nothing is due or its fuel is gone. -/
theorem sweep_moves (fuel : Nat) : a.Moves p (a.sweep fuel) := by
  induction fuel with
  | zero => exact .pure _
  | succ fuel ih =>
    refine Along.get.bind fun s => .ite (fun _ => .pure _) fun _ =>
      (a.claim_moves p).bind fun claimed => ?_
    split
    · exact .pure _
    · exact (a.checkInactive_moves reports _ _).bind fun _ => ih

/-- Workers that sweep one after another; the error of one does not stop the next. -/
theorem sweepRound_moves (n : Nat) (w : Sweepers) :
    a.Moves p (a.sweepRound n w : Step (Session σ) ε Sweepers) := by
  induction n generalizing w with
  | zero => exact .pure _
  | succ n ih =>
    have sweepDue : a.Moves p (a.sweepDue : Step (Session σ) _ _) :=
      Along.get.bind fun _ => a.sweep_moves reports _
    refine sweepDue.attempt.bind fun result => ?_
    -- A sweep that failed is remembered with the sweepers, which is no move of its own.
    split
    · exact ih _
    · exact ih _
    · exact ih _
    · exact ih _

variable (waits : p.waits)

include waits

/-- Sleeping workers that are woken, all at once. -/
theorem wake_moves : a.Moves p (a.wake : Step (Session σ) ε Unit) :=
  Along.get.bind fun _ => (a.sweepRound_moves reports _ _).bind fun _ =>
    .modify fun _ => .rest _ waits

omit reports in
/-- Time that passes is one move. -/
theorem elapse_moves (ms : Nat) :
    a.Moves p (Step.onWorld (·.elapse ms) : Step (Session σ) ε Unit) :=
  fun _ => .single (.elapse ms waits)

/-- Waiting is time that passes, cut by the sweeps that fall due meanwhile. -/
theorem waitUntil_moves (target fuel : Nat) :
    a.Moves p (a.waitUntil target fuel : Step (Session σ) ε Unit) := by
  induction fuel with
  | zero => exact .pure _
  | succ fuel ih =>
    refine Along.get.bind fun _ => .ite (fun _ => .pure _) fun _ => .ite (fun _ => ?_)
      fun _ => a.elapse_moves waits _
    exact (a.elapse_moves waits _).bind fun _ => (a.wake_moves reports waits).bind fun _ => ih

theorem wait_moves (ms : Nat) : a.Moves p (a.wait ms : Step (Session σ) ε Unit) :=
  Along.get.bind fun _ => a.waitUntil_moves reports waits _ _

/-- Waiting for the end of the run, after which the operator gives up. -/
theorem awaitEnd_moves : a.Moves p (a.awaitEnd : Step (Session σ) ε Unit) :=
  Along.get.bind fun _ => .ite (fun _ => .pure _) fun _ =>
    (a.wait_moves reports waits _).bind fun _ => Along.get.bind fun _ =>
      .ite (fun _ _ => .single (.giveUp waits)) fun _ => .pure _

/-- A pause is a wait, and in a run that is over it is a wait for the end. -/
theorem pause_moves (ms : Nat) : a.Moves p (a.pause ms : Step (Session σ) ε Unit) :=
  Along.get.bind fun _ => .ite (fun _ => (a.awaitEnd_moves reports waits).bind fun _ => .idle)
    fun _ => (a.wait_moves reports waits _).bind fun _ => a.proceed_moves p

/-- A run that is stuck waits for its end, and then says whether it was canceled. -/
theorem canceledBefore_moves (next : Int) : a.Moves p (a.canceledBefore next) :=
  (a.awaitEnd_moves reports waits).bind fun _ => Along.get.bind fun _ =>
    .ite (fun _ => .fail _) fun _ => .idle

/-- The sweeping workers start with a first round. -/
theorem startReconciler_moves : a.Moves p (a.startReconciler : Step (Session σ) _ _) :=
  (a.trackKnown_moves p).bind fun _ => .bind (.modify fun _ => .rest _ waits) fun _ =>
    a.wake_moves reports waits

/-! ## Fetching

A fetch asks, waits and tells; what it waits for may sweep. -/

/-- A fetch asks for its block only, again and again, and pauses in between. -/
theorem fetchFrom_moves {index : Int} (allowed : p.asks index) (fuel attempts : Nat) :
    a.Moves p (a.fetchFrom index fuel attempts) := by
  -- One round for each unit of fuel: a block, a missing block, an error that is retried, and
  -- one that is final.
  induction fuel generalizing attempts with
  | zero => exact .idle
  | succ fuel ih =>
    refine (a.proceed_moves p).bind fun _ => (a.ask_block_moves p allowed).bind fun reply => ?_
    split
    · exact .pure _
    · exact (a.pause_moves reports waits _).bind fun _ => ih _
    · exact .ite (fun _ => (a.pause_moves reports waits _).bind fun _ => ih _) fun _ => .fail _
    · exact .fail _

/-- A fetch with all its attempts. -/
theorem fetchBlock_moves {index : Int} (allowed : p.asks index) : a.Moves p (a.fetchBlock index) :=
  Along.get.bind fun _ => a.fetchFrom_moves reports waits allowed _ _

/-! ## Following the chain

Put together from the parts in the order of the run. What checks of a block may do is a
hypothesis, so that other observers fit in. -/

-- Whatever observes the commits may do no more than the rest of the run.
variable {observer : Option (Observer σ)}
  (observes : ∀ b cs, a.Moves p (a.observed observer b cs))

include observes

/-- Applying a block: fetch, stage, commit, tell, observe. -/
theorem applyBlock_moves {index : Int} (allowed : p.asks index) (commits : p.commits) :
    a.Moves p (a.applyBlock [a.balanceWorker observer] index) := by
  rw [applyBlock_eq, enterBlock_eq]
  refine .bind ((a.fetchBlock_moves reports waits allowed).bind fun b => ?_) fun r => ?_
  · exact a.commitBlock_moves p commits b
  · exact a.announceBlock_moves r.1 r.2 (observes _ _)

/-- Following asks for one block after another, as long as they are due. -/
theorem syncFrom_moves {last : Option Int} (commits : p.commits) (finishes : p.finishes)
    (allowed : ∀ i j, p.asks i → Index.next? i = some j → ¬last.any (· < j) → p.asks j)
    (fuel : Nat) (next : Int) (due : ¬last.any (· < next) → p.asks next) :
    a.Moves p (a.syncFrom [a.balanceWorker observer] last fuel next) := by
  -- One round for each block; `allowed` makes `due` hold for the next one.
  induction fuel generalizing next with
  | zero => exact .idle
  | succ fuel ih =>
    refine .ite (fun _ => .modify fun _ => .finish finishes) fun more => ?_
    refine (a.applyBlock_moves reports waits observes (due more) commits).attempt.bind
      fun result => ?_
    split
    · refine (Along.within _ _).bind_of_ends (Q := fun j => Index.next? next = some j)
        (fun _ => Step.ends_within.mpr ⟨fun _ eq => eq, fun _ => trivial⟩) fun j eq => ?_
      exact ih j (allowed next j (due more) eq)
    · exact a.canceledBefore_moves reports waits next
    · exact .throw _

/-- Following the chain moves as the sync does; the error of a sweep is raised behind it. -/
theorem follow_moves {first : Int} {last : Option Int} (commits : p.commits)
    (finishes : p.finishes)
    (allowed : ∀ i j, p.asks i → Index.next? i = some j → ¬last.any (· < j) → p.asks j)
    (due : ¬last.any (· < first) → p.asks first) : a.Moves p (a.follow first last observer) := by
  have synced := a.syncFrom_moves reports waits observes commits finishes allowed
    (Index.count + 1) first due
  refine .bind (synced.mapError _).attempt fun result => ?_
  split
  · exact (a.sweepFailure_moves p).bind fun _ => .idle
  · exact .throw _
  · exact .pure _

/-- Everything that a pipeline does before it cancels its token. -/
theorem runBoth_moves {first : Int} {last : Option Int} (commits : p.commits)
    (finishes : p.finishes)
    (allowed : ∀ i j, p.asks i → Index.next? i = some j → ¬last.any (· < j) → p.asks j)
    (due : ¬last.any (· < first) → p.asks first) : a.Moves p (a.runBoth first last observer) := by
  have follow := a.follow_moves reports waits observes commits finishes allowed due
  refine .ite (fun _ => follow.bind fun _ => .ite (fun _ => ?_) fun _ => .pure _) fun _ =>
    Along.get.bind fun _ => .ite (fun _ => .fail _) fun _ => .ite (fun _ => ?_) fun _ => ?_
  · exact (a.trackKnown_moves p).mapError _
  · refine .bind ((a.startReconciler_moves reports waits).mapError _) fun _ => ?_
    exact (a.sweepFailure_moves p).bind fun _ => follow
  · exact follow

end Auditor

end BalanceAudit
