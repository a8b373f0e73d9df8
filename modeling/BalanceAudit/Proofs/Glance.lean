import BalanceAudit.Proofs.Moves
import BalanceAudit.Proofs.Waiting

/-!
# Checks that go by

A check raises an error, never ends, or goes by: then it asked the node, counted,
told and tracked, and did nothing else. The same holds for sweeps and waiting, where
the first error is kept for the run to end with.

- `Auditor.Raises`: the errors that checks raise on an open store.
- `Auditor.Glances`: what checks do that raise no error.
- `Auditor.Accounts`: an error was raised and is known, or all checks went by.
- `Auditor.Checking`: a step of a check; `Auditor.checkChanges_glances` for those of a
  block, `Auditor.wake_accounts` for sweeps.
- `Auditor.wait_accounts`: **the time that passes does not depend on the sweeps**
  that fall into it.
- `Auditor.canceledBefore_ends`: a run that waits for good was canceled, or a sweep
  raised an error.
-/

namespace BalanceAudit

variable {σ ε α β : Type}

/-! ## Passing time -/

namespace World

/-- Two stretches of time are one. -/
theorem elapse_elapse (w : World σ) (m n : Nat) : (w.elapse m).elapse n = w.elapse (m + n) := by
  simp only [elapse, Nat.add_assoc, Nat.sub_sub]

/-- Calls take no time. -/
theorem call_elapse (w : World σ) (ms : Nat) (f : σ → Answer α × σ) :
    (w.elapse ms).call f = ((w.call f).1, (w.call f).2.elapse ms) := by
  unfold call elapse
  dsimp only
  cases (f w.node).1.signal with
  | none => rfl
  | some signal => cases signal <;> rfl

/-- Whoever intervenes in a call ends the run. -/
theorem Reachable.call {w : World σ} (h : w.Reachable) (f : σ → Answer α × σ) :
    (w.call f).2.Reachable := by
  have moved : World.Reachable { w with node := (f w.node).2 } := h
  unfold World.call
  dsimp only
  cases (f w.node).1.signal with
  | none => exact moved
  | some signal => exact (moved.obey signal).1

/-- Nor does it matter which tokens are canceled. -/
theorem Reachable.cancel {w : World σ} (h : w.Reachable) (token : Token) :
    World.Reachable { w with cancellation := w.cancellation.cancel token } := by
  -- The token of the run is registered, or canceled already; neither is undone.
  rcases h with registered | canceled
  · left
    show w.token ∈ (w.cancellation.cancel token).registered
    rwa [Cancellation.registered_cancel]
  · right
    show (w.cancellation.cancel token).isCanceled w.token = true
    rw [World.isCanceled, Cancellation.isCanceled_iff] at canceled
    rw [Cancellation.isCanceled_iff]
    refine canceled.imp (fun mem => Cancellation.mem_cancel.mpr (.inr mem)) ?_
    exact fun ⟨id, ancestor, mem⟩ => ⟨id, ancestor, Cancellation.mem_cancel.mpr (.inr mem)⟩

end World

/-- The session when some time has passed. -/
def Session.elapse (s : Session σ) (ms : Nat) : Session σ := { s with world := s.world.elapse ms }

namespace Auditor

variable {a : Auditor σ} {p : Scope} {s t u : Session σ}

/-- Nothing can be canceled behind the back of a run. -/
theorem Move.reachable (move : a.Move p s t) (reach : s.world.Reachable) : t.world.Reachable := by
  cases move with
  | fetch => exact reach.call _
  | lookup => exact reach.call _
  | giveUp => exact (reach.obey _).1
  | finish => exact reach.cancel s.shutdown
  | _ => exact reach

/-- So a part of a run keeps its token in reach of an abort. -/
theorem reachable_of_moves {x : Step (Session σ) ε α} (moves : a.Moves p x)
    (reach : s.world.Reachable) :
    x.Ends s (fun _ t => t.world.Reachable) (fun _ t => t.world.Reachable) :=
  moves.ends (fun _ _ move => move.reachable) reach

/-! ## What checks do

A glance is one move of a check that raises no error. It looks a balance up, tells, tracks,
counts, or reports a failure that does not end the run. -/

/-- The errors that checks raise: a failure that ends the run, an error of the node, or a
claim that broke down over a distance that is no word. -/
def Raises (a : Auditor σ) (e : ReconcileError) : Prop :=
  (a.settings.halt = true ∧ ∃ f, e = .mismatch f) ∨ (∃ cause, e = .fetch cause) ∨
    e = broken .distance

/-- The error that a check leaves which stopped; none if it never ends. -/
def remains : Stop ReconcileError → Option ReconcileError
  | .failed e => some e
  | .overflow what => some (broken what)
  | .idle => none

/-- One move of a check that raises no error. -/
inductive Glance (a : Auditor σ) (s : Session σ) : Session σ → Prop where
  | lookup (h : Holding) (at? : Option BlockId)
      (answered : ∀ e, (a.node.balance h at? s.world.node).1.reply ≠ some (.error e)) :
      Glance a s { s with world := (s.world.call (a.node.balance h at?)).2 }
  | tell (es : List Event) (harmless : ∀ e ∈ es, e.failure? = none) :
      Glance a s { s with world := s.world.tell es }
  | track (tracker : Tracker) : Glance a s { s with tracker }
  | rest (sweepers : Sweepers) : Glance a s { s with sweepers }
  | count (c : Counter) (passing : c ∈ Counter.passing) : Glance a s (s.raise c)
  /-- A failure that does not end the run. -/
  | ignore (f : Failure) (lenient : a.settings.halt = false) (isOpen : s.store.closed = false) :
      Glance a s (s.report false f)

/-- Moves of checks that raise no error. -/
abbrev Glances (a : Auditor σ) : Session σ → Session σ → Prop := Relation.ReflTransGen a.Glance

/-- A glance is a move of a sweep. -/
theorem Glance.move (glance : a.Glance s t) : a.Move .sweeps s t := by
  cases glance with
  | lookup h at? => exact .lookup h at?
  | tell es harmless => exact .tell es harmless
  | track tracker => exact .track tracker
  | rest sweepers => exact .rest sweepers trivial
  | count c passing => exact .count c passing
  | ignore f lenient isOpen =>
    rw [← lenient]
    exact .report f trivial isOpen

namespace Glances

/-- What single moves keep. -/
theorem keeps {P : Session σ → Prop} (kept : ∀ s t, a.Glance s t → P s → P t)
    (glances : a.Glances s t) (start : P s) : P t := by
  induction glances with
  | refl => exact start
  | tail _ glance ih => exact kept _ _ glance ih

/-- The store stays open. -/
theorem isOpen (glances : a.Glances s t) (isOpen : s.store.closed = false) :
    t.store.closed = false :=
  glances.keeps (P := fun t => t.store.closed = false)
    (fun _ _ glance h => glance.move.mode.closed.trans h) isOpen

/-- No time passes. -/
theorem clock (glances : a.Glances s t) : t.world.clock = s.world.clock := by
  refine glances.keeps (P := fun t => t.world.clock = s.world.clock) (fun t u glance h => ?_) rfl
  -- Only a call touches the world, and a call takes no time.
  cases glance with
  | lookup holding at? =>
    refine Eq.trans ?_ h
    show (t.world.call (a.node.balance holding at?)).2.clock = t.world.clock
    unfold World.call
    dsimp only
    cases (a.node.balance holding at? t.world.node).1.signal with
    | none => rfl
    | some signal => cases signal <;> rfl
  | _ => exact h

/-- The token stays in reach. -/
theorem reachable (glances : a.Glances s t) (reach : s.world.Reachable) : t.world.Reachable :=
  glances.keeps (fun _ _ glance => glance.move.reachable) reach

/-- Checks may as well be made later. -/
theorem elapse (glances : a.Glances s t) (ms : Nat) : a.Glances (s.elapse ms) (t.elapse ms) := by
  induction glances with
  | refl => exact .refl
  | @tail t u _ glance ih =>
    refine ih.tail ?_
    -- A call is the one move that looks at the world, and it does not look at the clock.
    cases glance with
    | lookup holding at? answered =>
      have later := Glance.lookup (a := a) (s := t.elapse ms) holding at? answered
      unfold Session.elapse at later
      rwa [World.call_elapse] at later
    | tell es harmless => exact .tell es harmless
    | track tracker => exact .track tracker
    | rest sweepers => exact .rest sweepers
    | count c passing => exact .count c passing
    | ignore f lenient isOpen => exact .ignore f lenient isOpen

end Glances

/-! ## Errors that are known

What a number of checks came to is told by the error that is known by now: there is one that
checks raise, or all of them went by. -/

/-- An error was raised and is known, or all checks since `s` went by. -/
structure Accounts (a : Auditor σ) (s : Session σ) (error : Option ReconcileError)
    (t : Session σ) : Prop where
  isOpen : t.store.closed = false
  outcome : (∃ e, error = some e ∧ a.Raises e) ∨ error = none ∧ a.Glances s t

/-- The error that ended a sweep, if one did, is one that checks raise. -/
abbrev Stands (a : Auditor σ) (s : Session σ) : Prop := a.Accounts s s.sweepers.failure s

namespace Accounts

variable {error : Option ReconcileError}

/-- Before any check all of them went by. -/
theorem refl (isOpen : s.store.closed = false) : a.Accounts s none s := ⟨isOpen, .inr ⟨rfl, .refl⟩⟩

/-- An error is known as soon as it was raised. -/
theorem raised {e : ReconcileError} (isOpen : t.store.closed = false) (raises : a.Raises e) :
    a.Accounts s (some e) t := ⟨isOpen, .inl ⟨e, rfl, raises⟩⟩

/-- A known error is one that checks raise. -/
theorem raises {e : ReconcileError} (h : a.Accounts s (some e) t) : a.Raises e := by
  obtain ⟨_, ⟨e', same, raises⟩ | ⟨calm, _⟩⟩ := h
  · cases same
    exact raises
  · cases calm

/-- Without an error all checks went by. -/
theorem glances (h : a.Accounts s none t) : a.Glances s t := by
  obtain ⟨_, ⟨e', same, _⟩ | ⟨_, glances⟩⟩ := h
  · cases same
  · exact glances

/-- Checks that went by before change nothing about that. -/
theorem after (glances : a.Glances s t) (h : a.Accounts t error u) : a.Accounts s error u :=
  ⟨h.isOpen, h.outcome.imp_right fun ⟨calm, later⟩ => ⟨calm, glances.trans later⟩⟩

/-- So do checks that go by later. -/
theorem before (h : a.Accounts s error t) (glances : a.Glances t u) : a.Accounts s error u :=
  ⟨glances.isOpen h.isOpen, h.outcome.imp_right fun ⟨calm, first⟩ => ⟨calm, first.trans glances⟩⟩

/-- The first error is kept. -/
theorem orElse {next : Option ReconcileError} (h : a.Accounts s error t)
    (h' : a.Accounts t next u) : a.Accounts s (error <|> next) u := by
  obtain ⟨_, ⟨first, rfl, raises⟩ | ⟨rfl, glances⟩⟩ := h
  · exact .raised h'.isOpen raises
  · exact h'.after glances

/-- What was accounted for since `s` stands by itself. -/
theorem stands (h : a.Accounts s t.sweepers.failure t) : a.Stands t :=
  ⟨h.isOpen, h.outcome.imp_right fun ⟨calm, _⟩ => ⟨calm, .refl⟩⟩

end Accounts

/-! ## Single checks

A check is put together from reads, calls, counts and marks, and each way of putting them
together is covered once. -/

/-- On an open store the step goes by, never ends, or leaves an error. -/
def Checking (a : Auditor σ) (x : Step (Session σ) ReconcileError α) : Prop :=
  ∀ s, s.store.closed = false → x.Ends s (fun _ t => a.Glances s t)
    (fun stop t => a.Accounts s (remains stop) t)

namespace Checking

variable {x : Step (Session σ) ReconcileError α} {f : α → Step (Session σ) ReconcileError β}

theorem pure (v : α) : a.Checking (Pure.pure v) := fun _ _ => .refl

theorem get : a.Checking MonadState.get := fun _ _ => .refl

/-- The second part starts where the first one went by. -/
theorem bind (h : a.Checking x) (later : ∀ v, a.Checking (f v)) : a.Checking (x >>= f) := by
  intro s isOpen
  rw [Step.ends_bind]
  refine (h s isOpen).mono (fun v t glances => ?_) fun _ _ h => h
  exact (later v t (glances.isOpen isOpen)).mono (fun _ _ h => glances.trans h)
    fun _ _ h => h.after glances

theorem ite {q : Prop} [Decidable q] {y : Step (Session σ) ReconcileError α} (yes : a.Checking x)
    (no : a.Checking y) : a.Checking (if q then x else y) := by
  split
  · exact yes
  · exact no

/-- A single glance is a check by itself. -/
theorem glance {f : Session σ → Session σ} (h : ∀ s, a.Glance s (f s)) :
    a.Checking (modify f : Step (Session σ) ReconcileError PUnit) := fun s _ => .single (h s)

theorem tell {es : List Event} (harmless : ∀ e ∈ es, e.failure? = none) :
    a.Checking (Step.tell es) := glance fun _ => .tell es harmless

/-- Marking the tracker is one. -/
theorem onTracker (f : Tracker → Tracker) : a.Checking (Step.onTracker f) :=
  glance fun s => .track (f s.tracker)

/-- So is counting, on an open store. -/
theorem count {c : Counter} (passing : c ∈ Counter.passing) :
    a.Checking (Step.count .store c) := by
  intro s isOpen
  exact Step.ends_of_ok (Step.eval_count isOpen c) (.single (.count c passing))

theorem read : a.Checking (Step.read .store) := by
  intro s isOpen
  exact Step.ends_of_ok (Step.eval_read_of_open isOpen) .refl

/-- An error of the node is raised. -/
theorem lookup (h : Holding) (at? : Option BlockId) :
    a.Checking (Step.ask (a.node.balance h at?) >>= Step.ofExcept .fetch) := by
  intro s isOpen
  rw [Step.ends_bind]
  unfold Step.Ends
  rw [Step.eval_ask]
  cases reply : (s.world.call (a.node.balance h at?)).1 with
  | none =>
    exact (Accounts.refl isOpen).before
      (.single (.lookup h at? fun e error => nomatch reply.symm.trans error))
  | some r =>
    cases r with
    | error e => exact .raised isOpen (.inr (.inl ⟨e, rfl⟩))
    | ok r => exact .single (.lookup h at? fun e error => nomatch reply.symm.trans error)

/-- A failure ends the run or is ignored, as the settings say. -/
theorem failed (f : Failure) : a.Checking (a.failed f) := by
  intro s isOpen
  unfold Step.Ends
  rw [a.eval_failed isOpen]
  cases halt : a.settings.halt with
  | true => exact .raised isOpen (.inl ⟨halt, f, rfl⟩)
  | false => exact .single (.ignore f halt isOpen)

end Checking

/-- Asking for the balance of a holding, which may raise the error of the node. -/
theorem liveBalance_checking (h : Holding) (block : BlockId) :
    a.Checking (a.liveBalance h block) := by
  unfold liveBalance
  rw [← bind_assoc]
  exact (Checking.lookup h _).bind fun _ => .ite (.pure _) <|
    (Checking.count (by decide)).bind fun _ => .pure _

/-- The comparison of both balances. -/
theorem conclude_checking (kind : Kind) (h : Holding) (block : BlockId) (computed live : Decimal) :
    a.Checking (a.conclude kind h block computed live) := by
  refine .ite ((Checking.onTracker _).bind fun _ =>
    (Checking.tell (LogOptions.reconciled_harmless _ _ _ _ _)).bind fun _ => .count ?_)
    ((Checking.onTracker _).bind fun _ => .failed _)
  cases kind <;> decide

/-- The check of a change. -/
theorem checkActive_checking (c : Change) : a.Checking (a.checkActive c) := by
  refine .ite (.count (by decide)) ((liveBalance_checking _ _).bind fun live => ?_)
  cases live with
  | none => exact .pure _
  | some live => exact conclude_checking _ _ _ _ _

/-- The check of a claimed holding. -/
theorem checkInactive_checking (h : Holding) (claimedAt : Int) :
    a.Checking (a.checkInactive h claimedAt) := by
  refine .ite ((Checking.onTracker _).bind fun _ => .count (by decide))
    (Checking.read.bind fun l => ?_)
  split
  · exact .onTracker _
  · refine (liveBalance_checking _ _).bind fun live => ?_
    cases live with
    | none => exact .onTracker _
    | some live => exact conclude_checking _ _ _ _ _

/-! ## The checks of a block

Every check accounts for its failure, and the first error of the tally is the one that the
block ends with. -/

variable {error : Option ReconcileError}

/-- One more check: it goes by, or its error counts unless there was one before. -/
theorem Checking.accounts {x : Step (Session σ) ReconcileError α} (h : a.Checking x)
    (accounts : a.Accounts s error t) :
    x.Ends t (fun _ u => a.Accounts s error u)
      (fun stop u => a.Accounts s (error <|> remains stop) u) :=
  (h t accounts.isOpen).mono (fun _ _ glances => accounts.before glances)
    fun _ _ raised => accounts.orElse raised

/-- Checks in a row: the first error is kept, and the others are run all the same. -/
theorem runChecks_accounts (cs : List Change) : ∀ (tally : Tally) (t : Session σ),
    a.Accounts s tally.error t →
    (a.runChecks cs tally).Ends t (fun tally u => a.Accounts s tally.error u)
      (fun _ _ => False) := by
  induction cs with
  | nil => exact fun _ _ accounts => accounts
  | cons c cs ih =>
    intro tally t accounts
    unfold runChecks
    rw [Step.ends_bind, Step.ends_attempt]
    refine ((checkActive_checking c).accounts accounts).mono (fun _ u h => ih _ u h) ?_
    intro stop u h
    -- An error is noted unless there is one, a stuck check is counted, and the rest is run.
    cases stop with
    | failed e => exact ih { tally with error := tally.error <|> some e } u h
    | overflow what => exact ih { tally with error := tally.error <|> some (broken what) } u h
    | idle =>
      rw [remains, Option.orElse_eq_orElse, Option.orElse_eq_or, Option.or_none] at h
      exact ih { tally with stuck := tally.stuck + 1 } u h

/-- Started checks are accounted for, unless so many are stuck that no permit is left. -/
theorem startChecks_accounts (cs : List Change) : ∀ (queue : List Change) (free : Nat)
    (tally : Tally) (t : Session σ), a.Accounts s tally.error t →
    (a.startChecks cs queue free tally).Ends t (fun r u => a.Accounts s r.2.error u)
      (fun stop _ => stop = .idle) := by
  induction cs with
  | nil => exact fun _ _ _ _ accounts => accounts
  | cons c cs ih =>
    intro queue free tally t accounts
    cases free with
    | succ free => exact ih _ _ _ _ accounts
    | zero =>
      unfold startChecks
      rw [Step.ends_bind]
      refine (runChecks_accounts queue tally t accounts).mono (fun tally u h => ?_)
        fun _ _ h => h.elim
      cases a.permits - tally.stuck with
      | zero => rfl
      | succ free => exact ih _ _ _ _ h

/-- The end of a tally raises its error, if it has one. -/
theorem settle_ends {tally : Tally} (accounts : a.Accounts s tally.error t) :
    (settle tally : Step (Session σ) ReconcileError Unit).Ends t
      (fun _ u => u = t ∧ tally.error = none)
      (fun stop _ => ∃ e, stop = .failed e ∧ a.Raises e) := by
  unfold settle
  cases error : tally.error with
  | none => exact ⟨rfl, rfl⟩
  | some e =>
    rw [error] at accounts
    exact ⟨e, rfl, accounts.raises⟩

/-- Both halves of the checks of a block, each with its end of the tally. -/
theorem checkAll_glances (isOpen : s.store.closed = false) (cs : List Change) :
    (a.checkAll cs).Ends s (fun _ t => a.Glances s t)
      (fun stop _ => stop = .idle ∨ ∃ e, stop = .failed e ∧ a.Raises e) := by
  unfold checkAll
  rw [Step.ends_bind]
  refine (startChecks_accounts cs [] a.permits {} s (.refl isOpen)).mono ?_ fun _ _ h => .inl h
  rintro ⟨queue, tally⟩ t accounts
  dsimp only
  rw [Step.ends_bind]
  refine (settle_ends accounts).mono ?_ fun _ _ h => .inr h
  rintro _ _ ⟨rfl, _⟩
  rw [Step.ends_bind]
  refine (runChecks_accounts queue tally _ accounts).mono (fun tally' u accounts => ?_)
    fun _ _ h => h.elim
  rw [Step.ends_bind]
  refine (settle_ends accounts).mono ?_ fun _ _ h => .inr h
  rintro _ _ ⟨rfl, calm⟩
  rw [calm] at accounts
  by_cases stuck : tally'.stuck ≠ 0
  · rw [if_pos stuck]
    exact .inl rfl
  · rw [if_neg stuck]
    exact accounts.glances

/-- **The checks of a block** go by, or one of them never ends or raises an error. -/
theorem checkChanges_glances (isOpen : s.store.closed = false) (cs : List Change) :
    (a.checkChanges cs).Ends s (fun _ t => a.Glances s t)
      (fun stop _ => stop = .idle ∨ ∃ e, stop = .failed e ∧ a.Raises e) := by
  rw [ends_checkChanges]
  have tracked : a.Glances s { s with tracker := s.tracker.track (cs.map (·.holding)) } :=
    .single (.track _)
  by_cases nothing : a.settings.active = 0 ∨ cs = []
  · rw [if_pos nothing]
    exact tracked
  · rw [if_neg nothing]
    exact (checkAll_glances (by exact isOpen) cs).mono (fun _ _ h => tracked.trans h) fun _ _ h => h

/-- So does telling of a block, with its checks. However that ends, the sweepers are
left alone. -/
theorem announceBlock_glances (isOpen : s.store.closed = false) (b : Block) (batch : Batch) :
    (a.announceBlock a.observer b batch).Ends s (fun _ t => a.Glances s t ∧ t.sweepers = s.sweepers)
      (fun stop t => (t.store.closed = false ∧ t.sweepers = s.sweepers) ∧
        (stop = .idle ∨ ∃ e, stop = .failed (.worker b.id (.reconcile e)) ∧ a.Raises e)) := by
  -- Checks of a block never touch the sweepers, and no move closes the store.
  have alone := (a.announceBlock_moves (p := .checks) b batch (a.observer_moves trivial _ _)).ends
    (P := fun t => t.store.closed = false ∧ t.sweepers = s.sweepers)
    (fun _ _ move h => ⟨move.mode.closed.trans h.1, (move.sweepers id).trans h.2⟩) ⟨isOpen, rfl⟩
  have checks : (a.announceBlock a.observer b batch).Ends s (fun _ t => a.Glances s t)
      (fun stop _ => stop = .idle ∨
        ∃ e, stop = .failed (.worker b.id (.reconcile e)) ∧ a.Raises e) := by
    rw [ends_announceBlock, observed_observer]
    have told : a.Glances s (a.told b batch.changes s) :=
      .tail (.single (.tell _ (LogOptions.block_harmless _ b)))
        (.tell _ (LogOptions.changes_harmless _ _))
    by_cases enabled : a.settings.enabled = true
    · rw [if_pos enabled]
      refine (checkChanges_glances (by exact isOpen) _).mono (fun _ _ h => told.trans h) ?_
      rintro _ t (rfl | ⟨e, rfl, raises⟩)
      · exact .inl rfl
      · exact .inr ⟨e, rfl, raises⟩
    · rw [if_neg enabled]
      exact told
  exact (checks.and alone).mono (fun _ _ h => ⟨h.1, h.2.2⟩) fun _ _ h => ⟨h.2, h.1⟩

/-! ## Sweeps

The first error of a sweeping worker is kept until the run asks for it, so that it is known
at any moment in between. -/

/-- A claim breaks down over a distance that is no word, or marks a holding. -/
theorem claim_checking : a.Checking a.claim := by
  refine Checking.read.bind fun l => ?_
  split
  · exact .pure _
  · intro s isOpen
    rw [Step.ends_bind, Step.ends_get]
    dsimp only
    rcases s.tracker.claim? _ _ with _ | _ | _
    · exact .raised isOpen (.inr (.inr rfl))
    · exact .refl
    · exact .single (.track _)

/-- One worker checks one holding after another, with an induction on its fuel. -/
theorem sweep_checking (fuel : Nat) : a.Checking (a.sweep fuel) := by
  induction fuel with
  | zero => exact .pure _
  | succ fuel ih =>
    refine Checking.get.bind fun s => .ite (.pure _) (claim_checking.bind fun claimed => ?_)
    split
    · exact .pure _
    · exact (checkInactive_checking _ _).bind fun _ => ih

/-- A sweep has fuel for all that is tracked. -/
theorem sweepDue_checking : a.Checking a.sweepDue :=
  Checking.get.bind fun _ => sweep_checking _

/-- Workers one after another: the first error is kept, and the others sweep all the same. -/
theorem sweepRound_accounts (n : Nat) : ∀ (w : Sweepers) (t : Session σ),
    a.Accounts s w.failure t →
    (a.sweepRound n w : Step (Session σ) ε Sweepers).Ends t (fun w u => a.Accounts s w.failure u)
      (fun _ _ => False) := by
  induction n with
  | zero => exact fun _ _ accounts => accounts
  | succ n ih =>
    intro w t accounts
    unfold sweepRound
    rw [Step.ends_bind, Step.ends_attempt]
    refine (sweepDue_checking.accounts accounts).mono ?_ ?_
    · exact fun _ u h => ih { w with asleep := w.asleep + 1 } u h
    · intro stop u h
      -- As in a row of checks, with a worker in the place of a check.
      cases stop with
      | failed e => exact ih { w with failure := w.failure <|> some e } u h
      | overflow what => exact ih { w with failure := w.failure <|> some (broken what) } u h
      | idle =>
        rw [remains, Option.orElse_eq_orElse, Option.orElse_eq_or, Option.or_none] at h
        exact ih w u h

/-- **A round of sweeps** goes by, or its error is kept. -/
theorem wake_accounts (accounts : a.Accounts s t.sweepers.failure t) :
    (a.wake : Step (Session σ) ε Unit).Ends t
      (fun _ u => a.Accounts s u.sweepers.failure u ∧
        u.sweepers.wakeMs = u.world.clock.nowMs + a.sleepMs)
      (fun _ _ => False) := by
  unfold wake
  rw [Step.ends_bind, Step.ends_get, Step.ends_bind]
  refine (sweepRound_accounts _ { t.sweepers with asleep := 0 } t accounts).mono ?_ fun _ _ h => h
  intro w u h
  rw [Step.ends_modify]
  exact ⟨h.before (.single (.rest _)), rfl⟩

/-- **Starting the reconciler** tracks, and makes a first round. -/
theorem startReconciler_accounts (isOpen : s.store.closed = false) :
    a.startReconciler.Ends s (fun _ t => a.Accounts s t.sweepers.failure t)
      (fun _ _ => False) := by
  unfold startReconciler
  rw [Step.ends_bind]
  refine Step.ends_of_ok (a.eval_trackKnown isOpen) ?_
  rw [Step.ends_bind, Step.ends_modify]
  refine (wake_accounts (s := s) ?_).mono (fun _ _ h => h.1) fun _ _ h => h
  exact ⟨isOpen, .inr ⟨rfl, .tail (.single (.track _)) (.rest _)⟩⟩

/-! ## Waiting

Sweeps fall into a wait. So it goes by glances, or leaves the error of a sweep that is known
from then on. -/

/-- A wait in which a sweep failed is over. -/
theorem eval_waitUntil_of_failure {e : ReconcileError} (failed : s.sweepers.failure = some e)
    (target fuel : Nat) :
    (a.waitUntil target fuel : Step (Session σ) ε Unit).eval s = (.ok (), s) := by
  cases fuel with
  | zero => rfl
  | succ fuel =>
    unfold waitUntil
    rw [Step.eval_bind, Step.eval_get]
    dsimp only
    rw [failed]
    rfl

/-- The time that passes until `target` does not depend on the sweeps in between. The
induction is on the fuel, of which there is enough: workers sleep a millisecond at
least. -/
theorem waitUntil_accounts (target fuel : Nat) : ∀ s : Session σ, a.Stands s →
    (s.sweepers.failure = none → s.world.clock.nowMs ≤ target ∧ 1 ≤ fuel ∧
      (s.sweepers.wakeMs ≤ target →
        target + 2 ≤ fuel + max s.world.clock.nowMs s.sweepers.wakeMs)) →
    (a.waitUntil target fuel : Step (Session σ) ε Unit).Ends s
      (fun _ t => a.Accounts (s.elapse (target - s.world.clock.nowMs)) t.sweepers.failure t)
      (fun _ _ => False) := by
  induction fuel with
  | zero =>
    intro s stands enough
    obtain ⟨e, failed, raises⟩ | ⟨calm, _⟩ := stands.outcome
    · exact ⟨stands.isOpen, .inl ⟨e, failed, raises⟩⟩
    · exact absurd (enough calm).2.1 (by decide)
  | succ fuel ih =>
    intro s stands enough
    obtain ⟨e, failed, raises⟩ | ⟨calm, _⟩ := stands.outcome
    · refine Step.ends_of_ok (eval_waitUntil_of_failure failed _ _) ?_
      exact ⟨stands.isOpen, .inl ⟨e, failed, raises⟩⟩
    obtain ⟨early, _, fuels⟩ := enough calm
    unfold waitUntil
    rw [Step.ends_bind, Step.ends_get]
    dsimp only
    rw [calm, Option.isSome_none, if_neg Bool.false_ne_true]
    -- Either the sweepers wake before `target`, and the rest of the time is waited behind their
    -- round, or they do not.
    by_cases wakes : s.sweepers.asleep ≠ 0 ∧ s.sweepers.wakeMs ≤ target
    · rw [if_pos wakes, Step.ends_bind]
      refine Step.ends_of_ok (Step.eval_onWorld _ _) ?_
      rw [Step.ends_bind]
      -- The sweeps start when some of the time has passed.
      have woken : a.Accounts (s.elapse (s.sweepers.wakeMs - s.world.clock.nowMs))
          (s.elapse (s.sweepers.wakeMs - s.world.clock.nowMs)).sweepers.failure
          (s.elapse (s.sweepers.wakeMs - s.world.clock.nowMs)) :=
        ⟨stands.isOpen, .inr ⟨calm, .refl⟩⟩
      refine (wake_accounts woken).mono ?_ fun _ _ h => h
      rintro _ t ⟨swept, rests⟩
      obtain ⟨e, failed, raises⟩ | ⟨calm', glances⟩ := swept.outcome
      · refine Step.ends_of_ok (eval_waitUntil_of_failure failed _ _) ?_
        exact ⟨swept.isOpen, .inl ⟨e, failed, raises⟩⟩
      have now : t.world.clock.nowMs =
          s.world.clock.nowMs + (s.sweepers.wakeMs - s.world.clock.nowMs) := by
        rw [glances.clock]
        rfl
      have sleeps : 1 ≤ a.sleepMs := Nat.le_max_right _ _
      have later := ih t swept.stands fun _ => by
        have fuels := fuels wakes.2
        omega
      refine later.mono (fun _ u h => ?_) fun _ _ h => h
      -- Both stretches of time make up the whole one.
      have whole : (s.elapse (s.sweepers.wakeMs - s.world.clock.nowMs)).elapse
          (target - t.world.clock.nowMs) = s.elapse (target - s.world.clock.nowMs) := by
        unfold Session.elapse
        rw [World.elapse_elapse, now]
        congr 2
        omega
      rw [← whole]
      exact h.after (glances.elapse _)
    · rw [if_neg wakes]
      exact ⟨stands.isOpen, .inr ⟨calm, .refl⟩⟩

/-- **The time that passes does not depend on the sweeps** that fall into it. -/
theorem wait_accounts (stands : a.Stands s) (ms : Nat) :
    (a.wait ms : Step (Session σ) ε Unit).Ends s
      (fun _ t => a.Accounts (s.elapse ms) t.sweepers.failure t) (fun _ _ => False) := by
  unfold wait
  rw [Step.ends_bind, Step.ends_get]
  have waited := waitUntil_accounts (ε := ε) (s.world.clock.nowMs + ms) (ms + 2) s stands
    fun _ => by omega
  rwa [Nat.add_sub_cancel_left] at waited

/-- After waiting for the end the run is canceled, or a sweep failed. -/
theorem awaitEnd_ends (stands : a.Stands s) (reach : s.world.Reachable) :
    (a.awaitEnd : Step (Session σ) ε Unit).Ends s
      (fun _ t => a.Stands t ∧ (t.sweepers.failure = none → t.world.isCanceled = true))
      (fun _ _ => False) := by
  unfold awaitEnd
  rw [Step.ends_bind, Step.ends_get]
  by_cases ended : s.isOver = true
  · rw [if_pos ended]
    refine ⟨stands, fun calm => ?_⟩
    rwa [Session.isOver, calm, Option.isSome_none, Bool.or_false] at ended
  rw [if_neg ended, Step.ends_bind]
  refine (wait_accounts stands _).mono (fun _ t waited => ?_) fun _ _ h => h
  rw [Step.ends_bind, Step.ends_get]
  -- A sweep that failed ends the wait; otherwise the operator gives up, which cancels the run.
  obtain ⟨e, failed, raises⟩ | ⟨calm, glances⟩ := waited.outcome
  · rw [failed]
    exact ⟨waited.stands, fun calm => absurd (failed.symm.trans calm) (Option.some_ne_none e)⟩
  · rw [calm]
    have reach' : t.world.Reachable := glances.reachable reach
    exact ⟨⟨waited.isOpen, .inr ⟨calm, .refl⟩⟩, fun _ => (reach'.obey _).2⟩

/-- **A run that waits for good** was canceled, or a sweep raised an error. -/
theorem canceledBefore_ends (stands : a.Stands s) (reach : s.world.Reachable) (next : Int) :
    (a.canceledBefore next).Ends s (fun _ _ => False)
      (fun stop t => stop = .failed (.canceled next) ∧ t.world.isCanceled = true ∨
        stop = .idle ∧ ∃ e, t.sweepers.failure = some e ∧ a.Raises e) := by
  unfold canceledBefore
  rw [Step.ends_bind]
  refine (awaitEnd_ends stands reach).mono ?_ fun _ _ h => h.elim
  rintro _ t ⟨stands, ends⟩
  rw [Step.ends_bind, Step.ends_get]
  by_cases quit : t.world.isCanceled = true
  · rw [if_pos quit]
    exact .inl ⟨rfl, quit⟩
  · rw [if_neg quit]
    obtain ⟨e, failed, raises⟩ | ⟨calm, _⟩ := stands.outcome
    · exact .inr ⟨rfl, e, failed, raises⟩
    · exact absurd (ends calm) quit

/-- A pause that is not the end of the run takes its time. -/
theorem pause_ends (stands : a.Stands s) (reach : s.world.Reachable) (ms : Nat) :
    (a.pause ms : Step (Session σ) ε Unit).Ends s
      (fun _ t => max ms 1 < s.world.clock.patienceMs ∧ t.isOver = false ∧
        a.Glances (s.elapse (max ms 1)) t)
      (fun stop t => stop = .idle ∧ a.Stands t) := by
  unfold pause
  rw [Step.ends_bind, Step.ends_get]
  -- A pause that is longer than the operator is patient is the end of the run.
  by_cases late : s.world.clock.patienceMs ≤ max ms 1
  · rw [if_pos late, Step.ends_bind]
    exact (awaitEnd_ends stands reach).mono (fun _ t h => ⟨rfl, h.1⟩) fun _ _ h => h.elim
  · rw [if_neg late, Step.ends_bind]
    refine (wait_accounts stands _).mono (fun _ t waited => ?_) fun _ _ h => h.elim
    unfold proceed
    rw [Step.ends_bind, Step.ends_get]
    by_cases ended : t.isOver = true
    · rw [if_pos ended]
      exact ⟨rfl, waited.stands⟩
    · rw [if_neg ended]
      have going := Bool.eq_false_iff.mpr ended
      refine ⟨by omega, going, ?_⟩
      obtain ⟨e, failed, _⟩ | ⟨_, glances⟩ := waited.outcome
      · rw [Session.isOver, failed] at ended
        exact absurd (Bool.or_true _) ended
      · exact glances

end Auditor

end BalanceAudit
