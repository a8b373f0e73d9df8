import BalanceAudit.Proofs.Applied
import BalanceAudit.Proofs.Audit
import BalanceAudit.Proofs.Chain.TwoBlocks
import BalanceAudit.Proofs.Mirror
import BalanceAudit.Proofs.Release

/-!
# Only an abort halts an audit

A run cancels its own token when it is done, and an operator who aborts cancels
every token. The two are not mistaken for each other: an audit is halted exactly
if it was aborted, and no run of an audit that was not aborted ends as canceled.

- `Node.Behind`: a node that answers from a chain, with calls that fail or hang and
  an operator who may abort in any of them.
- `Session.Fit`: kept by every move of a run; `World.Startable`: the next run can
  start where the last one ended.
- `PipelineError.IsCanceled`, `Auditor.runPipeline_canceled`: **a run that ends as
  canceled was aborted**.
- `Auditor.Searches.canceled`: so was a search with such a replay.
- `Audit.halted_iff_aborted`: the whole audit, and the search by itself.
-/

namespace BalanceAudit

variable {σ ε α : Type}

/-! ## Operators who abort

Whoever gives up aborts the whole audit, and an abort stays. So a call can cancel the run
under way only by aborting it. -/

/-- The operator asks for nothing but an abort, in whatever call. -/
structure Node.OnlyAborts (n : Node σ) : Prop where
  status : ∀ s, (n.status s).1.signal ≠ some .cancel
  block : ∀ index s, (n.block index s).1.signal ≠ some .cancel
  balance : ∀ h at? s, (n.balance h at? s).1.signal ≠ some .cancel

/-- The node stands between an audit and a chain. Calls may fail, a block may not be
available for a while, and the operator may abort in a call, which then may hang.
What is reported is what the chain has. -/
structure Node.Behind (n : Node σ) (c : Chain) : Prop extends n.Honest c where
  status : ∀ s st, (n.status s).1.reply = some (.ok st) → c.status = .ok st
  tip : ∀ h s r, (n.balance h none s).1.reply = some (.ok r) → c.balance h none = .ok r
  aborts : n.OnlyAborts

namespace World

variable {w : World σ}

/-- An abort stands, whatever signal comes next. -/
theorem obey_aborted {signal : Signal} (aborted : w.cancellation.aborted = true) :
    (w.obey signal).cancellation.aborted = true := by
  cases signal with
  | abort => exact Cancellation.aborted_abort _
  | cancel => exact (Cancellation.aborted_cancel _ _).trans aborted

/-- So it does in a call. -/
theorem call_aborted (f : σ → Answer α × σ) (aborted : w.cancellation.aborted = true) :
    (w.call f).2.cancellation.aborted = true := by
  unfold call
  dsimp only
  split
  · exact obey_aborted aborted
  · exact aborted

/-- The operator aborts when giving up, and unless that was done, only tokens that
were made are canceled. -/
structure Startable (w : World σ) : Prop where
  surrender : w.surrender = .abort
  made : w.cancellation.aborted = true ∨
    w.cancellation.Sound ∧ w.token.id ≤ w.cancellation.made

/-- Only tokens and the operator matter. -/
theorem Startable.of_sameRun {v : World σ} (h : v.Startable) (same : v.SameRun w) :
    w.Startable := by
  constructor
  · exact same.surrender.trans h.surrender
  · rw [same.cancellation, same.token]
    exact h.made

/-- A call leaves the next run startable, since the operator only aborts. -/
theorem Startable.call (h : w.Startable) (f : σ → Answer α × σ)
    (aborts : (f w.node).1.signal ≠ some .cancel) : (w.call f).2.Startable := by
  rcases w.call_cases f aborts with same | aborted
  · rw [same]
    exact h.of_sameRun ⟨rfl, rfl, rfl⟩
  · rw [aborted]
    exact ⟨h.surrender, .inl (Cancellation.aborted_abort _)⟩

/-- A run that starts so is canceled by an abort only. -/
theorem Startable.enter_abortable (h : w.Startable) : w.enter.Abortable :=
  ⟨Orderly.enter (h.made.imp_right And.left), h.surrender⟩

end World

/-! ## What every move keeps

A move cancels by an abort alone. So a session stays fit whatever the move is, and so it
does in every part of a run. -/

/-- The tokens of the run were made. -/
structure Session.Fit (s : Session σ) : Prop where
  surrender : s.world.surrender = .abort
  made : s.world.cancellation.aborted = true ∨ s.world.cancellation.Sound ∧
    s.world.token.id < s.world.cancellation.made ∧ s.shutdown.id < s.world.cancellation.made

namespace Session.Fit

variable {s t : Session σ}

/-- A session whose world is that of a run about to start. -/
theorem enter (startable : s.world.Startable) (shutdown : s.shutdown = s.world.token) :
    Session.Fit { s with world := s.world.enter } := by
  refine ⟨startable.surrender, ?_⟩
  show s.world.cancellation.fresh.2.aborted = true ∨ s.world.cancellation.fresh.2.Sound ∧
    s.world.cancellation.fresh.1.id < s.world.cancellation.fresh.2.made ∧
    s.shutdown.id < s.world.cancellation.fresh.2.made
  -- A fresh token is newer than all that were canceled, unless the abort was before.
  cases aborted : s.world.cancellation.aborted with
  | true => exact .inl (Cancellation.fresh_of_aborted aborted).2
  | false =>
    obtain quit | ⟨sound, made⟩ := startable.made
    · exact absurd (aborted.symm.trans quit) (by decide)
    · refine .inr ⟨sound.fresh aborted, ?_⟩
      rw [Cancellation.fresh_of_not_aborted aborted, shutdown]
      exact ⟨Nat.lt_succ_self _, Nat.lt_succ_of_le made⟩

/-- What matters is the same in both sessions. -/
theorem of_sameRun (h : s.Fit) (same : s.world.SameRun t.world)
    (shutdown : t.shutdown = s.shutdown) : t.Fit := by
  constructor
  · exact same.surrender.trans h.surrender
  · rw [same.cancellation, same.token, shutdown]
    exact h.made

/-- After an abort it does not matter who made which token. -/
theorem of_aborted (surrender : s.world.surrender = .abort)
    (aborted : s.world.cancellation.aborted = true) : s.Fit := ⟨surrender, .inl aborted⟩

/-- Canceling a token of the run, which is how it ends. -/
theorem cancel (h : s.Fit) {token : Token}
    (own : token = s.world.token ∨ token = s.shutdown) :
    Session.Fit { s with world.cancellation := s.world.cancellation.cancel token } := by
  refine ⟨h.surrender, ?_⟩
  show (s.world.cancellation.cancel token).aborted = true ∨
    (s.world.cancellation.cancel token).Sound ∧ _ < (s.world.cancellation.cancel token).made ∧
      _ < (s.world.cancellation.cancel token).made
  rw [Cancellation.aborted_cancel, Cancellation.made_cancel]
  refine h.made.imp_right fun ⟨sound, token', shutdown⟩ => ⟨sound.cancel ?_, token', shutdown⟩
  rcases own with rfl | rfl
  · exact token'
  · exact shutdown

/-- The next run can start where the tokens of this one were made. -/
theorem startable (h : s.Fit) : s.world.Startable :=
  ⟨h.surrender, h.made.imp_right fun ⟨sound, token, _⟩ => ⟨sound, token.le⟩⟩

end Session.Fit

/-- Another run may start when one has. -/
theorem World.Startable.enter {w : World σ} (h : w.Startable) : w.enter.Startable := by
  have fit := Session.Fit.enter (s := { world := w, store := .scratch }) h rfl
  exact fit.startable

namespace Auditor

variable {a : Auditor σ} {p : Scope} {s t : Session σ}

/-- No move takes an abort back. -/
theorem Move.aborted (move : a.Move p s t) (aborted : s.world.cancellation.aborted = true) :
    t.world.cancellation.aborted = true := by
  cases move with
  | fetch => exact World.call_aborted _ aborted
  | lookup => exact World.call_aborted _ aborted
  | giveUp => exact World.obey_aborted aborted
  | finish => exact (Cancellation.aborted_cancel _ _).trans aborted
  | _ => exact aborted

/-- Every move keeps the tokens made: none is canceled but those of the run. -/
theorem Move.fit (aborts : a.node.OnlyAborts) (move : a.Move p s t) (fit : s.Fit) : t.Fit := by
  -- A call brings no signal, or an abort.
  have call : ∀ {α : Type} (f : σ → Answer α × σ), (f s.world.node).1.signal ≠ some .cancel →
      Session.Fit { s with world := (s.world.call f).2 } := by
    intro α f only
    rcases s.world.call_cases f only with same | quit
    · rw [same]
      exact fit.of_sameRun ⟨rfl, rfl, rfl⟩ rfl
    · rw [quit]
      exact .of_aborted fit.surrender (Cancellation.aborted_abort _)
  cases move with
  | fetch => exact call _ (aborts.block _ _)
  | lookup => exact call _ (aborts.balance _ _ _)
  | giveUp =>
    rw [fit.surrender]
    exact .of_aborted fit.surrender (Cancellation.aborted_abort _)
  | finish => exact fit.cancel (.inr rfl)
  | _ => exact fit.of_sameRun ⟨rfl, rfl, rfl⟩ rfl

/-- Before its range is done, a run is canceled by an abort only. -/
theorem Move.abortable (aborts : a.node.OnlyAborts) (unfinished : ¬p.finishes)
    (move : a.Move p s t) (h : s.world.Abortable) : t.world.Abortable := by
  cases move with
  | fetch => exact h.call _ (aborts.block _ _)
  | lookup => exact h.call _ (aborts.balance _ _ _)
  | giveUp =>
    rw [h.2]
    exact h.abort
  | finish allowed => exact absurd allowed unfinished
  | _ => exact h.of_sameRun ⟨rfl, rfl, rfl⟩

/-- So is a part of the run that does not end the range. -/
theorem abortable_of_moves (aborts : a.node.OnlyAborts) {x : Step (Session σ) ε α}
    (moves : a.Moves .within x) (h : s.world.Abortable) :
    x.Ends s (fun _ t => t.world.Abortable) (fun _ t => t.world.Abortable) :=
  moves.ends (fun _ _ move => move.abortable aborts id) h

/-! ## Canceled runs

A part of a run that ends as canceled was found to be over, and with a token that only an
abort can cancel it was aborted. The error keeps that meaning on its way out of the
pipeline. -/

/-- To be stuck is not to be canceled. -/
theorem uncanceled_idle : Uncanceled .idle := by
  intro next same
  cases same

/-- An overflow is no cancellation either. -/
theorem uncanceled_overflow (what : Overflow) : Uncanceled (.overflow what) := by
  intro next same
  cases same

/-- Applying a block is never canceled by itself. -/
theorem applyBlock_stopsWith (a : Auditor σ) (index : Int) :
    Step.StopsWith Uncanceled (a.applyBlock a.workers index) := by
  have worker : ∀ {β : Type} (b : Block) (x : Step (Session σ) WorkerError β),
      Step.StopsWith Uncanceled (Step.mapError (SyncError.worker b.id) x) := by
    intro β b x s
    rw [Step.ends_mapError]
    refine (Step.Ends.self x s).mono (fun _ _ _ => trivial) fun stop _ _ => ?_
    cases stop <;> exact fun _ => nofun
  refine (a.fetchBlock_stopsWith index).bind fun b => (worker b _).bind fun batch => ?_
  refine .bind (fun s => ?_) fun _ => .bind (.modify _) fun _ => worker b _
  exact Step.ends_commit (fun _ => trivial) fun stop _ => by cases stop <;> exact fun _ => nofun

/-- **Following ends as canceled only after an abort.** The induction is on the
blocks that may still come; applying them keeps the run abortable. -/
theorem syncFrom_canceled (aborts : a.node.OnlyAborts) {last : Option Int} (fuel : Nat) :
    ∀ (next : Int) (s : Session σ), s.world.Abortable →
      (a.syncFrom a.workers last fuel next).Ends s (fun _ _ => True)
        (fun stop t => Uncanceled stop ∨ t.world.cancellation.aborted = true) := by
  induction fuel with
  | zero => exact fun _ _ _ => .inl uncanceled_idle
  | succ fuel ih =>
    intro next s abortable
    unfold syncFrom
    by_cases done : last.any (· < next) = true
    · rw [if_pos done]
      trivial
    rw [if_neg done, Step.ends_bind, Step.ends_attempt]
    have moves : a.Moves .within (a.applyBlock a.workers next) :=
      a.applyBlock_moves trivial trivial (a.observer_moves trivial) trivial trivial
    have kept := abortable_of_moves aborts moves abortable
    refine (kept.and (a.applyBlock_stopsWith next s)).mono (fun _ t h => ?_) ?_
    · show Step.Ends (Step.within .next (Index.next? next) >>= a.syncFrom a.workers last fuel) t _ _
      rw [Step.ends_bind, Step.ends_within]
      exact ⟨fun after _ => ih after t h.1, fun _ => .inl (uncanceled_overflow .next)⟩
    -- Behind a stuck block the run waits for its end, and is canceled then only if it was
    -- aborted.
    rintro stop t ⟨still, cause⟩
    cases stop with
    | failed e => exact .inl cause
    | overflow => exact .inl cause
    | idle =>
      show Step.Ends (a.canceledBefore next) t _ _
      unfold canceledBefore
      rw [Step.ends_bind]
      have waited := abortable_of_moves aborts (ε := SyncError)
        (a.awaitEnd_moves trivial trivial) still
      have never := a.awaitEnd_stopsWith (p := Uncanceled) t
      refine (waited.and never).mono (fun _ u h => ?_) fun _ _ h => .inl h.2
      rw [Step.ends_bind, Step.ends_get]
      by_cases quit : u.world.isCanceled = true
      · rw [if_pos quit]
        exact .inr (h.1.aborted quit)
      · rw [if_neg quit]
        exact .inl uncanceled_idle

end Auditor

/-- The run was canceled before some block. -/
def PipelineError.IsCanceled (e : PipelineError) : Prop := ∃ next, e = .sync (.canceled next)

namespace Auditor

variable {a : Auditor σ} {first : Int} {last : Option Int} {s : Session σ}

/-- The run was aborted if it ended as canceled. -/
def CanceledByAbort (stop : Stop PipelineError) (t : Session σ) : Prop :=
  ∀ e, stop = .failed e → e.IsCanceled → t.world.cancellation.aborted = true

/-- An error of the checks is not that of a canceled run. -/
theorem CanceledByAbort.of_reconcile {stop : Stop ReconcileError} {t : Session σ} :
    CanceledByAbort (stop.map .reconcile) t := by
  rintro e failed ⟨next, rfl⟩
  cases stop <;> cases failed

/-- So no part that only checks ends as canceled. -/
theorem mapError_reconcile_canceled (x : Step (Session σ) ReconcileError α) (s : Session σ) :
    (Step.mapError PipelineError.reconcile x).Ends s (fun _ _ => True) CanceledByAbort := by
  rw [Step.ends_mapError]
  exact (Step.Ends.self x s).mono (fun _ _ _ => trivial) fun _ _ _ => .of_reconcile

/-- Nor does the error of a sweep that is raised. -/
theorem sweepFailure_canceled (s : Session σ) :
    (sweepFailure : Step (Session σ) PipelineError Unit).Ends s (fun _ t => t = s)
      CanceledByAbort := by
  rw [ends_sweepFailure]
  cases s.sweepers.failure with
  | none => exact rfl
  | some e =>
    have cause : CanceledByAbort (Stop.map PipelineError.reconcile (.failed e)) s := .of_reconcile
    exact cause

/-- Following ends as canceled only after an abort. -/
theorem follow_canceled (aborts : a.node.OnlyAborts) (abortable : s.world.Abortable) :
    (a.follow first last).Ends s (fun _ _ => True) CanceledByAbort := by
  unfold follow
  rw [Step.ends_bind, Step.ends_attempt, Step.ends_mapError]
  refine (syncFrom_canceled aborts _ first s abortable).mono (fun _ _ _ => trivial) ?_
  rintro stop t h
  cases stop with
  | idle =>
    show Step.Ends (sweepFailure >>= fun _ => Step.idle) t _ _
    rw [Step.ends_bind]
    exact (sweepFailure_canceled t).mono (fun _ _ _ _ => nofun) fun _ _ h => h
  | overflow => exact fun _ => nofun
  | failed e =>
    rintro _ ⟨rfl⟩ ⟨next, canceled⟩
    exact h.resolve_left fun other => other next (by rw [PipelineError.sync.inj canceled])

/-- So do both sides of a run. -/
theorem runBoth_canceled (aborts : a.node.OnlyAborts) (abortable : s.world.Abortable)
    (first : Int) (last : Option Int) :
    (a.runBoth first last).Ends s (fun _ _ => True) CanceledByAbort := by
  unfold runBoth
  by_cases done : last.any (· < first) = true
  · rw [if_pos done, Step.ends_bind]
    refine (follow_canceled aborts abortable).mono (fun _ t _ => ?_) fun _ _ h => h
    split
    · exact mapError_reconcile_canceled _ t
    · trivial
  rw [if_neg done, Step.ends_bind, Step.ends_get]
  -- A run whose token is canceled before it starts was aborted already.
  by_cases quit : s.world.isCanceled = true
  · rw [if_pos quit]
    exact fun _ _ _ => abortable.aborted quit
  rw [if_neg quit]
  by_cases enabled : a.settings.enabled = true
  · rw [if_pos enabled, Step.ends_bind]
    have kept := abortable_of_moves aborts
      ((a.startReconciler_moves trivial trivial).mapError PipelineError.reconcile) abortable
    refine (kept.and (mapError_reconcile_canceled a.startReconciler s)).mono
      (fun _ t h => ?_) fun _ _ h => h.2
    rw [Step.ends_bind]
    refine (sweepFailure_canceled t).mono (fun _ u same => ?_) fun _ _ h => h
    exact follow_canceled aborts (same ▸ h.1)
  · rw [if_neg enabled]
    exact follow_canceled aborts abortable

/-- **A run that ends as canceled was aborted**, although it cancels its own token at
the end. Another run can start where it ended. -/
theorem runPipeline_canceled (aborts : a.node.OnlyAborts) (abortable : s.world.Abortable)
    (fit : s.Fit) (first : Int) (last : Option Int) :
    (a.runPipeline first last).Ends s (fun _ t => t.Fit)
      (fun stop t => CanceledByAbort stop t ∧ t.Fit) := by
  have kept := runPipeline_keeps_all (a := a) first last (fun _ _ move => move.fit aborts)
    (fun _ fit => fit.cancel (.inl rfl)) fit
  have cause := runBoth_canceled aborts abortable first last
  unfold Step.Ends at cause ⊢
  rw [runPipeline_eval] at kept ⊢
  rcases eq : (a.runBoth first last).eval s with ⟨stop | _, t⟩
  · rw [eq] at kept cause
    refine ⟨fun e failed canceled => ?_, kept⟩
    exact (Cancellation.aborted_cancel _ _).trans (cause e failed canceled)
  · rw [eq] at kept
    exact kept

end Auditor

/-! ## Searches

By induction on the replays: the world that one of them leaves is the one that the next of
them starts in. -/

/-- The replay did not end as canceled. -/
def Replay.Uncanceled (r : Replay) : Prop := ∀ e, r.result = .error (.failed e) → ¬e.IsCanceled

namespace Auditor

variable {a : Auditor σ} {s t : Search σ} {r : Replay} {rs : List Replay}

/-- What the replay of a window keeps, and why it ended as canceled. -/
theorem Replayed.canceled (aborts : a.node.OnlyAborts) (replayed : a.Replayed s r t)
    (startable : s.world.Startable) :
    t.world.Startable ∧ (t.world.cancellation.aborted = false → r.Uncanceled) := by
  obtain ⟨u, ran, world, _⟩ := replayed.run
  have abortable : (s.session r.window).world.Abortable :=
    startable.enter_abortable.of_sameRun ⟨rfl, rfl, rfl⟩
  -- The token of the replay is its shutdown token as well.
  have fit : (s.session r.window).Fit := by
    have entered : Session.Fit { world := s.world.enter, store := .scratch } := by
      have fit := Session.Fit.enter (s := { world := s.world, store := .scratch }) startable rfl
      exact ⟨fit.surrender, fit.made.imp_right fun ⟨sound, token, _⟩ => ⟨sound, token, token⟩⟩
    exact entered.of_sameRun ⟨rfl, rfl, rfl⟩ rfl
  have ends := runPipeline_canceled aborts abortable fit r.window.first (some r.window.last)
  rw [world]
  cases result : r.result with
  | ok =>
    rw [result] at ran
    refine ⟨(ends.of_ok ran).startable, fun _ e failed => ?_⟩
    rw [result] at failed
    cases failed
  | error stop =>
    rw [result] at ran
    obtain ⟨cause, fit⟩ := ends.of_error ran
    refine ⟨fit.startable, fun running e failed canceled => ?_⟩
    rw [result] at failed
    cases failed
    exact absurd ((cause e rfl canceled).symm.trans running) (by decide)

/-- **A replay that ends as canceled ends the search as aborted.** No window is replayed
behind it. -/
theorem Searches.canceled (aborts : a.node.OnlyAborts) (searches : a.Searches s rs t)
    (startable : s.world.Startable) :
    t.world.Startable ∧ (t.world.cancellation.aborted = false → ∀ r ∈ rs, r.Uncanceled) := by
  induction searches with
  | stop => exact ⟨startable, fun _ _ mem => absurd mem List.not_mem_nil⟩
  | refused _ => exact ⟨startable.enter, fun _ _ mem => absurd mem List.not_mem_nil⟩
  | @replay s t u r rs first rest ih =>
    obtain ⟨later, uncanceled⟩ := first.canceled aborts startable
    obtain ⟨ended, others⟩ := ih later
    refine ⟨ended, fun running => List.forall_mem_cons.mpr ⟨uncanceled ?_, others running⟩⟩
    -- Behind a replay that was aborted there is no other one, by what `next` starts from.
    cases rest with
    | stop => exact running
    | refused before => exact before
    | replay next _ => exact next.running

/-- A search that comes to an answer is halted exactly if it was aborted, unless its first
window is invalid. -/
theorem findMissing_canceled (aborts : a.node.OnlyAborts) (startable : s.world.Startable)
    (h : Holding) (observed step genesis : Int)
    (valid : s.world.cancellation.aborted = false ∨
      ∃ w, SearchWindow.initial observed step genesis = .ok w) :
    ∃ rs, (a.strict h).Searches s rs ((a.findMissing h observed step genesis).eval s).2 ∧
      (((a.findMissing h observed step genesis).eval s).2.world.cancellation.aborted = false →
        ∀ r ∈ rs, r.Uncanceled) ∧
      ((∀ what, ((a.findMissing h observed step genesis).eval s).1 ≠ .error (.overflow what)) →
        (((a.findMissing h observed step genesis).eval s).1 = .error (.failed .halted) ↔
          ((a.findMissing h observed step genesis).eval s).2.world.cancellation.aborted =
            true)) := by
  have ends := findMissing_searches a h observed step genesis s
  unfold Step.Ends at ends
  rcases eq : (a.findMissing h observed step genesis).eval s with ⟨stop | id, t⟩
  · rw [eq] at ends
    obtain ⟨halts, rs, _, searches⟩ := ends
    refine ⟨rs, searches, (Searches.canceled (a := a.strict h) aborts searches startable).2,
      fun inside => ?_⟩
    rcases halts with halts | ⟨rfl, e, invalid, rfl⟩
    · have halts := halts fun what same => inside what (by rw [same])
      exact ⟨fun halted => halts.mp (Except.error.inj halted), fun quit => by rw [halts.mpr quit]⟩
    -- An invalid range is refused before the search starts; an abort that came before is ruled
    -- out.
    · rcases valid with running | ⟨w, initial⟩
      · exact ⟨nofun, fun quit => absurd (running.symm.trans quit) (by decide)⟩
      · cases invalid.symm.trans initial
  · rw [eq] at ends
    obtain ⟨running, rs, _, searches⟩ := ends
    refine ⟨rs, searches, (Searches.canceled (a := a.strict h) aborts searches startable).2,
      fun _ => ?_⟩
    exact ⟨nofun, fun quit => absurd (running.symm.trans quit) (by decide)⟩

end Auditor

/-! ## Audits

An audit asks the node a few things before its run starts; none of these calls takes the
start of the run away. -/

/-- What a search of an audit works on. -/
def Site.search (site : Site σ) : Search σ := ⟨site.world, site.scratch⟩

namespace Audit

variable {u : Audit σ} {site site' : Site σ} {settings : Settings} {genesis : BlockId}

/-- A call that is answered leaves nothing but the world changed. -/
theorem ask_ends (site : Site σ) (call : σ → Answer α × σ) :
    (Site.ask call).Ends site
      (fun r site' => (call site.world.node).1.reply = some (.ok r) ∧
        site' = { site with world := (site.world.call call).2 })
      (fun _ _ => True) := by
  unfold Site.ask
  rw [Step.ends_bind, Step.ends_get]
  show Step.Ends (set { site with world := (site.world.call call).2 } >>= fun _ => _) site _ _
  rw [Step.ends_bind, Step.ends_set]
  rcases (call site.world.node).1.reply with _ | _ | r
  · trivial
  · trivial
  · exact ⟨rfl, rfl⟩

/-- Loading the settings changes nothing. -/
theorem settings_leaves (u : Audit σ) (site : Site σ) :
    u.settings.Ends site (fun _ site' => site' = site) (fun _ _ => True) := by
  unfold settings
  rw [Step.ends_bind, Step.ends_get]
  dsimp only
  rw [Step.ends_bind]
  cases loadHoldings (site.files.read? u.config.interestingAccounts) with
  | error e => trivial
  | ok interesting =>
    rw [Step.ends_ofExcept_ok, Step.ends_bind]
    cases loadHoldings (site.files.read? u.config.exemptAccounts) with
    | error e => trivial
    | ok exempt => rfl

/-- Following the chain under a token of its own. -/
theorem follow_canceled (aborts : u.node.OnlyAborts) {s : Session σ}
    (startable : s.world.Startable) (shutdown : s.shutdown = s.world.token) (settings : Settings)
    (genesis : BlockId) (manifest : Option (Except FileFault String)) :
    (u.follow settings genesis manifest).Ends s
      (fun report t => t.world.Startable ∧
        ∀ e, report.result = .error e → e.IsCanceled → t.world.cancellation.aborted = true)
      (fun _ _ => True) := by
  -- A manifest only changes the store.
  suffices unseeded : ∀ t : Session σ, t.world = s.world → t.shutdown = s.shutdown →
      (u.follow settings genesis none).Ends t
        (fun report t => t.world.Startable ∧
          ∀ e, report.result = .error e → e.IsCanceled → t.world.cancellation.aborted = true)
        (fun _ _ => True) by
    cases manifest with
    | none => exact unseeded s rfl rfl
    | some manifest =>
      unfold follow
      dsimp only
      rw [Step.ends_bind]
      exact Step.ends_onStore (fun _ _ => unseeded _ rfl rfl) fun _ _ => trivial
  intro t world same
  have fit : Session.Fit { t with world := t.world.enter } :=
    .enter (world ▸ startable) (by rw [same, shutdown, world])
  have abortable : t.world.enter.Abortable := by
    rw [world]
    exact startable.enter_abortable
  unfold follow
  rw [Step.ends_bind, Step.ends_read]
  split
  · trivial
  rw [Step.ends_bind]
  cases u.firstIndex? genesis t.store.ledger with
  | none => trivial
  | some first =>
  show Step.Ends (Step.onWorld World.enter >>= _) t _ _
  rw [Step.ends_bind]
  refine Step.ends_of_ok (Step.eval_onWorld _ _) ?_
  show Step.Ends
    (Step.attempt (Auditor.runPipeline ⟨u.node, settings⟩ first u.config.endIndex) >>= _)
    { t with world := t.world.enter } _ _
  rw [Step.ends_bind, Step.ends_attempt]
  refine (Auditor.runPipeline_canceled (a := ⟨u.node, settings⟩) aborts abortable fit _ _).mono
    ?_ ?_
  · exact fun _ v fit => ⟨fit.startable, fun _ => nofun⟩
  · rintro stop v ⟨cause, fit⟩
    cases stop with
    | failed e =>
      refine ⟨fit.startable, fun e' failed => ?_⟩
      cases failed
      exact cause e rfl
    | idle => trivial
    | overflow => trivial

/-- The same with the store of the directory, which is closed if the run ended it. -/
theorem followOn_canceled (aborts : u.node.OnlyAborts) (startable : site.world.Startable)
    (directory : String) :
    (u.followOn settings genesis directory).Ends site
      (fun report site' => site'.scratch = site.scratch ∧ site'.world.Startable ∧
        (site'.isAborted = false → ∀ e, report.result = .error e → ¬e.IsCanceled))
      (fun _ _ => True) := by
  unfold followOn
  rw [Step.ends_bind, Step.ends_get]
  dsimp only
  rw [Step.ends_bind]
  cases site.files.disk directory with
  | error fault => trivial
  | ok disk =>
    rw [Step.ends_ofExcept_ok, Step.ends_bind]
    cases Store.openAt disk with
    | error e => trivial
    | ok store =>
      rw [Step.ends_ofExcept_ok]
      -- What the files hold decides only the session that the run starts from.
      have ends := follow_canceled aborts (s := u.session site store) startable rfl settings genesis
        (site.files.read? u.config.bootstrapBalances)
      unfold session at ends
      rcases eq : (u.follow settings genesis (site.files.read? u.config.bootstrapBalances)).eval
        { world := site.world, store := store.withInterval u.config.storeFlushInterval }
        with ⟨stop | report, t⟩
      · exact trivial
      · obtain ⟨later, cause⟩ := ends.of_ok eq
        dsimp only
        rw [Step.ends_bind, Step.ends_set, Step.ends_bind]
        cases (if ended (Except.ok (ε := Stop AuditError) report) then t.store.close
          else (.ok (), t.store)).1 with
        | error e => trivial
        | ok _ =>
          refine ⟨rfl, later, fun running e failed canceled => ?_⟩
          exact absurd ((cause e failed canceled).symm.trans running) (by decide)

/-- The verdict of a search is halted if the search was, and only then. -/
theorem searchVerdict_eq_halted {h : Holding} {r : Except LocalizeError BlockId} :
    searchVerdict h r = .halted ↔ r = .error .halted := by
  rcases r with (_ | _ | _ | _ | _) | _ <;> simp [searchVerdict]

/-- The search of an audit, from the block at which the balance was wrong. -/
theorem localize_canceled (aborts : u.node.OnlyAborts) (startable : site.world.Startable)
    (h : Holding) (observed : BlockId)
    (valid : site.isAborted = false ∨ ∃ w, SearchWindow.initial observed.index
      u.config.lookbackWindow genesis.index = .ok w) :
    (u.localize settings genesis h observed).Ends site
      (fun v site' => (v = .halted ↔ site'.isAborted = true) ∧ ∃ rs,
        (Auditor.strict ⟨u.node, settings⟩ h).Searches site.search rs site'.search ∧
          (site'.isAborted = false → ∀ r ∈ rs, r.Uncanceled))
      (fun _ _ => True) := by
  have search := Auditor.findMissing_canceled (a := ⟨u.node, settings⟩) (s := site.search) aborts
    startable h observed.index u.config.lookbackWindow genesis.index valid
  unfold localize
  rw [Step.ends_bind, Step.ends_get]
  unfold Site.search at search
  dsimp only
  rcases eq : (Auditor.findMissing ⟨u.node, settings⟩ h observed.index u.config.lookbackWindow
    genesis.index).eval ⟨site.world, site.scratch⟩ with ⟨result, t⟩
  rw [eq] at search
  obtain ⟨rs, searches, uncanceled, halts⟩ := search
  rw [Step.ends_bind, Step.ends_set]
  -- The verdict is halted exactly where the search's own error is, and that is where it was
  -- aborted.
  rcases result with (e | _ | _) | b
  · have halts := halts fun _ => nofun
    refine ⟨?_, rs, searches, uncanceled⟩
    rw [searchVerdict_eq_halted]
    exact ⟨fun same => halts.mp (by rw [Except.error.inj same]), fun quit => by
      cases halts.mpr quit; rfl⟩
  · trivial
  · trivial
  · have halts := halts fun _ => nofun
    refine ⟨?_, rs, searches, uncanceled⟩
    rw [searchVerdict_eq_halted]
    exact ⟨nofun, fun quit => nomatch halts.mpr quit⟩

/-- What an audit comes to by following the chain, before a search. -/
def Follows (u : Audit σ) (site : Site σ) (settings : Settings) (report : Report)
    (site' : Site σ) : Prop :=
  ∃ st asked, (Site.ask u.node.status).eval site = (.ok st, asked) ∧
    u.settings.eval asked = (.ok settings, asked) ∧
    (u.followOn settings st.genesis (u.directory st.network)).eval asked = (.ok report, site')

/-- What a search by itself asks for first. -/
def Prepares (u : Audit σ) (site : Site σ) (observed : Int) (settings : Settings)
    (site' : Site σ) : Prop :=
  ∃ st asked b, (Site.ask u.node.status).eval site = (.ok st, asked) ∧
    u.settings.eval asked = (.ok settings, asked) ∧
    (Site.ask (u.node.block observed)).eval asked = (.ok (some b), site')

end Audit

/-- The search of an audit behind `mid`: each replay took its slot when nobody had
aborted, these are all slots since `start`, and none of them ended as canceled unless
the search was aborted. -/
structure Site.Searched (a : Auditor σ) (start mid site' : Site σ) (rs : List Replay) : Prop where
  replays : a.Searches mid.search rs site'.search
  slots : Scratch.Released start.scratch site'.scratch rs.length
  uncanceled : site'.isAborted = false → ∀ r ∈ rs, r.Uncanceled

/-- An ending concludes in a halt exactly if it was aborted. -/
theorem Ending.conclusion_eq_halted {e : Ending} :
    e.conclusion = .verdict .halted ↔ e.aborted = true := by
  unfold conclusion success
  constructor
  · intro halted
    by_contra running
    rw [if_neg running] at halted
    split at halted
    · split at halted
      · split at halted <;> cases halted
      · cases halted
    · split at halted
      · cases halted
      · split at halted <;> cases halted
  · intro aborted
    rw [if_pos aborted]

namespace Audit

variable {u : Audit σ} {site : Site σ} {c : Chain} {r : Recording}

/-- **A whole audit is halted exactly if it was aborted.** -/
theorem run_canceled (aborts : u.node.OnlyAborts) (startable : site.world.Startable) :
    u.run.Ends site
      (fun v site' => (v = .halted ↔ site'.isAborted = true) ∧ ∃ settings report followed h rs,
        u.Follows site settings report followed ∧
        Site.Searched (Auditor.strict ⟨u.node, settings⟩ h) site followed site' rs ∧
        (site'.isAborted = false → ∀ e, report.result = .error e → ¬e.IsCanceled))
      (fun _ _ => True) := by
  unfold run
  rw [Step.ends_bind]
  refine ((ask_ends site u.node.status).and (.self _ _)).mono ?_ fun _ _ _ => trivial
  rintro st asked ⟨⟨_, same⟩, askedFor⟩
  have later : asked.world.Startable := by
    rw [same]
    exact startable.call _ (aborts.status _)
  rw [Step.ends_bind]
  refine ((u.settings_leaves asked).and (.self _ _)).mono ?_ fun _ _ _ => trivial
  rintro settings _ ⟨rfl, loaded⟩
  rw [Step.ends_bind]
  refine ((followOn_canceled aborts later _).and (.self _ _)).mono ?_ fun _ _ _ => trivial
  rintro report followed ⟨⟨scratch, startable', uncanceled⟩, ran⟩
  have follows : u.Follows site settings report followed := ⟨st, _, askedFor, loaded, ran⟩
  have unchanged : followed.scratch = site.scratch := by rw [scratch, same]
  rw [Step.ends_bind, Step.ends_get]
  dsimp only
  -- The ending is conclusive, or it calls for a search.
  split
  · next v concluded =>
    refine ⟨?_, settings, report, followed, default, [], follows, ⟨.stop, ?_, ?_⟩, uncanceled⟩
    · have halted := Ending.conclusion_eq_halted.symm.trans
        (by rw [concluded, Conclusion.verdict.injEq])
      exact halted.symm
    · rw [unchanged]
      exact .refl _
    · exact fun _ _ mem => absurd mem List.not_mem_nil
  · next h observed concluded =>
    have running : followed.isAborted = false := by
      by_contra quit
      refine absurd (concluded.symm.trans (Ending.conclusion_eq_halted.mpr ?_)) nofun
      exact Bool.of_not_eq_false quit
    refine (localize_canceled aborts startable' h observed (.inl running)).mono ?_
      fun _ _ h => h
    rintro v site' ⟨halts, rs, searches, replays⟩
    refine ⟨halts, settings, report, followed, h, rs, follows, ⟨searches, ?_, replays⟩, ?_⟩
    · rw [← unchanged]
      exact searches.released
    · exact fun _ => uncanceled running

/-- **So is a search by itself**, if it can start. -/
theorem findMissing_canceled (recorded : r.chain = .ok c)
    (inRange : ∀ b ∈ r.blocks, Index.InRange b.id.index) (behind : u.node.Behind c)
    (valid : u.config.validate = .ok ()) (lookup : u.config.lookup = true)
    (startable : site.world.Startable) (h : Holding) (observed : Int) :
    (u.findMissing h observed).Ends site
      (fun v site' => (v = .halted ↔ site'.isAborted = true) ∧ ∃ settings asked rs,
        u.Prepares site observed settings asked ∧
        Site.Searched (Auditor.strict ⟨u.node, settings⟩ h) site asked site' rs)
      (fun _ _ => True) := by
  have step : 0 < u.config.lookbackWindow := by
    unfold Config.validate at valid
    split at valid
    · cases valid
    · omega
  unfold findMissing
  rw [if_neg (not_not.mpr lookup), Step.ends_bind]
  refine ((ask_ends site u.node.status).and (.self _ _)).mono ?_ fun _ _ _ => trivial
  rintro st asked ⟨⟨reply, same⟩, askedFor⟩
  have later : asked.world.Startable := by
    rw [same]
    exact startable.call _ (behind.aborts.status _)
  have status := behind.status _ _ reply
  rw [Step.ends_bind]
  refine ((u.settings_leaves asked).and (.self _ _)).mono ?_ fun _ _ _ => trivial
  rintro settings _ ⟨rfl, loaded⟩
  rw [Step.ends_bind]
  refine ((ask_ends _ (u.node.block observed)).and (.self _ _)).mono ?_ fun _ _ _ => trivial
  rintro found found' ⟨⟨reply, same'⟩, fetched⟩
  cases found with
  | none => trivial
  | some b =>
    -- The block that is asked about was recorded, so the range from genesis to it is valid.
    obtain ⟨mem, index⟩ := Recording.mem_of_chain recorded (behind.block _ _ _ reply)
    obtain ⟨⟨g, first, genesis⟩, le⟩ :=
      Recording.genesis_le recorded status (behind.block _ _ _ reply)
    obtain ⟨w, initial, _⟩ := SearchWindow.initial_eq step (genesis ▸ (inRange g first).1)
      (inRange b mem).2 (index ▸ le)
    have startable' : found'.world.Startable := by
      rw [same']
      exact later.call _ (behind.aborts.block _ _)
    refine (localize_canceled behind.aborts startable' h b.id (.inr ⟨w, initial⟩)).mono ?_
      fun _ _ h => h
    rintro v site' ⟨halts, rs, searches, replays⟩
    refine ⟨halts, settings, found', rs, ⟨st, _, b, askedFor, loaded, fetched⟩, searches, ?_,
      replays⟩
    have unchanged : found'.scratch = site.scratch := by rw [same', same]
    rw [← unchanged]
    exact searches.released

/-- **Abort dominates, and nothing else looks like an abort.** In front of any faults
of the node a verdict, of a whole audit or of a search by itself, is halted exactly if
the operator aborted before. No slot is taken once that happened. Unless it happened,
neither the run of the audit nor a replay ended as canceled. -/
theorem halted_iff_aborted (recorded : r.chain = .ok c)
    (inRange : ∀ b ∈ r.blocks, Index.InRange b.id.index) (behind : u.node.Behind c)
    (valid : u.config.validate = .ok ()) (startable : site.world.Startable) :
    (∀ v site', u.run.eval site = (.ok v, site') →
      (v = .halted ↔ site'.isAborted = true) ∧ ∃ settings report followed h rs,
        u.Follows site settings report followed ∧
        Site.Searched (Auditor.strict ⟨u.node, settings⟩ h) site followed site' rs ∧
        (site'.isAborted = false → ∀ e, report.result = .error e → ¬e.IsCanceled)) ∧
    (u.config.lookup = true → ∀ h observed v site',
      (u.findMissing h observed).eval site = (.ok v, site') →
      (v = .halted ↔ site'.isAborted = true) ∧ ∃ settings asked rs,
        u.Prepares site observed settings asked ∧
        Site.Searched (Auditor.strict ⟨u.node, settings⟩ h) site asked site' rs) :=
  ⟨fun _ _ eq => (run_canceled behind.aborts startable).of_ok eq, fun lookup h observed _ _ eq =>
    (findMissing_canceled recorded inRange behind valid lookup startable h observed).of_ok eq⟩

/-- The operator aborts while the second of two blocks is fetched, which the node still
answers. -/
theorem halted_iff_aborted_second :
    let n : Node Unit := { Chain.gap.node with
      block := fun i s => ({ (Chain.gap.node.block i s).1 with
        signal := if i = 1 then some .abort else none }, s) }
    let u : Audit Unit := ⟨n, {}⟩
    let site : Site Unit := { world := { node := () } }
    (∃ site', u.run.eval site = (.ok .halted, site') ∧ site'.isAborted = true) ∧
      ∃ site', (u.findMissing .alice 1).eval site = (.ok .halted, site') ∧
        site'.isAborted = true := by
  intro n u site
  have recorded : Recording.chain ⟨⟨"bitcoin", "regtest"⟩,
      [.changing .alice ⟨0, "a"⟩ ⟨0, "a"⟩ [.whole 1],
        .changing .alice ⟨1, "b"⟩ ⟨0, "a"⟩ [.whole 1]],
      [⟨.alice, 0, .whole 1⟩, ⟨.alice, 1, .whole 3⟩]⟩ = .ok Chain.gap := rfl
  have behind : n.Behind Chain.gap :=
    { block := fun _ _ _ reply => Except.ok.inj (Option.some.inj reply)
      balance := fun _ _ _ _ reply => Option.some.inj reply
      status := fun _ _ reply => Option.some.inj reply
      tip := fun _ _ _ reply => Option.some.inj reply
      aborts := by
        refine ⟨fun _ => nofun, fun index _ => ?_, fun _ _ _ => nofun⟩
        show (if index = 1 then some Signal.abort else none) ≠ some .cancel
        split <;> exact nofun }
  have startable : site.world.Startable :=
    ⟨rfl, .inr ⟨fun _ mem => absurd mem List.not_mem_nil, le_refl _⟩⟩
  have halts := halted_iff_aborted (u := u) recorded (by decide) behind rfl startable
  have ran : (u.run.eval site).1 = .ok .halted := by decide +kernel
  have searched : ((u.findMissing .alice 1).eval site).1 = .ok .halted := by decide +kernel
  have whole : u.run.eval site = (.ok .halted, (u.run.eval site).2) := by rw [← ran]
  have search : (u.findMissing .alice 1).eval site =
      (.ok .halted, ((u.findMissing .alice 1).eval site).2) := by rw [← searched]
  exact ⟨⟨_, whole, (halts.1 _ _ whole).1.mp rfl⟩, _, search, (halts.2 rfl _ _ _ _ search).1.mp rfl⟩

end Audit

end BalanceAudit
