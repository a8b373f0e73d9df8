import BalanceAudit.Sync
import BalanceAudit.Proofs.Cancellation
import BalanceAudit.Proofs.Served
import BalanceAudit.Proofs.Step

/-!
# Waiting in vain

What a run does that waits for a block which never comes: time passes, sweeps
fall into it, and the operator gives up.

- `World.Orderly`: the operator can end the run, and nobody else does.
- `Auditor.pause_stopsWith`: waiting does not fail.
- `Auditor.Waits`: a property of sessions that all of this keeps.
- `Auditor.Waits.fetchFrom_ends`: a missing block is never fetched.
- `Auditor.Waits.syncFrom_ends`: the run ends as canceled before the block.
-/

namespace BalanceAudit

variable {σ : Type}

/-! ## The operator

Whoever gives up aborts, and nobody else cancels the run. -/

/-- An operator who aborts when giving up is the only one who cancels. -/
structure World.Orderly (w : World σ) : Prop where
  reach : w.Reachable
  cause : w.surrender = .abort → w.isCanceled = true → w.cancellation.aborted = true

namespace World

variable {v w : World σ}

theorem Orderly.of_sameRun (h : v.Orderly) (same : v.SameRun w) : w.Orderly := by
  refine ⟨?_, fun surrender quit => ?_⟩
  · rw [Reachable, same.isCanceled, same.cancellation, same.token]
    exact h.reach
  · rw [same.cancellation]
    rw [same.surrender] at surrender
    rw [same.isCanceled] at quit
    exact h.cause surrender quit

/-- An abort keeps a world orderly. -/
theorem Orderly.abort (h : w.Orderly) : (w.obey .abort).Orderly :=
  ⟨(h.reach.obey .abort).1, fun _ _ => Cancellation.aborted_abort _⟩

/-- Every run starts in an orderly world, after an abort with a canceled token. -/
theorem Orderly.enter (sound : w.cancellation.aborted = true ∨ w.cancellation.Sound) :
    w.enter.Orderly := by
  refine ⟨Reachable.enter w, fun _ quit => ?_⟩
  cases aborted : w.cancellation.aborted with
  | false =>
    have fresh := sound.resolve_left (by rw [aborted]; exact Bool.false_ne_true)
    have calm := (enter_fresh aborted fresh).1
    rw [calm] at quit
    cases quit
  | true => exact (Cancellation.fresh_of_aborted aborted).2

end World

/-! ## Waiting

A property that time, sweeps and the operator keep is kept by a wait of any length. -/

/-- The operator gives up. -/
def Session.giveUp (s : Session σ) : Session σ :=
  { s with world := s.world.obey s.world.surrender }

namespace Auditor

section Causes

variable {ε : Type} {p : Stop ε → Prop} (a : Auditor σ)

open Step (StopsWith)

theorem proceed_stopsWith (idle : p .idle) : StopsWith p (proceed : Step (Session σ) ε Unit) :=
  StopsWith.get.bind fun _ => .ite (.throw idle) (.pure _)

theorem sweepRound_stopsWith (n : Nat) (w : Sweepers) :
    StopsWith p (a.sweepRound n w : Step (Session σ) ε Sweepers) := by
  induction n generalizing w with
  | zero => exact .pure _
  | succ n ih =>
    refine (StopsWith.attempt _).bind fun result => ?_
    split <;> exact ih _

theorem waitUntil_stopsWith (target fuel : Nat) :
    StopsWith p (a.waitUntil target fuel : Step (Session σ) ε Unit) := by
  have wake : StopsWith p (a.wake : Step (Session σ) ε Unit) :=
    StopsWith.get.bind fun _ => (a.sweepRound_stopsWith _ _).bind fun _ => .modify _
  induction fuel with
  | zero => exact .pure _
  | succ fuel ih =>
    refine StopsWith.get.bind fun _ => .ite (.pure _) (.ite ?_ (.modify _))
    exact (StopsWith.modify _).bind fun _ => wake.bind fun _ => ih

/-- Waiting for the end of a run never stops: what breaks down in a sweep ends the sweep. -/
theorem awaitEnd_stopsWith : StopsWith p (a.awaitEnd : Step (Session σ) ε Unit) :=
  StopsWith.get.bind fun _ => .ite (.pure _) <|
    (StopsWith.get.bind fun _ => a.waitUntil_stopsWith _ _).bind fun _ =>
      StopsWith.get.bind fun _ => .ite (.modify _) (.pure _)

/-- Waiting has no errors of its own. -/
theorem pause_stopsWith (idle : p .idle) (ms : Nat) :
    StopsWith p (a.pause ms : Step (Session σ) ε Unit) :=
  StopsWith.get.bind fun _ => .ite
    (a.awaitEnd_stopsWith.bind fun _ => .throw idle)
    ((StopsWith.get.bind fun _ => a.waitUntil_stopsWith _ _).bind fun _ =>
      proceed_stopsWith idle)

end Causes

/-- Waiting keeps `P`, with the sweeps that fall into it. If none of them met an error,
giving up ends the run. -/
structure Waits (a : Auditor σ) (P : Session σ → Prop) : Prop where
  elapse : ∀ s ms, P s → P { s with world := s.world.elapse ms }
  wake : ∀ s, P s → s.sweepers.failure = none → s.sweepers.asleep ≠ 0 →
    (a.wake : Step (Session σ) SyncError Unit).Ends s (fun _ => P) (fun _ _ => False)
  giveUp : ∀ s, P s → s.sweepers.failure = none → P s.giveUp ∧ s.giveUp.world.isCanceled = true

variable {a : Auditor σ} {P : Session σ → Prop} {s : Session σ}

namespace Waits

theorem waitUntil_ends (waits : a.Waits P) (target : Nat) :
    ∀ (fuel : Nat) (s : Session σ), P s →
      (a.waitUntil target fuel : Step (Session σ) SyncError Unit).Ends s (fun _ => P)
        (fun _ _ => False) := by
  intro fuel
  induction fuel with
  | zero => exact fun s h => h
  | succ fuel ih =>
    intro s h
    unfold waitUntil
    rw [Step.ends_bind, Step.ends_get]
    dsimp only
    cases failure : s.sweepers.failure with
    | some e => exact h
    | none =>
      rw [Option.isSome_none, if_neg Bool.false_ne_true]
      -- A sleeper that wakes within the pause sweeps first, and the wait goes on from there.
      by_cases wakes : s.sweepers.asleep ≠ 0 ∧ s.sweepers.wakeMs ≤ target
      · rw [if_pos wakes, Step.ends_bind]
        refine Step.ends_of_ok (Step.eval_onWorld _ _) ?_
        rw [Step.ends_bind]
        refine (waits.wake _ (waits.elapse s _ h) failure wakes.1).mono (fun _ t kept => ?_)
          fun _ _ h => h
        exact ih t kept
      · rw [if_neg wakes]
        exact waits.elapse s _ h

theorem wait_ends (waits : a.Waits P) (h : P s) (ms : Nat) :
    (a.wait ms : Step (Session σ) SyncError Unit).Ends s (fun _ => P) (fun _ _ => False) := by
  unfold wait
  rw [Step.ends_bind, Step.ends_get]
  exact waits.waitUntil_ends _ _ s h

/-- After waiting for the end the run is over. -/
theorem awaitEnd_ends (waits : a.Waits P) (h : P s) :
    (a.awaitEnd : Step (Session σ) SyncError Unit).Ends s
      (fun _ t => P t ∧ t.isOver = true) (fun _ _ => False) := by
  unfold awaitEnd
  rw [Step.ends_bind, Step.ends_get]
  by_cases ended : s.isOver = true
  · rw [if_pos ended]
    exact ⟨h, ended⟩
  · rw [if_neg ended, Step.ends_bind]
    refine (waits.wait_ends h _).mono (fun _ t kept => ?_) fun _ _ h => h
    rw [Step.ends_bind, Step.ends_get]
    cases failure : t.sweepers.failure with
    | some e =>
      refine ⟨kept, ?_⟩
      rw [Session.isOver, failure, Option.isSome_some, Bool.or_true]
    | none =>
      obtain ⟨gaveUp, quit⟩ := waits.giveUp t kept failure
      refine ⟨gaveUp, ?_⟩
      show t.giveUp.isOver = true
      rw [Session.isOver, quit, Bool.true_or]

/-- What is kept when a run cannot go on at block `next`: it ends as canceled, or it is left
to a sweep that met an error. -/
def Halts (P : Session σ → Prop) (next : Int) (stop : Stop SyncError) (t : Session σ) : Prop :=
  P t ∧ (stop = .failed (.canceled next) ∧ t.world.isCanceled = true ∨
    stop = .idle ∧ t.sweepers.failure ≠ none)

/-- A run that is idle ends as canceled, unless a sweep met an error. -/
theorem canceledBefore_ends (waits : a.Waits P) (h : P s) (next : Int) :
    (a.canceledBefore next).Ends s (fun _ _ => False) (Halts P next) := by
  unfold canceledBefore
  rw [Step.ends_bind]
  refine (waits.awaitEnd_ends h).mono ?_ fun _ _ h => h.elim
  rintro _ t ⟨kept, ended⟩
  rw [Step.ends_bind, Step.ends_get]
  by_cases quit : t.world.isCanceled = true
  · rw [if_pos quit]
    exact ⟨kept, .inl ⟨rfl, quit⟩⟩
  · rw [if_neg quit]
    refine ⟨kept, .inr ⟨rfl, fun none_ => quit ?_⟩⟩
    rwa [Session.isOver, none_, Option.isSome_none, Bool.or_false] at ended

theorem pause_ends (waits : a.Waits P) (h : P s) (ms : Nat) :
    (a.pause ms : Step (Session σ) SyncError Unit).Ends s (fun _ => P)
      (fun stop t => stop = .idle ∧ P t) := by
  unfold pause
  rw [Step.ends_bind, Step.ends_get]
  by_cases late : s.world.clock.patienceMs ≤ max ms 1
  · rw [if_pos late, Step.ends_bind]
    exact (waits.awaitEnd_ends h).mono (fun _ t kept => ⟨rfl, kept.1⟩) fun _ _ h => h.elim
  · rw [if_neg late, Step.ends_bind]
    refine (waits.wait_ends h _).mono (fun _ t kept => ?_) fun _ _ h => h.elim
    unfold proceed
    rw [Step.ends_bind, Step.ends_get]
    by_cases quit : t.isOver = true
    · rw [if_pos quit]
      exact ⟨rfl, kept⟩
    · rw [if_neg quit]
      exact kept

/-! ## Missing blocks

The fetch polls until the operator gives up, and then the run is canceled before the block. -/

variable {c : Chain} {I : World σ → Prop} {index : Int}

theorem fetchFrom_ends (waits : a.Waits P) (serves : a.node.Serves c I)
    (inv : ∀ s, P s → I s.world) (asked : ∀ s w, P s → I w → P { s with world := w })
    (missing : c.blocks.find? index = none) :
    ∀ (fuel attempts : Nat) (s : Session σ), P s →
      (a.fetchFrom index fuel attempts).Ends s (fun _ _ => False)
        (fun stop t => stop = .idle ∧ P t) := by
  intro fuel
  induction fuel with
  | zero =>
    intro attempts s h
    unfold fetchFrom
    exact ⟨rfl, h⟩
  | succ fuel ih =>
    intro attempts s h
    unfold fetchFrom proceed
    rw [Step.ends_bind, Step.ends_bind, Step.ends_get]
    by_cases quit : s.isOver = true
    · rw [if_pos quit]
      exact ⟨rfl, h⟩
    · rw [if_neg quit, Step.ends_pure, Step.ends_bind]
      obtain ⟨w, inv', eq⟩ := Step.eval_ask_block (ε := SyncError) serves (inv s h) index
      refine Step.ends_of_ok eq ?_
      -- The node does not have the block: it polls again, as long as there is fuel.
      rw [missing]
      show Step.Ends (a.pause a.settings.tipPollMs >>= _) _ _ _
      rw [Step.ends_bind]
      refine (waits.pause_ends (asked s w h inv') _).mono (fun _ t kept => ?_) fun _ _ h => h
      exact ih attempts t kept

/-- **A run that comes to a missing block ends as canceled** before that block, unless a
sweep meets an error. -/
theorem syncFrom_ends (waits : a.Waits P) (serves : a.node.Serves c I)
    (inv : ∀ s, P s → I s.world) (asked : ∀ s w, P s → I w → P { s with world := w })
    (missing : c.blocks.find? index = none) (workers : List (Worker σ)) {last : Option Int}
    (due : ¬last.any (· < index) = true) (fuel : Nat) (h : P s) :
    (a.syncFrom workers last (fuel + 1) index).Ends s (fun _ _ => False) (Halts P index) := by
  unfold syncFrom
  rw [if_neg due, Step.ends_bind, Step.ends_attempt]
  unfold applyBlock fetchBlock
  rw [Step.ends_bind, Step.ends_bind, Step.ends_get]
  refine (waits.fetchFrom_ends serves inv asked missing _ _ s h).mono (fun _ _ h => h.elim) ?_
  rintro _ t ⟨rfl, kept⟩
  exact waits.canceledBefore_ends kept index

end Waits

end Auditor

end BalanceAudit
