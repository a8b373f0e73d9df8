import BalanceAudit.Proofs.Check.Intact
import BalanceAudit.Proofs.Glance

/-!
# Workers that come by

Sweeping workers are tasks of their own. In a run as it is written down they come by at its
start and whenever it waits; here some of them come by around the checks of any block as
well, as a plan says.

- `Auditor.Plan`: how many workers come by, one group after the other, in front of the
  checks of a block and behind them.
- `Auditor.visit`: one group; a sweep that met an error ends the run at once.
- `Auditor.visited`: the checks of a block with its visits; `Auditor.visited_nobody`: without
  visits these are the checks.
- `Auditor.observed_visited`: **they go by**, or leave an error that is known.
-/

namespace BalanceAudit

variable {σ ε : Type}

namespace Auditor

/-- Who comes by around the checks of a block. -/
structure Plan where
  before : List Nat := []
  behind : List Nat := []

/-- At most `n` of the workers that are asleep sweep. The run does not go on if a sweep met
an error. -/
def visit (a : Auditor σ) (n : Nat) : Step (Session σ) ε Unit := do
  let s ← get
  let woken := min n s.sweepers.asleep
  let w ← a.sweepRound woken { s.sweepers with asleep := s.sweepers.asleep - woken }
  modify fun s => { s with sweepers := w }
  if w.failure.isSome then Step.idle

/-- One group of workers after the other. -/
def visits (a : Auditor σ) : List Nat → Step (Session σ) ε Unit
  | [] => pure ()
  | n :: ns => do
    a.visit n
    a.visits ns

/-- Checks what a block changes, with the visits of a plan, if checks are enabled. -/
def visited (a : Auditor σ) (plan : Block → Plan) : Option (Observer σ) :=
  if a.settings.enabled then
    some fun b cs => do
      a.visits (plan b).before
      a.checkChanges cs
      a.visits (plan b).behind
  else none

variable {a : Auditor σ} {p : Scope} {s t : Session σ}

/-- A run that nobody visits has the observer of a pipeline. -/
theorem visited_nobody (a : Auditor σ) : (a.visited fun _ => {}) = a.observer := by
  unfold visited observer
  refine congrArg (if a.settings.enabled then some · else none)
    (funext fun b => funext fun cs => ?_)
  exact bind_pure (a.checkChanges cs)

theorem observed_visited_eq (a : Auditor σ) (plan : Block → Plan) (b : Block) (cs : List Change) :
    a.observed (a.visited plan) b cs =
      if a.settings.enabled then do
        a.visits (plan b).before
        a.checkChanges (cs.filter a.isObserved)
        a.visits (plan b).behind
      else pure () := by
  unfold observed visited
  by_cases enabled : a.settings.enabled = true
  · rw [if_pos enabled, if_pos enabled]
  · rw [if_neg enabled, if_neg enabled]

/-! ## Moves

A visit sweeps, which checks may do as well, so the checks with their visits stay within the
scope of a run. -/

section Moves

open Step (Along)

variable (reports : p.reports) (waits : p.waits)

include reports waits

theorem visits_moves (ns : List Nat) : a.Moves p (a.visits ns : Step (Session σ) ε Unit) := by
  induction ns with
  | nil => exact .pure _
  | cons n ns ih =>
    refine Along.bind (Along.get.bind fun _ => (a.sweepRound_moves reports _ _).bind fun _ =>
      Along.bind (.modify fun _ => .rest _ waits) fun _ => ?_) fun _ => ih
    exact .ite (fun _ => .idle) fun _ => .pure _

/-- Visits are moves of a run that waits. -/
theorem observed_visited_moves (plan : Block → Plan) (b : Block) (cs : List Change) :
    a.Moves p (a.observed (a.visited plan) b cs) := by
  rw [observed_visited_eq]
  exact .ite (fun _ => (visits_moves reports waits _).bind fun _ =>
    (a.checkChanges_moves reports _).bind fun _ => visits_moves reports waits _) fun _ => .pure _

end Moves

/-! ## What visits come to

By induction on the groups; each one goes by or leaves its error for the run to find. -/

/-- A visit goes by, or the run ends with the error of a sweep. -/
theorem visit_ends (calm : s.sweepers.failure = none) (isOpen : s.store.closed = false) (n : Nat) :
    (a.visit n : Step (Session σ) ε Unit).Ends s
      (fun _ t => a.Glances s t ∧ t.sweepers.failure = none)
      (fun stop t => stop = .idle ∧ a.Stands t) := by
  unfold visit
  rw [Step.ends_bind, Step.ends_get]
  dsimp only
  rw [Step.ends_bind]
  generalize asleep : s.sweepers.asleep - min n s.sweepers.asleep = others
  have start : a.Accounts s ({ s.sweepers with asleep := others } : Sweepers).failure s :=
    ⟨isOpen, .inr ⟨calm, .refl⟩⟩
  refine (sweepRound_accounts _ _ s start).mono (fun w t swept => ?_) fun _ _ h => h.elim
  rw [Step.ends_bind, Step.ends_modify]
  have noted : a.Accounts s w.failure { t with sweepers := w } := swept.before (.single (.rest _))
  cases failure : w.failure with
  | none =>
    rw [failure] at noted
    exact ⟨noted.glances, failure⟩
  | some e => exact ⟨rfl, noted.stands⟩

/-- So do several of them. -/
theorem visits_ends (ns : List Nat) (calm : s.sweepers.failure = none)
    (isOpen : s.store.closed = false) :
    (a.visits ns : Step (Session σ) ε Unit).Ends s
      (fun _ t => a.Glances s t ∧ t.sweepers.failure = none)
      (fun stop t => stop = .idle ∧ a.Stands t) := by
  induction ns generalizing s with
  | nil => exact ⟨.refl, calm⟩
  | cons n ns ih =>
    unfold visits
    rw [Step.ends_bind]
    refine (visit_ends calm isOpen n).mono ?_ fun _ _ h => h
    rintro _ t ⟨glances, calm⟩
    exact (ih calm (glances.isOpen isOpen)).mono (fun _ _ h => ⟨glances.trans h.1, h.2⟩)
      fun _ _ h => h

/-- **The checks of a block and its visits** go by, or the run waits for good, or a check
raises an error. -/
theorem observed_visited (calm : s.sweepers.failure = none) (isOpen : s.store.closed = false)
    (plan : Block → Plan) (b : Block) (cs : List Change) :
    (a.observed (a.visited plan) b cs).Ends s
      (fun _ t => a.Glances s t ∧ t.sweepers.failure = none)
      (fun stop t => stop = .idle ∧ a.Stands t ∨
        ∃ e, stop = .failed e ∧ a.Raises e ∧ Intact (.failed e)) := by
  rw [observed_visited_eq]
  by_cases enabled : a.settings.enabled = true
  swap
  · rw [if_neg enabled]
    exact ⟨.refl, calm⟩
  rw [if_pos enabled, Step.ends_bind]
  refine (visits_ends _ calm isOpen).mono ?_ fun _ _ h => .inl h
  rintro _ t ⟨early, calm⟩
  rw [Step.ends_bind]
  have isOpen := early.isOpen isOpen
  -- The checks leave the sweepers alone.
  have alone := (a.checkChanges_moves (p := .checks) trivial (cs.filter a.isObserved)).ends
    (P := fun u => u.store.closed = false ∧ u.sweepers.failure = none)
    (fun _ _ move h => ⟨move.mode.closed.trans h.1, move.sweepers id ▸ h.2⟩) ⟨isOpen, calm⟩
  refine ((checkChanges_glances isOpen _).and (alone.and (checkChanges_intact _ t))).mono ?_ ?_
  · rintro _ u ⟨checked, ⟨isOpen, calm⟩, _⟩
    exact (visits_ends _ calm isOpen).mono (fun _ _ h => ⟨(early.trans checked).trans h.1, h.2⟩)
      fun _ _ h => .inl h
  · rintro _ u ⟨rfl | ⟨e, rfl, raises⟩, ⟨isOpen, calm⟩, intact⟩
    · exact .inl ⟨rfl, isOpen, .inr ⟨calm, .refl⟩⟩
    · exact .inr ⟨e, rfl, raises, intact⟩

/-- Telling of a block as well. -/
theorem announceBlock_visited (calm : s.sweepers.failure = none) (isOpen : s.store.closed = false)
    (plan : Block → Plan) (b : Block) (batch : Batch) :
    (a.announceBlock (a.visited plan) b batch).Ends s
      (fun _ t => a.Glances s t ∧ t.sweepers.failure = none)
      (fun stop t => stop = .idle ∧ a.Stands t ∨
        ∃ e, stop = .failed (.worker b.id (.reconcile e)) ∧ a.Raises e ∧ Intact (.failed e)) := by
  rw [ends_announceBlock]
  have told : a.Glances s (a.told b batch.changes s) :=
    .tail (.single (.tell _ (LogOptions.block_harmless _ b)))
      (.tell _ (LogOptions.changes_harmless _ _))
  refine (observed_visited (s := a.told b batch.changes s) calm isOpen plan b batch.changes).mono
    ?_ ?_
  · exact fun _ t h => ⟨told.trans h.1, h.2⟩
  · rintro _ t (⟨rfl, stands⟩ | ⟨e, rfl, raised⟩)
    · exact .inl ⟨rfl, stands⟩
    · exact .inr ⟨e, rfl, raised⟩

end Auditor

end BalanceAudit
