import BalanceAudit.Proofs.Cancellation
import BalanceAudit.Proofs.Faults
import BalanceAudit.Proofs.Moves

/-!
# What a run over a range comes to

- `Session.After`: what a run leaves of tokens and of its store.
- `Auditor.Finished`, `Auditor.Stopped`: all of a range was followed, or a block of it
  is at fault.
- `Auditor.runPipeline_ends`: which of them it is, and where a run that has followed its
  range overflows.
-/

namespace BalanceAudit

variable {σ : Type}

/-- What a run leaves behind: only its own tokens are canceled, and the store is
as usable as before. -/
structure Session.After (s t : Session σ) : Prop where
  aborted : t.world.cancellation.aborted = s.world.cancellation.aborted
  made : t.world.cancellation.made = s.world.cancellation.made
  canceled : ∀ id ∈ t.world.cancellation.canceled,
    id = s.world.token.id ∨ id = s.shutdown.id ∨ id ∈ s.world.cancellation.canceled
  surrender : t.world.surrender = s.world.surrender
  mode : s.store.SameMode t.store

namespace Session.After

variable {s t : Session σ}

theorem of_sameRun (run : s.world.SameRun t.world) (mode : s.store.SameMode t.store) :
    Session.After s t := by
  refine ⟨?_, ?_, fun id mem => ?_, run.surrender, mode⟩
  · rw [run.cancellation]
  · rw [run.cancellation]
  · rw [run.cancellation] at mem
    exact .inr (.inr mem)

/-- Canceling the token of the run or the shutdown token. -/
theorem cancel (after : Session.After s t) {token : Token}
    (own : token.id = s.world.token.id ∨ token.id = s.shutdown.id) :
    Session.After s
      { t with world.cancellation := t.world.cancellation.cancel token } := by
  refine ⟨?_, ?_, fun id mem => ?_, after.surrender, after.mode⟩
  · exact (Cancellation.aborted_cancel _ _).trans after.aborted
  · exact (Cancellation.made_cancel _ _).trans after.made
  · rcases Cancellation.mem_cancel.mp mem with rfl | mem
    · rcases own with own | own
      · exact .inl own
      · exact .inr (.inl own)
    · exact after.canceled id mem

/-- Only tokens that were made are canceled, if both of the run's own ones were. -/
theorem sound (after : Session.After s t) (sound : s.world.cancellation.Sound)
    (token : s.world.token.id < s.world.cancellation.made)
    (shutdown : s.shutdown.id < s.world.cancellation.made) : t.world.cancellation.Sound := by
  intro id mem
  rw [after.made]
  rcases after.canceled id mem with rfl | rfl | mem
  · exact token
  · exact shutdown
  · exact sound id mem

end Session.After

namespace Auditor

variable {a : Auditor σ} {c : Chain} {first last : Int} {s : Session σ}

/-- The range was followed to its end without a fault. -/
structure Finished (a : Auditor σ) (c : Chain) (first last : Int) (s t : Session σ) : Prop where
  clean : c.Faultless a.Watches first last
  checked : t.counted .activeReconciliations ≠ 0 ↔
    ∃ b ∈ c.segment first last, ∃ h, a.Watches h ∧ b.reports h = true
  swept : t.counted .inactiveReconciliations = s.counted .inactiveReconciliations
  recorder : t.recorder = s.recorder
  after : Session.After s t

/-- The run failed at `b`, the first faulty block of the range. -/
structure Stopped (a : Auditor σ) (c : Chain) (first last : Int) (s : Session σ) (b : Block)
    (t : Session σ) : Prop where
  fault : c.FirstFaulty a.Watches first last b
  head : t.store.ledger.head? = some b.id
  recorder : ∃ f : Failure, f.block = b.id ∧ f.kind = .active ∧
    t.recorder = { s.recorder with active := some f }
  after : Session.After s t

/-! ## Starting

Without workers that sweep, the start of the reconciler tracks the holdings that it knows
and does no more. -/

theorem startReconciler_ends (inactive : a.settings.inactive = 0)
    (isOpen : s.store.closed = false) :
    a.startReconciler.Ends s
      (fun _ t => ∃ tracker wakeMs, t = { s with tracker, sweepers := { wakeMs } })
      (fun _ _ => False) := by
  unfold startReconciler
  rw [Step.ends_bind]
  refine Step.ends_of_ok (a.eval_trackKnown isOpen) ?_
  rw [Step.ends_bind, Step.ends_modify, inactive]
  exact ⟨_, _, rfl⟩

/-- A started run on an empty store is as fresh as before. -/
theorem fresh_started (fresh : s.Fresh) (tracker : Tracker) (wakeMs : Nat) :
    Session.Fresh { s with tracker, sweepers := { wakeMs } } :=
  ⟨fresh.ledger, fresh.isOpen, fresh.canWrite, fresh.recorder, rfl, rfl, fresh.running⟩

/-! ## The run

The outcome of following the chain, seen through the token that the run cancels at its end. -/

/-- **A run over a range finishes iff no block of it is at fault**, and otherwise
stops at the first one that is. A range that ends at the greatest index is followed as well,
but then the run overflows. -/
theorem runPipeline_ends (watchful : a.settings.Watchful) (recites : a.node.Recites c)
    (fresh : s.Fresh) (linked : c.Linked first last) (exact_ : c.ExactSums first last)
    (low : Index.least ≤ first) (high : last ≤ Index.greatest) (le : first ≤ last) :
    (a.runPipeline first (some last)).Ends s
      (fun _ t => last < Index.greatest ∧ Finished a c first last s t)
      (fun stop t => (∃ b cause, stop = .failed cause ∧ Stopped a c first last s b t) ∨
        last = Index.greatest ∧ stop = .overflow .next ∧ Finished a c first last s t) := by
  unfold runPipeline
  rw [Step.ends_bind, Step.ends_attempt]
  unfold runBoth
  have due : ¬(some last).any (· < first) = true := by simpa using le
  rw [if_neg due, Step.ends_bind, Step.ends_get, fresh.running, if_neg Bool.false_ne_true,
    watchful.enabled, if_pos rfl, Step.ends_bind, Step.ends_mapError]
  refine (startReconciler_ends watchful.inactive fresh.isOpen).mono ?_ fun _ _ h => h.elim
  rintro _ t ⟨tracker, wakeMs, rfl⟩
  rw [Step.ends_bind, ends_sweepFailure]
  show Step.Ends (a.follow first (some last)) _ _ _
  have fresh' := fresh_started fresh tracker wakeMs
  unfold follow
  rw [Step.ends_bind, Step.ends_attempt, Step.ends_mapError]
  unfold sync
  have enough : (last + 1 - first).toNat < Index.count + 1 := by
    simp only [Index.least, Index.greatest, Index.count] at low high ⊢
    omega
  -- The run cancels its own token in the end, and may have canceled the shutdown token.
  have finished : ∀ (t' : Session σ) (cancellation : Cancellation),
      Following a c first { s with tracker, sweepers := { wakeMs } } (last + 1) t' →
      Session.After s { t' with world.cancellation := cancellation } →
      Finished a c first last s
        { t' with world.cancellation := cancellation.cancel t'.world.token } := by
    intro t' cancellation following after
    have until_last : last + 1 - 1 = last := by omega
    have clean := following.clean
    have checked := following.checked
    rw [until_last] at clean checked
    have run : s.world.SameRun t'.world := following.run
    exact ⟨clean, checked, following.swept, following.recorder,
      after.cancel (.inl (congrArg Token.id run.token))⟩
  refine (Following.syncFrom_ends watchful recites fresh' linked exact_ low high
    _ first _ (Following.start fresh') (le_refl _) (.inl le) enough).mono ?_ ?_
  · rintro _ u ⟨small, t', following, rfl⟩
    have run : s.world.SameRun t'.world := following.run
    have after := (Session.After.of_sameRun (s := s) (t := t') run following.mode).cancel
      (.inr (congrArg Token.id following.shutdown))
    exact ⟨small, finished t' _ following after⟩
  · rintro _ u (⟨b, f, rfl, blames⟩ | ⟨same, rfl, following⟩)
    · refine .inl ⟨b, _, rfl, blames.fault, blames.head,
        ⟨f, blames.block, blames.kind, blames.recorder⟩, ?_⟩
      have run : s.world.SameRun u.world := blames.run
      exact (Session.After.of_sameRun (s := s) (t := u) run blames.mode).cancel
        (.inl (congrArg Token.id run.token))
    · have run : s.world.SameRun u.world := following.run
      have after := Session.After.of_sameRun (s := s) (t := u) run following.mode
      exact .inr ⟨same, rfl, finished u _ following after⟩

/-- Over an empty range a run has nothing to do. -/
theorem runPipeline_ends_of_lt (enabled : a.settings.enabled = true)
    (isOpen : s.store.closed = false) (lt : last < first) :
    (a.runPipeline first (some last)).Ends s
      (fun _ t => t.store = s.store ∧ t.recorder = s.recorder ∧ Session.After s t)
      (fun _ _ => False) := by
  have empty : (some last).any (· < first) = true := by simpa using lt
  unfold runPipeline
  rw [Step.ends_bind, Step.ends_attempt]
  unfold runBoth
  rw [if_pos empty, Step.ends_bind]
  unfold follow
  rw [Step.ends_bind, Step.ends_attempt, Step.ends_mapError]
  unfold sync syncFrom
  rw [if_pos empty]
  show Step.Ends (if a.settings.enabled = true then Step.mapError _ a.trackKnown else _)
    (done s) _ _
  rw [enabled, if_pos rfl, Step.ends_mapError]
  refine Step.ends_of_ok (a.eval_trackKnown isOpen) ?_
  have shutdown : s.After (done s) :=
    (Session.After.of_sameRun (.refl s.world) (.refl s.store)).cancel (.inr rfl)
  have after : s.After { done s with world := (done s).world.cancel } := shutdown.cancel (.inl rfl)
  exact ⟨rfl, rfl, after.aborted, after.made, after.canceled, after.surrender, after.mode⟩

end Auditor

end BalanceAudit
