import BalanceAudit.Proofs.Books
import BalanceAudit.Proofs.Check
import BalanceAudit.Proofs.Release
import BalanceAudit.Proofs.Visits

/-!
# Failures that are told

Every failed comparison is told, counted, and kept if failures end the run. A run
that failures end is never successful after one of them, and keeps the first one of
each kind. That is so whenever sweeping workers come by.

- `Session.failures`: the failures told so far.
- `Auditor.Move.reported`: a move tells of no failure, or reports one.
- `Session.Reported`: what the failures between two moments leave behind:
  `Auditor.runPipeline_reported` for a whole run.
- `Auditor.Calm`: nothing has ended the run so far; `Auditor.applyBlock_calm` and so
  on: a part of a run stays calm, or stops.
- `Auditor.runPipeline_calm`: a run in which a comparison failed ends with an error if
  failures end it, so **none of them is lost**: `Auditor.runPipeline_surfaced`.
-/

namespace BalanceAudit

variable {σ ε α : Type}

/-- The failures told so far. -/
def Session.failures (s : Session σ) : List Failure :=
  s.world.events.toList.filterMap Event.failure?

namespace World

theorem obey_events (w : World σ) (signal : Signal) : (w.obey signal).events = w.events := by
  cases signal <;> rfl

theorem call_events (w : World σ) (f : σ → Answer α × σ) : (w.call f).2.events = w.events := by
  unfold call
  dsimp only
  split
  · exact obey_events _ _
  · rfl

end World

namespace Session

variable {s t u : Session σ}

theorem failures_of_events (same : t.world.events = s.world.events) : t.failures = s.failures := by
  rw [failures, same, failures]

/-- What is told besides failures. -/
theorem failures_tell (s : Session σ) {es : List Event} (harmless : ∀ e ∈ es, e.failure? = none) :
    failures { s with world := s.world.tell es } = s.failures := by
  show (s.world.events ++ es).toList.filterMap Event.failure? = _
  rw [Array.toList_appendList, List.filterMap_append, List.filterMap_eq_nil_iff.mpr harmless,
    List.append_nil]
  rfl

theorem failures_report (s : Session σ) (halts : Bool) (f : Failure) :
    (s.report halts f).failures = s.failures ++ [f] := by
  show (s.world.events ++ [Event.mismatch f halts]).toList.filterMap Event.failure? = _
  rw [Array.toList_appendList, List.filterMap_append]
  rfl

end Session

namespace Auditor

variable {a : Auditor σ} {p : Scope} {s t u : Session σ}

/-! ## What failures leave behind

Every failure is told and counted, and kept if failures end the run. One lemma for every
move says that the three stay in step. -/

/-- A move tells of no failure, or reports one. -/
theorem Move.reported (move : a.Move p s t) :
    (t.failures = s.failures ∧ t.recorder = s.recorder ∧
      t.counted .failedReconciliations = s.counted .failedReconciliations) ∨
    p.reports ∧ s.store.closed = false ∧ ∃ f, t = s.report a.settings.halt f := by
  cases move with
  | fetch => exact .inl ⟨Session.failures_of_events (World.call_events _ _), rfl, rfl⟩
  | lookup => exact .inl ⟨Session.failures_of_events (World.call_events _ _), rfl, rfl⟩
  | giveUp => exact .inl ⟨Session.failures_of_events (World.obey_events _ _), rfl, rfl⟩
  | tell es harmless => exact .inl ⟨s.failures_tell harmless, rfl, rfl⟩
  | count c passing =>
    refine .inl ⟨rfl, rfl, ?_⟩
    rw [Session.counted_raise, if_neg (Counter.ne_failed_of_passing passing).symm]
  | report f allowed isOpen => exact .inr ⟨allowed, isOpen, f, rfl⟩
  | commit b _ plain =>
    refine .inl ⟨rfl, rfl, ?_⟩
    unfold Session.counted
    rcases Store.commit_cases s.store b with ⟨same, _⟩ | ⟨_, _, eq⟩
    -- A commit counts through its batch alone, and the counter of failures is not in it.
    · rw [same]
    · show ((s.store.commit b).2.ledger.counted _).value = _
      rw [eq, Store.committed_ledger]
      refine congrArg Count.value (Ledger.counted_apply_of_notMem fun mem => ?_)
      obtain ⟨e, mem, name⟩ := List.mem_map.mp mem
      exact plain e mem name
  | _ => exact .inl ⟨rfl, rfl, rfl⟩

/-- A part of a run that reports nothing leaves the failures. -/
theorem unreported_of_moves {x : Step (Session σ) ε α} (moves : a.Moves p x)
    (silent : ¬p.reports) : Step.Leaves Session.failures x := fun s =>
  moves.keeps (P := fun t => t.failures = s.failures) (fun _ _ move same => by
    rcases move.reported with ⟨failures, _⟩ | ⟨reports, _⟩
    · exact failures.trans same
    · exact absurd reports silent) rfl

end Auditor

namespace Recorder

/-- A failure is kept unless there is one of its kind. -/
theorem failure?_keep (r : Recorder) (f : Failure) (k : Kind) :
    (r.keep f).failure? k = (r.failure? k).or (if f.kind = k then some f else none) := by
  obtain ⟨active, inactive⟩ := r
  unfold keep
  cases f.kind <;> cases k <;> cases active <;> cases inactive <;> rfl

/-- The first failure of each kind stays. -/
theorem failure?_foldl_keep (k : Kind) (fs : List Failure) : ∀ r : Recorder,
    (fs.foldl keep r).failure? k = (r.failure? k).or (fs.find? (·.kind = k)) := by
  induction fs with
  | nil => exact fun r => Option.or_none.symm
  | cons f fs ih =>
    intro r
    rw [List.foldl_cons, ih, failure?_keep, Option.or_assoc]
    by_cases same : f.kind = k <;> simp [same]

end Recorder

/-- The failures `fs` were told between the two moments, and counted. They are kept if
they end the run. -/
structure Session.Reported (halts : Bool) (s t : Session σ) (fs : List Failure) : Prop where
  told : t.failures = s.failures ++ fs
  kept : t.recorder = if halts then fs.foldl Recorder.keep s.recorder else s.recorder
  counted : t.counted .failedReconciliations =
    min (s.counted .failedReconciliations + fs.length) Count.greatest

namespace Session.Reported

variable {halts : Bool} {s t : Session σ} {fs : List Failure}

theorem refl (halts : Bool) (s : Session σ) : Session.Reported halts s s [] := by
  refine ⟨(List.append_nil _).symm, by cases halts <;> rfl, ?_⟩
  have limit : s.counted .failedReconciliations < 2 ^ 256 := Count.value_lt _
  show _ = min (s.counted .failedReconciliations) (2 ^ 256 - 1)
  omega

/-- One more failure. -/
theorem report (h : Session.Reported halts s t fs) (f : Failure) :
    Session.Reported halts s (t.report halts f) (fs ++ [f]) := by
  refine ⟨?_, ?_, ?_⟩
  · rw [failures_report, h.told, List.append_assoc]
  · show (if halts then t.recorder.keep f else t.recorder) = _
    rw [h.kept]
    cases halts
    · rfl
    · simp
  · have raised : (t.report halts f).counted .failedReconciliations =
        (t.raise .failedReconciliations).counted .failedReconciliations := rfl
    rw [raised, counted_raise, if_pos rfl, Count.value_add, List.length_append]
    have counted := h.counted
    unfold Session.counted at counted ⊢
    rw [counted]
    show min (min _ Count.greatest + 1) Count.greatest = min (_ + (fs.length + 1)) Count.greatest
    omega

end Session.Reported

namespace Auditor

variable {a : Auditor σ} {p : Scope} {s t u : Session σ} {plan : Block → Plan}

/-- What every move keeps, and the cancellation of its token, a run with visits keeps. -/
theorem runPipeline_visited_keeps (plan : Block → Plan) (first : Int) (last : Option Int)
    {P : Session σ → Prop} (kept : ∀ s t, a.Move .all s t → P s → P t)
    (cancel : ∀ s, P s → P { s with world := s.world.cancel }) (start : P s) :
    P ((a.runPipeline first last (a.visited plan)).eval s).2 :=
  runPipeline_keeps (p := .all) first last trivial trivial
    (observed_visited_moves trivial trivial plan) trivial trivial (fun _ _ _ _ _ => trivial)
    (fun _ => trivial) kept cancel start

/-- **A whole run tells, counts and keeps its failures**, however it ends. -/
theorem runPipeline_reported (a : Auditor σ) (plan : Block → Plan) (first : Int)
    (last : Option Int) (s : Session σ) :
    ∃ fs, Session.Reported a.settings.halt s
      ((a.runPipeline first last (a.visited plan)).eval s).2 fs := by
  refine runPipeline_visited_keeps (P := fun t => ∃ fs, Session.Reported a.settings.halt s t fs)
    plan first last (fun t u move => ?_) (fun _ ⟨fs, h⟩ => ⟨fs, h.told, h.kept, h.counted⟩)
    ⟨[], .refl _ s⟩
  rintro ⟨fs, h⟩
  rcases move.reported with ⟨failures, recorder, counted⟩ | ⟨_, _, f, rfl⟩
  · exact ⟨fs, failures.trans h.told, recorder.trans h.kept, counted.trans h.counted⟩
  · exact ⟨fs ++ [f], h.report f⟩

/-! ## Runs that a failure ends

With halting no failure is told behind the one that ends the run. A part of a run stays
calm, or it stops with an error. -/

/-- No sweep failed, and of failures that end the run none was told but `known`. -/
structure Calm (a : Auditor σ) (known : List Failure) (s : Session σ) : Prop where
  failures : a.settings.halt = true → s.failures = known
  sweepers : s.sweepers.failure = none
  isOpen : s.store.closed = false
  reach : s.world.Reachable

variable {known : List Failure}

theorem Calm.stands (calm : a.Calm known s) : a.Stands s :=
  ⟨calm.isOpen, .inr ⟨calm.sweepers, .refl⟩⟩

/-- What neither reports nor waits changes nothing about that. -/
theorem Move.calm (silent : ¬p.reports) (busy : ¬p.waits) (move : a.Move p s t)
    (calm : a.Calm known s) : a.Calm known t := by
  refine ⟨fun halt => ?_, ?_, move.mode.closed.trans calm.isOpen, move.reachable calm.reach⟩
  · rcases move.reported with ⟨failures, _⟩ | ⟨reports, _⟩
    · exact failures.trans (calm.failures halt)
    · exact absurd reports silent
  · rw [move.sweepers busy]
    exact calm.sweepers

/-- Checks that go by have told of no failure, if failures end the run. -/
theorem Glances.failures (halt : a.settings.halt = true) (glances : a.Glances s t) :
    t.failures = s.failures := by
  refine glances.keeps (P := fun t => t.failures = s.failures) (fun t u glance same => ?_) rfl
  cases glance with
  | lookup => exact (Session.failures_of_events (World.call_events _ _)).trans same
  | tell es harmless => exact (t.failures_tell harmless).trans same
  | ignore f lenient => exact absurd (halt.symm.trans lenient) (by decide)
  | _ => exact same

/-- Checks that go by change nothing about that either. -/
theorem Calm.glances (calm : a.Calm known s) (glances : a.Glances s t)
    (sweepers : t.sweepers.failure = none) : a.Calm known t where
  failures := fun halt => (glances.failures halt).trans (calm.failures halt)
  sweepers := sweepers
  isOpen := glances.isOpen calm.isOpen
  reach := glances.reachable calm.reach

/-- Why a part of a run stopped: with an error, or before any failure, or because it
waits for good. -/
def Surfaces (a : Auditor σ) (known : List Failure) (stop : Stop ε) (t : Session σ) : Prop :=
  match stop with
  | .failed _ => True
  | .overflow _ => a.settings.halt = true → t.failures = known
  | .idle => a.Stands t

theorem Calm.surfaces (calm : a.Calm known s) (stop : Stop ε) : a.Surfaces known stop s := by
  cases stop with
  | failed => trivial
  | overflow => exact calm.failures
  | idle => exact calm.stands

/-- A part of a run that neither reports nor waits keeps calm. -/
theorem calm_of_moves {x : Step (Session σ) ε α} (moves : a.Moves p x) (silent : ¬p.reports)
    (busy : ¬p.waits) (calm : a.Calm known s) :
    x.Ends s (fun _ t => a.Calm known t) (fun stop t => a.Surfaces known stop t) :=
  (moves.ends (fun _ _ move => move.calm silent busy) calm).mono (fun _ _ h => h)
    fun stop _ h => h.surfaces stop

theorem pause_calm (calm : a.Calm known s) (ms : Nat) :
    (a.pause ms : Step (Session σ) ε Unit).Ends s (fun _ t => a.Calm known t)
      (fun stop t => a.Surfaces known stop t) := by
  refine (pause_ends calm.stands calm.reach ms).mono ?_ ?_
  · rintro _ t ⟨_, going, glances⟩
    have later : a.Calm known (s.elapse (max ms 1)) :=
      ⟨calm.failures, calm.sweepers, calm.isOpen, calm.reach⟩
    refine later.glances glances ?_
    unfold Session.isOver at going
    simpa using (Bool.or_eq_false_iff.mp going).2
  · rintro _ t ⟨rfl, stands⟩
    exact stands

/-- Fetching keeps calm, with an induction on the calls that may still be made. -/
theorem fetchFrom_calm (index : Int) (fuel : Nat) :
    ∀ (attempts : Nat) (s : Session σ), a.Calm known s →
      (a.fetchFrom index fuel attempts).Ends s (fun _ t => a.Calm known t)
        (fun stop t => a.Surfaces known stop t) := by
  induction fuel with
  | zero => exact fun _ s calm => calm.stands
  | succ fuel ih =>
    intro attempts s calm
    -- Behind a missing block and behind a failed request alike: a pause, then from the start.
    have again : ∀ (ms attempts : Nat) (t : Session σ), a.Calm known t →
        (a.pause ms >>= fun _ => a.fetchFrom index fuel attempts).Ends t (fun _ t => a.Calm known t)
          (fun stop t => a.Surfaces known stop t) := by
      intro ms attempts t calm
      rw [Step.ends_bind]
      exact (pause_calm calm ms).mono (fun _ u calm => ih attempts u calm) fun _ _ h => h
    unfold fetchFrom
    rw [Step.ends_bind]
    refine (calm_of_moves (a.proceed_moves {}) id id calm).mono ?_ fun _ _ h => h
    intro _ t calm
    rw [Step.ends_bind]
    have asks : a.Moves (ε := SyncError) { asks := fun _ => True }
        (Step.ask (a.node.block index)) := a.ask_block_moves _ trivial
    refine (calm_of_moves asks id id calm).mono ?_ fun _ _ h => h
    intro reply u calm
    split
    · exact calm
    · exact again _ _ u calm
    · split
      · exact again _ _ u calm
      · exact trivial
    · exact trivial

theorem announceBlock_calm (plan : Block → Plan) (b : Block) (batch : Batch)
    (calm : a.Calm known s) :
    (a.announceBlock (a.visited plan) b batch).Ends s (fun _ t => a.Calm known t)
      (fun stop t => a.Surfaces known stop t) := by
  refine (announceBlock_visited calm.sweepers calm.isOpen plan b batch).mono ?_ ?_
  · exact fun _ t h => calm.glances h.1 h.2
  · rintro stop t (⟨rfl, stands⟩ | ⟨e, rfl, _⟩)
    · exact stands
    · trivial

/-- **Applying a block** keeps calm: a failure of its checks is an error, and one of a sweep
ends the run. -/
theorem applyBlock_calm (plan : Block → Plan) (index : Int) (calm : a.Calm known s) :
    (a.applyBlock [a.balanceWorker (a.visited plan)] index).Ends s (fun _ t => a.Calm known t)
      (fun stop t => a.Surfaces known stop t) := by
  rw [applyBlock_eq, enterBlock_eq, Step.ends_bind, Step.ends_bind]
  unfold fetchBlock
  rw [Step.ends_bind, Step.ends_get]
  refine (fetchFrom_calm index _ 0 s calm).mono (fun b t calm => ?_) fun _ _ h => h
  have commits : a.Moves { commits := True } (a.commitBlock b) := a.commitBlock_moves _ trivial b
  refine (calm_of_moves commits id id calm).mono (fun r u calm => ?_) fun _ _ h => h
  exact announceBlock_calm plan r.1 r.2 calm

/-- Why a run stopped: with an error, before any failure, or because a sweep failed. -/
def Closes (known : List Failure) (stop : Stop ε) (t : Session σ) : Prop :=
  (∃ e, stop = .failed e) ∨ t.failures = known ∨ stop = .idle ∧ t.sweepers.failure ≠ none

/-- **Following keeps calm.** What is idle was canceled, or a sweep failed. -/
theorem syncFrom_calm (halt : a.settings.halt = true) (last : Option Int) (fuel : Nat) :
    ∀ (next : Int) (s : Session σ), a.Calm known s →
      (a.syncFrom [a.balanceWorker (a.visited plan)] last fuel next).Ends s
        (fun _ t => t.failures = known) (Closes known) := by
  induction fuel with
  | zero => exact fun _ s calm => .inr (.inl (calm.failures halt))
  | succ fuel ih =>
    intro next s calm
    unfold syncFrom
    by_cases done : last.any (· < next) = true
    · rw [if_pos done]
      exact calm.failures halt
    rw [if_neg done, Step.ends_bind, Step.ends_attempt]
    -- Two facts of the same step: what it may surface, and that its state is still reachable.
    have moves : a.Moves .within (a.applyBlock [a.balanceWorker (a.visited plan)] next) :=
      a.applyBlock_moves trivial trivial (observed_visited_moves trivial trivial plan) trivial
        trivial
    refine ((applyBlock_calm plan next calm).and (reachable_of_moves moves calm.reach)).mono
      (fun _ t h => ?_) ?_
    · show Step.Ends (Step.within .next (Index.next? next) >>= _) t _ _
      rw [Step.ends_bind, Step.ends_within]
      exact ⟨fun after _ => ih after t h.1, fun _ => .inr (.inl (h.1.failures halt))⟩
    rintro stop t ⟨surfaces, reach⟩
    cases stop with
    | failed e => exact .inl ⟨e, rfl⟩
    | overflow => exact .inr (.inl (surfaces halt))
    | idle =>
      refine (canceledBefore_ends surfaces reach next).mono (fun _ _ h => h.elim) ?_
      rintro _ u (⟨rfl, _⟩ | ⟨rfl, e, failed, _⟩)
      · exact .inl ⟨_, rfl⟩
      · exact .inr (.inr ⟨rfl, by rw [failed]; exact Option.some_ne_none e⟩)

/-- The error of a sweep surfaces. -/
theorem follow_calm (halt : a.settings.halt = true) (first : Int) (last : Option Int)
    (calm : a.Calm known s) :
    (a.follow first last (a.visited plan)).Ends s (fun _ t => t.failures = known)
      (fun stop t => (∃ e, stop = .failed e) ∨ t.failures = known) := by
  unfold follow
  rw [Step.ends_bind, Step.ends_attempt, Step.ends_mapError]
  refine (syncFrom_calm halt last _ first s calm).mono (fun _ _ h => h) fun stop t closes => ?_
  -- A sync that was idle hands its end over to the sweepers; only their failure can be carried
  -- on.
  cases stop with
  | failed e => exact .inl ⟨_, rfl⟩
  | overflow =>
    obtain ⟨e, failed⟩ | same | ⟨idle, _⟩ := closes
    · cases failed
    · exact .inr same
    · cases idle
  | idle =>
    show Step.Ends (sweepFailure >>= fun _ => Step.idle) t _ _
    rw [Step.ends_bind, ends_sweepFailure]
    cases failure : t.sweepers.failure with
    | some e => exact .inl ⟨_, rfl⟩
    | none =>
      obtain ⟨e, failed⟩ | same | ⟨_, some⟩ := closes
      · cases failed
      · exact .inr same
      · exact absurd failure some

theorem runBoth_calm (halt : a.settings.halt = true) (first : Int) (last : Option Int)
    (calm : a.Calm known s) :
    (a.runBoth first last (a.visited plan)).Ends s (fun _ t => t.failures = known)
      (fun stop t => (∃ e, stop = .failed e) ∨ t.failures = known) := by
  unfold runBoth
  by_cases done : last.any (· < first) = true
  · rw [if_pos done, Step.ends_bind]
    refine (follow_calm halt first last calm).mono (fun _ t same => ?_) fun _ _ h => h
    -- An empty range has no checks at all: the known holdings are only tracked.
    have quiet : Step.Leaves Session.failures
        (Step.mapError PipelineError.reconcile a.trackKnown : Step (Session σ) _ _) :=
      unreported_of_moves (p := {}) ((a.trackKnown_moves _).mapError _) id
    split
    · exact (quiet.ends t).mono (fun _ _ h => h.trans same) fun _ _ h => .inr (h.trans same)
    · exact same
  rw [if_neg done, Step.ends_bind, Step.ends_get]
  by_cases quit : s.world.isCanceled = true
  · rw [if_pos quit]
    exact .inl ⟨_, rfl⟩
  rw [if_neg quit]
  split
  · rw [Step.ends_bind, Step.ends_mapError]
    refine (startReconciler_accounts calm.isOpen).mono (fun _ t accounts => ?_) fun _ _ h => h.elim
    rw [Step.ends_bind, ends_sweepFailure]
    cases failure : t.sweepers.failure with
    | some e => exact .inl ⟨_, rfl⟩
    | none =>
      rw [failure] at accounts
      exact follow_calm halt first last (calm.glances accounts.glances failure)
  · exact follow_calm halt first last calm

/-- **A run in which a comparison failed ends with an error** if failures end it. -/
theorem runPipeline_calm (halt : a.settings.halt = true) (first : Int) (last : Option Int)
    (calm : a.Calm known s) :
    (a.runPipeline first last (a.visited plan)).Ends s (fun _ t => t.failures = known)
      (fun stop t => (∃ e, stop = .failed e) ∨ t.failures = known) := by
  unfold runPipeline
  rw [Step.ends_bind, Step.ends_attempt]
  exact (runBoth_calm halt first last calm).mono (fun _ _ h => h) fun _ _ h => h

/-- Nothing can be compared over a closed store. -/
theorem runPipeline_failures_of_closed (closed : s.store.closed = true) (plan : Block → Plan)
    (first : Int) (last : Option Int) :
    ((a.runPipeline first last (a.visited plan)).eval s).2.failures = s.failures := by
  have kept := runPipeline_visited_keeps (a := a) (s := s)
    (P := fun t => t.store.closed = true ∧ t.failures = s.failures) plan first last
    (fun t u move h => ⟨move.mode.closed.trans h.1, ?_⟩) (fun _ h => h) ⟨closed, rfl⟩
  · exact kept.2
  · rcases move.reported with ⟨failures, _⟩ | ⟨_, isOpen, _⟩
    · exact failures.trans h.2
    · exact absurd (isOpen.symm.trans h.1) Bool.false_ne_true

end Auditor

/-- A run that failures end began in `s` and came to `r`, and `fs` are the failed
comparisons in between. -/
structure Session.Surfaced (s : Session σ) (r : Except (Stop PipelineError) Unit × Session σ)
    (fs : List Failure) : Prop where
  told : r.2.failures = s.failures ++ fs
  error : fs ≠ [] → ∃ e, r.1 = .error (.failed e)
  /-- The first one of each kind is kept. -/
  kept : ∀ k, r.2.recorder.failure? k = fs.find? (·.kind = k)
  counted : r.2.counted .failedReconciliations =
    min (s.counted .failedReconciliations + fs.length) Count.greatest
  clean : r.1 = .ok () → r.2.recorder = {} ∧
    r.2.counted .failedReconciliations = s.counted .failedReconciliations

namespace Auditor

variable {a : Auditor σ} {s : Session σ}

/-- **No failure that ends a run is lost.** -/
theorem runPipeline_surfaced (halt : a.settings.halt = true) (plan : Block → Plan) (first : Int)
    (last : Option Int) (sweepers : s.sweepers.failure = none) (reach : s.world.Reachable)
    (recorder : s.recorder = {}) :
    ∃ fs, s.Surfaced ((a.runPipeline first last (a.visited plan)).eval s) fs := by
  obtain ⟨fs, told, kept, counted⟩ := a.runPipeline_reported plan first last s
  rw [if_pos halt, recorder] at kept
  have ends : (a.runPipeline first last (a.visited plan)).Ends s
      (fun _ t => t.failures = s.failures)
      (fun stop t => (∃ e, stop = .failed e) ∨ t.failures = s.failures) := by
    cases closed : s.store.closed with
    | false => exact runPipeline_calm halt first last ⟨fun _ => rfl, sweepers, closed, reach⟩
    | true =>
      have same := runPipeline_failures_of_closed (a := a) closed plan first last
      exact (Step.Ends.self _ s).mono (fun _ _ eq => by rwa [eq] at same)
        fun _ _ eq => .inr (by rwa [eq] at same)
  -- Unless the run told of failures, there are none.
  have none : ((a.runPipeline first last (a.visited plan)).eval s).2.failures = s.failures →
      fs = [] := fun same => List.append_right_eq_self.mp (told.symm.trans same)
  refine ⟨fs, ?_⟩
  rcases eq : (a.runPipeline first last (a.visited plan)).eval s with ⟨stop | v, t⟩
  all_goals rw [eq] at told kept counted none
  · refine ⟨told, fun some => ?_, fun k => ?_, counted, nofun⟩
    · obtain ⟨e, rfl⟩ | same := ends.of_error eq
      · exact ⟨e, rfl⟩
      · exact absurd (none same) some
    · rw [kept, Recorder.failure?_foldl_keep]
      cases k <;> rfl
  · obtain rfl := none (ends.of_ok eq)
    refine ⟨told, fun some => absurd rfl some, fun k => ?_, counted, fun _ => ⟨kept, ?_⟩⟩
    · rw [kept]
      cases k <;> rfl
    · exact counted.trans (Session.Reported.refl true s).counted.symm

end Auditor

end BalanceAudit
