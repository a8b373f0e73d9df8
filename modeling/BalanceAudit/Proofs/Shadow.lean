import BalanceAudit.Proofs.Aborts
import BalanceAudit.Proofs.Reports
import BalanceAudit.Proofs.Sweep.Abreast
import BalanceAudit.Rehearsal.Fault

/-!
# Runs without checks

A run whose failures do not end it does what it would do without any checks, unless
one of them raises an error or it is aborted. Both runs are taken side by side: the
checks of the first go by and leave what the second one sees.

- `Auditor.unchecked`: the same audit without checks.
- `Node.Indifferent`: what such a comparison asks of the node, whose answers to the
  rest of the run may not depend on what the checks asked.
- `Session.Shadows`: the relation between the two runs, which leaves out counters,
  events and what is tracked.
- `Step.Respects`: the parts that are the same in both runs.
- `Auditor.Shadowed`: a part of the run beside its counterpart;
  `Auditor.applyBlock_shadowed`, `Auditor.syncFrom_shadowed` and so on.
- `Auditor.runPipeline_failures`: **failures are never lost when they end a run, and
  change nothing when they do not**.
-/

namespace BalanceAudit

variable {σ ε α β γ : Type}

/-! ## Stores without their counters

Whether a store writes depends on what is due, and not on its counters. So stores that
differ in these alone stay so under every action that both take. -/

/-- The stores hold the same blocks and balances and are written at the same moments. -/
structure Store.Alike (s t : Store) : Prop extends s.SameMode t where
  unflushed : t.unflushed = s.unflushed
  interval : t.interval = s.interval
  blocks : t.ledger.blocks = s.ledger.blocks
  balances : t.ledger.balances = s.ledger.balances

namespace Store.Alike

variable {s t : Store}

theorem refl (s : Store) : s.Alike s := ⟨.refl s, rfl, rfl, rfl, rfl⟩

theorem head? (alike : s.Alike t) : t.ledger.head? = s.ledger.head? := by
  unfold Ledger.head?
  rw [alike.blocks]

/-- Counters make no difference. -/
theorem increment (alike : s.Alike t) (name : String) (amount : Count) :
    Store.Alike { s with ledger := s.ledger.increment name amount } t :=
  ⟨⟨alike.closed, alike.persistent, alike.canWrite⟩, alike.unflushed, alike.interval, alike.blocks,
    alike.balances⟩

/-- Taking over a batch changes blocks and balances by themselves. -/
theorem apply (alike : s.Alike t) (b : Batch) :
    Store.Alike { s with ledger := s.ledger.apply b } { t with ledger := t.ledger.apply b } := by
  refine ⟨⟨alike.closed, alike.persistent, alike.canWrite⟩, alike.unflushed, alike.interval, ?_, ?_⟩
  -- The counts of the batch fall on the counters, which are not compared.
  · show (t.ledger.apply b).blocks = (s.ledger.apply b).blocks
    rw [Ledger.blocks_apply, Ledger.blocks_apply, alike.blocks]
  · show (t.ledger.apply b).balances = (s.ledger.apply b).balances
    rw [Ledger.balances_apply, Ledger.balances_apply, alike.balances]

/-- Both are written or refuse it, as they are in the same place on the disk. -/
theorem flush (alike : s.Alike t) : t.flush.1 = s.flush.1 ∧ s.flush.2.Alike t.flush.2 := by
  have first := flush_sameMode s
  have second := flush_sameMode t
  refine ⟨by rw [flush_result, flush_result, alike.canWrite], ⟨?_, ?_, ?_⟩, ?_, ?_, ?_, ?_⟩
  · exact second.closed.trans (alike.closed.trans first.closed.symm)
  · exact second.persistent.trans (alike.persistent.trans first.persistent.symm)
  · exact second.canWrite.trans (alike.canWrite.trans first.canWrite.symm)
  · rw [flush_unflushed, flush_unflushed, alike.persistent, alike.canWrite, alike.unflushed]
  · rw [flush_interval, flush_interval, alike.interval]
  · rw [flush_ledger, flush_ledger, alike.blocks]
  · rw [flush_ledger, flush_ledger, alike.balances]

/-- A commit that is due to be written is due in both. -/
theorem committed (alike : s.Alike t) :
    t.committed.1 = s.committed.1 ∧ s.committed.2.Alike t.committed.2 := by
  have noted : Store.Alike { s with unflushed := s.unflushed + 1 }
      { t with unflushed := t.unflushed + 1 } :=
    ⟨⟨alike.closed, alike.persistent, alike.canWrite⟩, congrArg (· + 1) alike.unflushed,
      alike.interval, alike.blocks, alike.balances⟩
  unfold Store.committed
  dsimp only
  by_cases due : s.interval ≤ s.unflushed + 1
  · rw [if_pos due, if_pos (by rw [alike.interval, alike.unflushed]; exact due)]
    exact noted.flush
  · rw [if_neg due, if_neg (by rw [alike.interval, alike.unflushed]; exact due)]
    exact ⟨rfl, noted⟩

/-- **A commit does to both stores the same.** -/
theorem commit (alike : s.Alike t) (b : Batch) :
    (t.commit b).1 = (s.commit b).1 ∧ (s.commit b).2.Alike (t.commit b).2 := by
  -- Whether the block extends the store is read off the head, which both have.
  have order : (t.read.mapError Stop.failed >>= fun l => extends? l b.block) =
      s.read.mapError Stop.failed >>= fun l => extends? l b.block := by
    unfold Store.read
    rw [alike.closed]
    split
    · rfl
    · show extends? t.ledger b.block = extends? s.ledger b.block
      unfold extends?
      rw [alike.head?]
  unfold Store.commit
  rw [order]
  cases s.read.mapError Stop.failed >>= fun l => extends? l b.block with
  | error stop => exact ⟨rfl, alike⟩
  | ok =>
    obtain ⟨result, alike⟩ := (alike.apply b).committed
    exact ⟨congrArg (·.mapError Stop.failed) result, alike⟩

end Store.Alike

/-! ## Steps that two runs take alike

As for moves, one lemma for each way of putting steps together. -/

namespace Step

variable {S : Type} {T : S → S → Prop}

/-- What the step does depends on the state up to `T` only. -/
def Respects (T : S → S → Prop) (x : Step S ε α) : Prop :=
  ∀ s s', T s s' → (x.eval s').1 = (x.eval s).1 ∧ T (x.eval s).2 (x.eval s').2

namespace Respects

theorem pure (v : α) : Respects T (Pure.pure v : Step S ε α) := fun _ _ h => ⟨rfl, h⟩

theorem idle : Respects T (Step.idle : Step S ε α) := fun _ _ h => ⟨rfl, h⟩

theorem ofExcept {ε' : Type} (f : ε → ε') (r : Except ε α) :
    Respects T (Step.ofExcept f r : Step S ε' α) := by
  cases r <;> exact fun _ _ h => ⟨rfl, h⟩

theorem within (what : Overflow) (r : Option α) :
    Respects T (Step.within what r : Step S ε α) := by
  cases r <;> exact fun _ _ h => ⟨rfl, h⟩

theorem modify {f : S → S} (h : ∀ s s', T s s' → T (f s) (f s')) :
    Respects T (modify f : Step S ε PUnit) := fun s s' related => ⟨rfl, h s s' related⟩

/-- The second step starts from related states with the same value, if the first one
finished. -/
theorem bind {x : Step S ε α} {f : α → Step S ε β} (h : Respects T x)
    (later : ∀ v, Respects T (f v)) : Respects T (x >>= f) := by
  intro s s' related
  obtain ⟨same, next⟩ := h s s' related
  rw [eval_bind, eval_bind]
  rcases eq : x.eval s with ⟨stop | v, t⟩
  -- Both outcomes are the same, so that only the equal cases are left.
  all_goals
    rcases eq' : x.eval s' with ⟨r, t'⟩
    rw [eq, eq'] at same next
    cases same
  · exact ⟨rfl, next⟩
  · exact later v t t' next

theorem mapError {ε' : Type} {x : Step S ε α} (f : ε → ε') (h : Respects T x) :
    Respects T (Step.mapError f x) := by
  intro s s' related
  obtain ⟨same, next⟩ := h s s' related
  rw [eval_mapError, eval_mapError, same]
  exact ⟨rfl, next⟩

theorem ite {q : Prop} [Decidable q] {x y : Step S ε α} (yes : Respects T x)
    (no : Respects T y) : Respects T (if q then x else y) := by
  split
  · exact yes
  · exact no

/-- A step for each element is taken alike if the step for any element is. -/
theorem mapM {f : γ → Step S ε α} (h : ∀ c, Respects T (f c)) (l : List γ) :
    Respects T (l.mapM f) := by
  induction l with
  | nil => exact .pure []
  | cons c cs ih =>
    rw [List.mapM_cons]
    exact (h c).bind fun _ => ih.bind fun _ => .pure _

/-- So both ends are known from one. -/
theorem ends {x : Step S ε α} (same : Respects T x) {s s' : S} (h : T s s') :
    x.Ends s (fun v t => ∃ t', x.eval s' = (.ok v, t') ∧ T t t')
      (fun stop t => ∃ t', x.eval s' = (.error stop, t') ∧ T t t') := by
  obtain ⟨result, next⟩ := same s s' h
  unfold Step.Ends
  rcases eq : x.eval s with ⟨stop | v, t⟩
  all_goals
    rw [eq] at result next
    exact ⟨(x.eval s').2, Prod.ext result rfl, next⟩

end Respects

end Step

/-! ## Two runs

The second run is the first one without its checks. A node that is indifferent answers both
alike, though it was asked more often by one of them. -/

/-- The states of the node are related by `R` if its answers to calls for blocks and
for past balances are the same in both. A lookup that raises no error may not change
that, whatever it is answered. -/
structure Node.Indifferent (n : Node σ) (R : σ → σ → Prop) : Prop where
  block : ∀ index s s', R s s' →
    (n.block index s').1 = (n.block index s).1 ∧ R (n.block index s).2 (n.block index s').2
  past : ∀ h b s s', R s s' → (n.balance h (some b) s').1 = (n.balance h (some b) s).1 ∧
    R (n.balance h (some b) s).2 (n.balance h (some b) s').2
  glance : ∀ h at? s s', R s s' → (∀ e, (n.balance h at? s).1.reply ≠ some (.error e)) →
    R (n.balance h at? s).2 s'

/-- The second session is that of a run without checks at the same point. Counters,
events and what is tracked may differ. -/
structure Session.Shadows (R : σ → σ → Prop) (s s' : Session σ) : Prop where
  node : R s.world.node s'.world.node
  cancellation : s'.world.cancellation = s.world.cancellation
  token : s'.world.token = s.world.token
  clock : s'.world.clock = s.world.clock
  shutdown : s'.shutdown = s.shutdown
  store : s.store.Alike s'.store
  isOpen : s.store.closed = false
  reach : s.world.Reachable
  calm : s.sweepers.failure = none
  /-- The second run never sweeps. -/
  still : s'.sweepers = {}

namespace Session.Shadows

variable {R : σ → σ → Prop} {s s' : Session σ}

/-- A run is canceled if its shadow is. -/
theorem isCanceled (h : s.Shadows R s') : s'.world.isCanceled = s.world.isCanceled := by
  unfold World.isCanceled
  rw [h.cancellation, h.token]

/-- Neither has a sweep that failed, so that both are over at once. -/
theorem isOver (h : s.Shadows R s') : s'.isOver = s.isOver := by
  unfold Session.isOver
  rw [h.isCanceled, h.calm, h.still]

theorem stands {a : Auditor σ} (h : s.Shadows R s') : a.Stands s :=
  ⟨h.isOpen, .inr ⟨h.calm, .refl⟩⟩

theorem books (h : s.Shadows R s') : s'.books = s.books :=
  congrArg₂ Prod.mk h.store.blocks h.store.balances

/-- A signal reaches both tokens. -/
theorem obey (h : s.Shadows R s') (signal : Signal) :
    Session.Shadows R { s with world := s.world.obey signal }
      { s' with world := s'.world.obey signal } := by
  cases signal with
  | abort =>
    exact { h with
      cancellation := congrArg Cancellation.abort h.cancellation
      reach := (h.reach.obey .abort).1 }
  | cancel =>
    have same : s'.world.cancellation.cancel s'.world.token =
        s.world.cancellation.cancel s.world.token := by rw [h.cancellation, h.token]
    exact { h with
      cancellation := same
      reach := (h.reach.obey .cancel).1 }

/-- A call that is answered alike leaves the runs related. -/
theorem call (h : s.Shadows R s') {f : σ → Answer α × σ}
    (same : (f s'.world.node).1 = (f s.world.node).1)
    (related : R (f s.world.node).2 (f s'.world.node).2) :
    (s'.world.call f).1 = (s.world.call f).1 ∧
      Session.Shadows R { s with world := (s.world.call f).2 }
        { s' with world := (s'.world.call f).2 } := by
  have moved : Session.Shadows R { s with world.node := (f s.world.node).2 }
      { s' with world.node := (f s'.world.node).2 } := { h with node := related }
  unfold World.call
  dsimp only
  rw [same]
  cases (f s.world.node).1.signal with
  | none => exact ⟨rfl, moved⟩
  | some signal => exact ⟨rfl, moved.obey signal⟩

/-- Time passes in both. -/
theorem elapse (h : s.Shadows R s') (ms : Nat) : (s.elapse ms).Shadows R (s'.elapse ms) := by
  have clock : (s'.elapse ms).world.clock = (s.elapse ms).world.clock := by
    unfold Session.elapse World.elapse
    rw [h.clock]
  exact { h with clock := clock }

/-- The end of the range cancels the shutdown token of both. -/
theorem finish (h : s.Shadows R s') : s.finish.Shadows R s'.finish := by
  have same : s'.world.cancellation.cancel s'.shutdown =
      s.world.cancellation.cancel s.shutdown := by rw [h.cancellation, h.shutdown]
  exact { h with
    cancellation := same
    reach := h.reach.cancel s.shutdown }

end Session.Shadows

/-- The node raised an error in a check of a block. -/
def SyncError.IsLookup : SyncError → Prop
  | .worker _ (.reconcile (.fetch _)) => True
  | _ => False

/-- The node raised an error in a check of either kind. -/
def PipelineError.IsLookup : PipelineError → Prop
  | .sync e => e.IsLookup
  | .reconcile (.fetch _) => True
  | .reconcile _ => False

namespace Auditor

open Step (Respects)

variable {a : Auditor σ} {p : Scope} {R : σ → σ → Prop} {s t s' : Session σ}

/-! ## What both runs do

A part that reads neither counters nor what is tracked is the same part in both runs. -/

/-- Both see the cancellation at the same place. -/
theorem proceed_respects :
    Respects (Session.Shadows R) (proceed : Step (Session σ) ε Unit) := by
  intro s s' h
  unfold proceed
  rw [Step.eval_bind, Step.eval_bind, Step.eval_get, Step.eval_get]
  dsimp only
  rw [h.isOver]
  split
  · exact ⟨rfl, h⟩
  · exact ⟨rfl, h⟩

/-- No sweep has failed in either run. -/
theorem sweepFailure_respects :
    Respects (Session.Shadows R) (sweepFailure : Step (Session σ) PipelineError Unit) := by
  intro s s' h
  unfold sweepFailure
  rw [Step.eval_bind, Step.eval_bind, Step.eval_get, Step.eval_get]
  dsimp only
  rw [h.calm, h.still]
  exact ⟨rfl, h⟩

/-- Whatever is read, only blocks and balances may be used. -/
theorem read_respects {f : StoreError → ε} {g : Ledger → Step (Session σ) ε α}
    (alike : ∀ l l', l'.blocks = l.blocks → l'.balances = l.balances → g l' = g l)
    (later : ∀ l, Respects (Session.Shadows R) (g l)) :
    Respects (Session.Shadows R) (Step.read f >>= g) := by
  intro s s' h
  rw [Step.eval_bind, Step.eval_bind, Step.eval_read_of_open h.isOpen,
    Step.eval_read_of_open (h.store.closed.trans h.isOpen)]
  dsimp only
  rw [alike _ _ h.store.blocks h.store.balances]
  exact later _ s s' h

/-- Both stores take a batch or refuse it, for the same reason. -/
theorem commit_respects (b : Batch) :
    Respects (Session.Shadows R) (Step.commit .store b : Step (Session σ) SyncError _) := by
  intro s s' h
  obtain ⟨same, alike⟩ := h.store.commit b
  rw [Step.eval_commit, Step.eval_commit, same]
  exact ⟨rfl, { h with
    store := alike
    isOpen := (s.store.commit_mode b).closed.trans h.isOpen }⟩

/-- A call that does not tell the runs apart is answered alike. -/
theorem ask_respects {f : σ → Answer α × σ}
    (alike : ∀ n n', R n n' → (f n').1 = (f n).1 ∧ R (f n).2 (f n').2) :
    Respects (Session.Shadows R) (Step.ask f : Step (Session σ) ε _) := by
  intro s s' h
  obtain ⟨same, related⟩ := alike _ _ h.node
  obtain ⟨reply, next⟩ := h.call same related
  rw [Step.eval_ask, Step.eval_ask, reply]
  exact ⟨rfl, next⟩

section Indifferent

variable (indifferent : a.node.Indifferent R)

include indifferent

/-- What a holding opens with is a past balance, which `indifferent` covers. -/
theorem openingBalance_respects (b : Block) (h : Holding) :
    Respects (Session.Shadows R) (a.openingBalance b h) :=
  .ite (.pure _) <| (ask_respects (indifferent.past h b.parent)).bind fun _ =>
    (Respects.ofExcept _ _).bind fun _ => .pure _

/-- A change is staged from the balance stored, the same in both. -/
theorem stageChange_respects (b : Block) (delta : Holding × Decimal) :
    Respects (Session.Shadows R) (a.stageChange b delta) := by
  refine read_respects (fun l l' _ balances => ?_) fun l => ?_
  · unfold Ledger.record?
    rw [balances]
  · dsimp only
    -- A stored balance is used as it is; an opening one is asked for.
    split
    · exact (Respects.pure _).bind fun _ => (Respects.within _ _).bind fun _ => .pure _
    · exact (openingBalance_respects indifferent _ _).bind fun _ =>
        (Respects.within _ _).bind fun _ => .pure _

/-- Staging a block and committing it. -/
theorem commitBlock_respects (b : Block) :
    Respects (Session.Shadows R) (a.commitBlock b) := by
  have staged : Respects (Session.Shadows R) (a.stageBalances b (.ofBlock b)) := by
    refine (Respects.within _ _).bind fun ds =>
      (Respects.mapM (stageChange_respects indifferent b) ds).bind fun cs => ?_
    dsimp only
    split <;> exact .pure _
  exact (staged.mapError _).bind fun batch => (commit_respects batch).bind fun _ => .pure _

end Indifferent

/-! ## What the second run leaves out

What is left out goes by glances, which move nothing that the two runs have to agree on. -/

/-- The same audit without checks. -/
def unchecked (a : Auditor σ) : Auditor σ :=
  { a with settings := { a.settings with enabled := false } }

/-- Where nothing is checked, nobody comes by either. -/
theorem visited_of_disabled (off : a.settings.enabled = false) (plan plan' : Block → Plan) :
    a.visited plan = a.visited plan' := by
  unfold visited
  rw [off]
  rfl

/-- A run that is not to be followed any further. -/
abbrev Aborted (t : Session σ) : Prop := t.world.cancellation.aborted = true

/-- A check that goes by makes no difference, sweepers apart. -/
theorem Glance.shadows (aborts : a.node.OnlyAborts) (indifferent : a.node.Indifferent R)
    (glance : a.Glance s t) (h : Session.Shadows R { s with sweepers := {} } s') :
    Aborted t ∨ Session.Shadows R { t with sweepers := {} } s' := by
  have reach : t.world.Reachable := glance.move.reachable h.reach
  cases glance with
  | lookup holding at? answered =>
    -- The one call among them may bring a signal, and then it is an abort.
    rcases s.world.call_cases _ (aborts.balance holding at? s.world.node) with same | quit
    · rw [same] at reach ⊢
      exact .inr { h with
        node := indifferent.glance _ _ _ _ h.node answered
        reach := reach }
    · rw [quit]
      exact .inl (Cancellation.aborted_abort _)
  | tell es harmless => exact .inr { h with node := h.node, reach := reach }
  | track tracker => exact .inr { h with node := h.node }
  | rest sweepers => exact .inr h
  | count c passing => exact .inr { h with store := h.store.increment _ _ }
  | ignore f lenient => exact .inr { h with store := h.store.increment _ _, reach := reach }

/-- **Checks that go by make no difference**, unless one of them was the moment of an
abort. The induction is on the moves. -/
theorem Glances.shadows (aborts : a.node.OnlyAborts) (indifferent : a.node.Indifferent R)
    (glances : a.Glances s t) (calm : t.sweepers.failure = none) (h : s.Shadows R s') :
    Aborted t ∨ t.Shadows R s' := by
  have along : Aborted t ∨ Session.Shadows R { t with sweepers := {} } s' := by
    clear calm
    induction glances with
    | refl => exact .inr { h with calm := rfl }
    | tail _ glance ih =>
      rcases ih with quit | related
      · exact .inl (glance.move.aborted quit)
      · exact glance.shadows aborts indifferent related
  exact along.imp_right fun related => { related with calm := calm }

/-- Without sweeps, waiting is just that. -/
theorem eval_wait_of_still (still : s.sweepers = {}) (ms : Nat) :
    (a.wait ms : Step (Session σ) ε Unit).eval s = (.ok (), s.elapse ms) := by
  unfold wait waitUntil
  rw [Step.eval_bind, Step.eval_get]
  dsimp only
  rw [Step.eval_bind, Step.eval_get]
  dsimp only
  rw [still, if_neg (by decide), if_neg (fun h => h.1 rfl), Step.eval_onWorld,
    Nat.add_sub_cancel_left]
  rfl

/-- A pause in which nobody sweeps is time that passes, if the operator has patience for it. -/
theorem eval_pause_of_still (still : s.sweepers = {}) {ms : Nat}
    (patient : max ms 1 < s.world.clock.patienceMs) (going : s.world.isCanceled = false) :
    (a.pause ms : Step (Session σ) ε Unit).eval s = (.ok (), s.elapse (max ms 1)) := by
  unfold pause proceed
  rw [Step.eval_bind, Step.eval_get]
  dsimp only
  rw [if_neg (by omega), Step.eval_bind, eval_wait_of_still still]
  dsimp only
  have ended : (s.elapse (max ms 1)).isOver = false := by
    show (s.world.isCanceled || s.sweepers.failure.isSome) = false
    rw [going, still]
    rfl
  rw [Step.eval_bind, Step.eval_get]
  dsimp only
  rw [ended]
  rfl

/-! ## Side by side

The first run keeps up with the second as long as it is neither aborted nor stopped for a
cause that is allowed. Steps that respect both runs, and binds, keep that. -/

/-- A part of the run beside its counterpart in the run without checks. Unless it was
aborted or quits, both come to the same, and the runs stay related. -/
def Shadowed (R : σ → σ → Prop) (quits : Stop ε → Session σ → Prop)
    (x y : Step (Session σ) ε α) (s s' : Session σ) : Prop :=
  x.Ends s
    (fun v t => Aborted t ∨ ∃ t', y.eval s' = (.ok v, t') ∧ t.Shadows R t')
    (fun stop t => Aborted t ∨ quits stop t ∨
      ∃ t', y.eval s' = (.error stop, t') ∧ t.Shadows R t')

/-- An abort stands, whatever comes after it. -/
theorem aborted_of_moves {x : Step (Session σ) ε α} (moves : a.Moves p x) (quit : Aborted s) :
    x.Ends s (fun _ t => Aborted t) (fun _ t => Aborted t) :=
  moves.ends (fun _ _ move => move.aborted) quit

namespace Shadowed

variable {quits : Stop ε → Session σ → Prop} {x y : Step (Session σ) ε α}
  {f g : α → Step (Session σ) ε β}

/-- After an abort nothing more is said. -/
theorem of_aborted (moves : a.Moves p x) (quit : Aborted s) : Shadowed R quits x y s s' :=
  (aborted_of_moves moves quit).mono (fun _ _ h => .inl h) fun _ _ h => .inl h

/-- What both runs do alike is its own counterpart. -/
theorem of_respects (same : Respects (Session.Shadows R) x) (h : s.Shadows R s') :
    Shadowed R quits x x s s' :=
  (same.ends h).mono (fun _ _ h => .inr h) fun _ _ h => .inr (.inr h)

/-- A part that was neither aborted nor quit came to what its counterpart comes to. -/
theorem eval (h : Shadowed R quits x y s s') (running : ¬Aborted (x.eval s).2)
    (stays : ∀ stop, (x.eval s).1 = .error stop → ¬quits stop (x.eval s).2) :
    (y.eval s').1 = (x.eval s).1 ∧ (x.eval s).2.Shadows R (y.eval s').2 := by
  rcases eq : x.eval s with ⟨r, t⟩
  rw [eq] at running stays
  rcases Step.Ends.outcome h eq with ⟨v, rfl, ends⟩ | ⟨stop, rfl, ends⟩
  · obtain ⟨t', eq', related⟩ := ends.resolve_left running
    rw [eq']
    exact ⟨rfl, related⟩
  · obtain ⟨t', eq', related⟩ := (ends.resolve_left running).resolve_left (stays stop rfl)
    rw [eq']
    exact ⟨rfl, related⟩

/-- One part after another. -/
theorem bind (h : Shadowed R quits x y s s') (moves : ∀ v, a.Moves p (f v))
    (later : ∀ v t t', t.Shadows R t' → Shadowed R quits (f v) (g v) t t') :
    Shadowed R quits (x >>= f) (y >>= g) s s' := by
  unfold Shadowed
  rw [Step.ends_bind]
  refine h.mono ?_ ?_
  · rintro v t (quit | ⟨t', eq, related⟩)
    · exact of_aborted (moves v) quit
    · rw [Step.eval_bind, eq]
      exact later v t t' related
  · rintro stop t (quit | quits | ⟨t', eq, related⟩)
    · exact .inl quit
    · exact .inr (.inl quits)
    · rw [Step.eval_bind, eq]
      exact .inr (.inr ⟨t', rfl, related⟩)

/-- A part that both runs share, before one that they do not. -/
theorem bind_of_respects (same : Respects (Session.Shadows R) x) (h : s.Shadows R s')
    (later : ∀ v t t', t.Shadows R t' → Shadowed R quits (f v) (g v) t t') :
    Shadowed R quits (x >>= f) (x >>= g) s s' := by
  unfold Shadowed
  rw [Step.ends_bind]
  refine (same.ends h).mono ?_ ?_
  · rintro v t ⟨t', eq, related⟩
    rw [Step.eval_bind, eq]
    exact later v t t' related
  · rintro stop t ⟨t', eq, related⟩
    rw [Step.eval_bind, eq]
    exact .inr (.inr ⟨t', rfl, related⟩)

/-- Errors are renamed on both sides, and so are those that the first run may quit with. -/
theorem mapError (f : ε → ε') (h : Shadowed R quits x y s s') :
    Shadowed R (fun stop t => ∃ stop', stop = stop'.map f ∧ quits stop' t) (Step.mapError f x)
      (Step.mapError f y) s s' := by
  unfold Shadowed
  rw [Step.ends_mapError, Step.eval_mapError]
  refine h.mono ?_ ?_
  · rintro v t (quit | ⟨t', eq, related⟩)
    · exact .inl quit
    · rw [eq]
      exact .inr ⟨t', rfl, related⟩
  · rintro stop t (quit | quits | ⟨t', eq, related⟩)
    · exact .inl quit
    · exact .inr (.inl ⟨stop, rfl, quits⟩)
    · rw [eq]
      exact .inr (.inr ⟨t', rfl, related⟩)

/-- What becomes of the outcome of a part. -/
theorem handle {quits' : Stop ε' → Session σ → Prop}
    {f g : Except (Stop ε) α → Step (Session σ) ε' β} {C : Session σ → Prop}
    (h : Shadowed R quits x y s s') (kept : x.Ends s (fun _ t => C t) (fun _ t => C t))
    (keeps : ∀ r t, Aborted t → (f r).Ends t (fun _ u => Aborted u) (fun _ u => Aborted u))
    (later : ∀ r t t', C t → t.Shadows R t' → Shadowed R quits' (f r) (g r) t t')
    (quit : ∀ stop t, C t → quits stop t → (f (.error stop)).Ends t (fun _ u => Aborted u)
      (fun stop u => Aborted u ∨ quits' stop u)) :
    Shadowed R quits' (Step.attempt x >>= f) (Step.attempt y >>= g) s s' := by
  unfold Shadowed
  rw [Step.ends_bind, Step.ends_attempt, Step.eval_bind, Step.eval_attempt]
  dsimp only
  -- `C` is what the first part keeps besides the relation, which `later` and `quit` may use.
  refine (h.and kept).mono ?_ ?_
  · rintro v t ⟨aborted | ⟨t', eq, related⟩, c⟩
    · exact (keeps _ t aborted).mono (fun _ _ h => .inl h) fun _ _ h => .inl h
    · rw [eq]
      exact later (.ok v) t t' c related
  · rintro stop t ⟨aborted | quits | ⟨t', eq, related⟩, c⟩
    · exact (keeps _ t aborted).mono (fun _ _ h => .inl h) fun _ _ h => .inl h
    · exact (quit stop t c quits).mono (fun _ _ h => .inl h)
        fun _ _ h => h.imp_right .inl
    · rw [eq]
      exact later (.error stop) t t' c related

end Shadowed

/-! ## Applying a block

The checks of a block are the one place where the first run may stop and the second go on. -/

/-- Why a block is not applied although it might be without checks: the run waits for
good, or the node raised an error in a check. -/
def Quits (a : Auditor σ) : Stop SyncError → Session σ → Prop
  | .failed e, _ => e.IsLookup
  | .idle, t => a.Stands t
  | .overflow _, _ => False

/-- The node raised an error in a sweep, or a sweep broke down over a distance. -/
def BrokeOff (t : Session σ) (e : ReconcileError) : Prop :=
  t.sweepers.failure = some e ∧ ((∃ cause, e = .fetch cause) ∨ e = broken .distance)

/-- Why following ends although it might go on without checks. -/
def QuitsFollowing : Stop SyncError → Session σ → Prop
  | .failed e, _ => e.IsLookup
  | .idle, t => ∃ e, BrokeOff t e
  | .overflow _, _ => False

section Runs

variable (aborts : a.node.OnlyAborts) (indifferent : a.node.Indifferent R) (plan : Block → Plan)

include aborts indifferent

/-- A pause takes as long in both, unless the first run waits for good. -/
theorem pause_shadowed (h : s.Shadows R s') (ms : Nat) :
    Shadowed R a.Quits (a.pause ms) (a.unchecked.pause ms) s s' := by
  refine (pause_ends h.stands h.reach ms).mono ?_ ?_
  · rintro _ t ⟨patient, going, glances⟩
    obtain ⟨going, calm⟩ := Bool.or_eq_false_iff.mp going
    -- The sweeps that fell into it went by, and the second run only waited.
    refine (glances.shadows aborts indifferent (by simpa using calm) (h.elapse _)).imp_right ?_
    intro related
    have going' : s'.world.isCanceled = false := related.isCanceled.trans going
    exact ⟨_, eval_pause_of_still h.still (by rw [h.clock]; exact patient) going', related⟩
  · rintro _ t ⟨rfl, stands⟩
    exact .inr (.inl stands)

/-- Fetching takes as many calls and as much time in both runs. -/
theorem fetchFrom_shadowed (index : Int) (fuel : Nat) :
    ∀ (attempts : Nat) (s s' : Session σ), s.Shadows R s' →
      Shadowed R a.Quits (a.fetchFrom index fuel attempts)
        (a.unchecked.fetchFrom index fuel attempts) s s' := by
  induction fuel with
  | zero => exact fun _ s _ h => .inr (.inl h.stands)
  | succ fuel ih =>
    intro attempts s s' h
    -- A missing block and a transient error both end in a pause and another attempt.
    have again : ∀ (ms attempts : Nat) (t t' : Session σ), t.Shadows R t' →
        Shadowed R a.Quits (a.pause ms >>= fun _ => a.fetchFrom index fuel attempts)
          (a.unchecked.pause ms >>= fun _ => a.unchecked.fetchFrom index fuel attempts) t t' :=
      fun ms attempts t t' h =>
        (pause_shadowed aborts indifferent h ms).bind (p := .within)
          (fun _ => a.fetchFrom_moves trivial trivial trivial _ _) fun _ => ih attempts
    unfold fetchFrom
    refine .bind_of_respects proceed_respects h fun _ t t' h => ?_
    refine .bind_of_respects (ask_respects (indifferent.block index)) h fun reply u u' h => ?_
    cases reply with
    | ok found =>
      cases found with
      | some b => exact .inr ⟨u', rfl, h⟩
      | none => exact again _ _ u u' h
    | error cause =>
      cases cause with
      | transient reason =>
        by_cases more : attempts < a.settings.maxFetchRetries
        · have more' : attempts < a.unchecked.settings.maxFetchRetries := more
          simp only [if_pos more, if_pos more']
          exact again _ _ u u' h
        · have more' : ¬attempts < a.unchecked.settings.maxFetchRetries := more
          simp only [if_neg more, if_neg more']
          exact .inr (.inr ⟨u', rfl, h⟩)
      | notFound what => exact .inr (.inr ⟨u', rfl, h⟩)
      | recording reason => exact .inr (.inr ⟨u', rfl, h⟩)

/-- The second run tells of a block, and that is all. -/
theorem announceBlock_shadowed (lenient : a.settings.halt = false) (b : Block) (batch : Batch)
    (h : s.Shadows R s') :
    Shadowed R a.Quits (a.announceBlock (a.visited plan) b batch)
      (a.unchecked.announceBlock (a.unchecked.visited plan) b batch) s s' := by
  have told : (a.unchecked.announceBlock (a.unchecked.visited plan) b batch).eval s' =
      (.ok (), { s' with
        world := (s'.world.tell (a.settings.log.block b)).tell
          (a.settings.log.changes batch.changes) }) := rfl
  refine (announceBlock_visited h.calm h.isOpen plan b batch).mono ?_ ?_
  · rintro _ t ⟨glances, calm⟩
    rw [told]
    refine (glances.shadows aborts indifferent calm h).imp_right fun related => ?_
    exact ⟨_, rfl, { related with node := related.node }⟩
  · rintro stop t (⟨rfl, stands⟩ | ⟨e, rfl, raises, intact⟩)
    · exact .inr (.inl stands)
    -- Of what ends the checks, only an error of the node is left: failures do not halt.
    · obtain ⟨halts, _⟩ | ⟨cause, rfl⟩ | broke := raises
      · exact absurd (halts.symm.trans lenient) (by decide)
      · exact .inr (.inl trivial)
      · exact absurd broke (intact _)

/-- **Applying a block** comes to the same without checks. -/
theorem applyBlock_shadowed (lenient : a.settings.halt = false) (index : Int)
    (h : s.Shadows R s') :
    Shadowed R a.Quits (a.applyBlock [a.balanceWorker (a.visited plan)] index)
      (a.unchecked.applyBlock [a.unchecked.balanceWorker (a.unchecked.visited plan)] index)
      s s' := by
  rw [applyBlock_eq, applyBlock_eq, enterBlock_eq, enterBlock_eq]
  have fetched : Shadowed R a.Quits (a.fetchBlock index) (a.unchecked.fetchBlock index) s s' := by
    unfold fetchBlock Shadowed
    rw [Step.ends_bind, Step.ends_get, Step.eval_bind, Step.eval_get]
    dsimp only
    rw [h.clock]
    exact fetchFrom_shadowed aborts indifferent index _ 0 s s' h
  -- Up to the commit both runs do the same; behind it the first one checks.
  have entered : Shadowed R a.Quits (a.fetchBlock index >>= a.commitBlock)
      (a.unchecked.fetchBlock index >>= a.unchecked.commitBlock) s s' :=
    fetched.bind (fun b => a.commitBlock_moves .within trivial b) fun b _ _ h =>
      .of_respects (commitBlock_respects indifferent b) h
  exact entered.bind (fun r => a.announceBlock_moves (p := .within) r.1 r.2
      (observed_visited_moves trivial trivial plan _ _))
    fun r _ _ h => announceBlock_shadowed aborts indifferent plan lenient r.1 r.2 h

omit indifferent in
/-- A run that waits for good is aborted, or a sweep broke it off. -/
theorem canceledBefore_quits (lenient : a.settings.halt = false) (stands : a.Stands s)
    (abortable : s.world.Abortable) (next : Int) :
    (a.canceledBefore next).Ends s (fun _ t => Aborted t)
      (fun stop t => Aborted t ∨ QuitsFollowing stop t) := by
  have moves : a.Moves .within (a.canceledBefore next) :=
    a.canceledBefore_moves trivial trivial next
  refine ((canceledBefore_ends stands abortable.1.reach next).and
    (abortable_of_moves aborts moves abortable)).mono (fun _ _ h => h.1.elim) ?_
  rintro _ t ⟨⟨rfl, quit⟩ | ⟨rfl, e, failed, raises⟩, abortable⟩
  · exact .inl (abortable.aborted quit)
  · exact .inr ⟨e, failed, raises.resolve_left fun halts =>
      absurd (halts.1.symm.trans lenient) (by decide)⟩

/-- **Following comes to the same without checks.** The induction is on the blocks
that may still come. -/
theorem syncFrom_shadowed (lenient : a.settings.halt = false) (last : Option Int) (fuel : Nat) :
    ∀ (next : Int) (s s' : Session σ), s.world.Abortable → s.Shadows R s' →
      Shadowed R QuitsFollowing (a.syncFrom [a.balanceWorker (a.visited plan)] last fuel next)
        (a.unchecked.syncFrom [a.unchecked.balanceWorker (a.unchecked.visited plan)] last fuel next)
        s s' := by
  induction fuel with
  | zero => exact fun _ _ s' _ h => .inr (.inr ⟨s', rfl, h⟩)
  | succ fuel ih =>
    intro next s s' abortable h
    unfold syncFrom
    by_cases done : last.any (· < next) = true
    · rw [if_pos done, if_pos done]
      exact .of_respects (.modify fun _ _ h => h.finish) h
    rw [if_neg done, if_neg done]
    have moves : a.Moves .within (a.applyBlock [a.balanceWorker (a.visited plan)] next) :=
      a.applyBlock_moves trivial trivial (observed_visited_moves trivial trivial plan) trivial
        trivial
    -- Three obligations: an abort stands, equal outcomes lead on alike, and a block that was
    -- quit ends the sync.
    refine (applyBlock_shadowed aborts indifferent plan lenient next h).handle
      (abortable_of_moves aborts moves abortable) (fun r t quit => ?_)
      (fun r t t' abortable h => ?_) ?_
    · refine aborted_of_moves (a := a) (p := .all) ?_ quit
      split
      · exact (Step.Along.within _ _).bind fun after =>
          a.syncFrom_moves trivial trivial (observed_visited_moves trivial trivial plan) trivial
            trivial (fun _ _ _ _ _ => trivial) _ _ fun _ => trivial
      · exact a.canceledBefore_moves trivial trivial _
      · exact .throw _
    · match r with
      | .ok () =>
        dsimp only
        cases Index.next? next with
        | some after => exact ih after t t' abortable h
        | none => exact .inr (.inr ⟨t', rfl, h⟩)
      | .error .idle =>
        exact (canceledBefore_quits aborts lenient h.stands abortable next).mono
          (fun _ _ h => .inl h) fun _ _ h => h.imp_right .inl
      | .error (.failed e) => exact .inr (.inr ⟨t', rfl, h⟩)
      | .error (.overflow what) => exact .inr (.inr ⟨t', rfl, h⟩)
    · intro stop t abortable quits
      match stop with
      | .idle => exact canceledBefore_quits aborts lenient quits abortable next
      | .failed e => exact .inr quits

/-- The run ends with an error of the node in a check, or with a sweep that broke down. -/
def QuitsRun (stop : Stop PipelineError) (t : Session σ) : Prop :=
  (∃ e, stop = .failed e ∧ e.IsLookup) ∨ t.sweepers.failure = some (broken .distance)

/-- Following comes to the same, with the error of a sweep raised behind the sync. -/
theorem follow_shadowed (lenient : a.settings.halt = false) (first : Int) (last : Option Int)
    (abortable : s.world.Abortable) (h : s.Shadows R s') :
    Shadowed R QuitsRun (a.follow first last (a.visited plan))
      (a.unchecked.follow first last (a.unchecked.visited plan)) s s' := by
  have synced := (syncFrom_shadowed aborts indifferent plan lenient last (Index.count + 1) first
    s s' abortable h).mapError PipelineError.sync
  refine synced.handle (C := fun _ => True) (Step.Ends.any _ _) (fun r t quit => ?_) ?_ ?_
  · refine aborted_of_moves (a := a) (p := {}) ?_ quit
    split
    · exact (a.sweepFailure_moves _).bind fun _ => .idle
    · exact .throw _
    · exact .pure _
  · intro r t t' _ h
    match r with
    | .ok () => exact .inr ⟨t', rfl, h⟩
    | .error .idle =>
      exact .of_respects (x := sweepFailure >>= fun _ => Step.idle)
        (sweepFailure_respects.bind fun _ => .idle) h
    | .error (.failed e) => exact .inr (.inr ⟨t', rfl, h⟩)
    | .error (.overflow what) => exact .inr (.inr ⟨t', rfl, h⟩)
  · rintro _ t _ ⟨stop, rfl, quits⟩
    match stop with
    | .failed e => exact .inr (.inl ⟨_, rfl, quits⟩)
    | .idle =>
      -- A sweep ended the wait: its error is what the run ends with.
      obtain ⟨e, failed, quits⟩ := quits
      show Step.Ends (sweepFailure >>= fun _ => Step.idle) t _ _
      rw [Step.ends_bind, ends_sweepFailure, failed]
      obtain ⟨cause, rfl⟩ | rfl := quits
      · exact .inr (.inl ⟨_, rfl, trivial⟩)
      · exact .inr (.inr failed)

/-- Both sides of the run come to what following alone does without checks. -/
theorem runBoth_shadowed (enabled : a.settings.enabled = true) (lenient : a.settings.halt = false)
    (first : Int) (last : Option Int) (abortable : s.world.Abortable) (h : s.Shadows R s') :
    Shadowed R QuitsRun (a.runBoth first last (a.visited plan))
      (a.unchecked.runBoth first last (a.unchecked.visited plan)) s s' := by
  have off : ¬a.unchecked.settings.enabled = true := Bool.false_ne_true
  unfold runBoth
  by_cases done : last.any (· < first) = true
  · rw [if_pos done, if_pos done, if_pos enabled, if_neg off]
    -- An empty range is followed first, and then tracked in the first run only.
    have known : a.Moves .all
        (Step.mapError PipelineError.reconcile a.trackKnown : Step (Session σ) _ _) :=
      (a.trackKnown_moves _).mapError _
    refine (follow_shadowed aborts indifferent plan lenient first last abortable h).bind
      (fun _ => known) fun _ t t' h => ?_
    unfold Shadowed
    rw [Step.ends_mapError]
    refine Step.ends_of_ok (a.eval_trackKnown h.isOpen) ?_
    exact .inr ⟨t', rfl, { h with node := h.node }⟩
  rw [if_neg done, if_neg done]
  unfold Shadowed
  rw [Step.ends_bind, Step.ends_get, Step.eval_bind, Step.eval_get]
  dsimp only
  rw [h.isCanceled]
  by_cases quit : s.world.isCanceled = true
  · rw [if_pos quit, if_pos quit]
    exact .inr (.inr ⟨s', rfl, h⟩)
  rw [if_neg quit, if_neg quit, if_pos enabled, if_neg off, Step.ends_bind, Step.ends_mapError]
  have moves : a.Moves .within (a.startReconciler : Step (Session σ) _ _) :=
    a.startReconciler_moves trivial trivial
  refine ((startReconciler_accounts h.isOpen).and
    (abortable_of_moves aborts moves abortable)).mono ?_ fun _ _ h => h.1.elim
  -- The first round of sweeps goes by, or ends the run with an error.
  rintro _ t ⟨accounts, abortable⟩
  rw [Step.ends_bind, ends_sweepFailure]
  cases failure : t.sweepers.failure with
  | some e =>
    rw [failure] at accounts
    obtain ⟨halt, _⟩ | ⟨cause, rfl⟩ | rfl := accounts.raises
    · exact absurd (halt.symm.trans lenient) (by decide)
    · exact .inr (.inl (.inl ⟨_, rfl, trivial⟩))
    · exact .inr (.inl (.inr failure))
  | none =>
    rw [failure] at accounts
    rcases accounts.glances.shadows aborts indifferent failure h with quit | related
    · refine Shadowed.of_aborted (a := a) (p := .all) ?_ quit
      exact a.follow_moves trivial trivial (observed_visited_moves trivial trivial plan) trivial
        trivial (fun _ _ _ _ _ => trivial) fun _ => trivial
    · exact follow_shadowed aborts indifferent plan lenient first last abortable related

/-- **The run itself**, with its token canceled in the end. -/
theorem runPipeline_shadowed (enabled : a.settings.enabled = true)
    (lenient : a.settings.halt = false) (first : Int) (last : Option Int)
    (abortable : s.world.Abortable) (h : s.Shadows R s') :
    Shadowed R QuitsRun (a.runPipeline first last (a.visited plan))
      (a.unchecked.runPipeline first last (a.unchecked.visited plan)) s s' := by
  unfold runPipeline
  refine (runBoth_shadowed aborts indifferent plan enabled lenient first last abortable h).handle
    (C := fun _ => True) (Step.Ends.any _ _) (fun r t quit => ?_) ?_ ?_
  · have kept : Aborted { t with world := t.world.cancel } :=
      (Cancellation.aborted_cancel _ _).trans quit
    cases r <;> exact kept
  · intro r t t' _ h
    refine .bind_of_respects (.modify fun _ _ h => h.obey .cancel) h fun _ u u' h => ?_
    match r with
    | .ok () => exact .inr ⟨u', rfl, h⟩
    | .error stop => exact .inr (.inr ⟨u', rfl, h⟩)
  · rintro _ t _ (⟨e, rfl, lookup⟩ | broke)
    · exact .inr (.inl ⟨e, rfl, lookup⟩)
    · exact .inr (.inr broke)

end Runs

/-- An audit that checks nothing is left as it is. -/
theorem unchecked_of_disabled (off : a.settings.enabled = false) : a.unchecked = a := by
  unfold unchecked
  rw [← off]

/-! ## Whole runs

The second run is the pipeline with reconciliation disabled, so the two outcomes are those
of two settings. -/

/-- The result of a run over a store, and the session in which it ended. Unless a plan says
otherwise, nobody comes by around the checks of a block. -/
def outcome (a : Auditor σ) (w : World σ) (store : Store) (first : Int) (last : Option Int)
    (plan : Block → Plan := fun _ => {}) : Except (Stop PipelineError) Unit × Session σ :=
  (a.runPipeline first last (a.visited plan)).eval { world := w.enter, store }

/-- A run that nobody visits is the pipeline as it stands. -/
theorem outcome_nobody (a : Auditor σ) (w : World σ) (store : Store) (first : Int)
    (last : Option Int) :
    a.outcome w store first last = (a.runPipeline first last).eval { world := w.enter, store } := by
  rw [outcome, visited_nobody]

/-- Two blocks that change one holding each. -/
def twofold : Chain where
  network := ⟨"bitcoin", "regtest"⟩
  blocks := Table.ofList [
    (0, .changing .alice ⟨0, "h0"⟩ ⟨0, "h0"⟩ [.whole 1]),
    (1, .changing ⟨⟨"bob", none⟩, ⟨"BTC", 8⟩⟩ ⟨1, "h1"⟩ ⟨0, "h0"⟩ [.whole 2])]
  balances := Table.ofList [
    (.alice, Table.ofList [(0, .whole 1)]),
    (⟨⟨"bob", none⟩, ⟨"BTC", 8⟩⟩, Table.ofList [(1, .whole 2)])]

/-- Failures are ignored. Every balance is the number of lookups so far. -/
def counting : Auditor Nat where
  node := {
    status := fun n => (.replied twofold.status, n)
    block := fun index n => (.replied (.ok (twofold.blocks.find? index)), n)
    balance := fun _ at? n => (.replied (.ok (at?.getD default, .whole n)), n + 1) }
  settings := { halt := false }

/-- Failures are ignored, and only a sweep compares. The node stands behind faults. -/
def faulted : Auditor (List Rehearsal.Fault × Unit) where
  node := Rehearsal.faulty twofold.node
  settings := { active := 0, inactive := 1, halt := false }

/-- The second block is not available at first, and a lookup at the first one is never
answered, once. -/
def hanging : World (List Rehearsal.Fault × Unit) where
  node := ([{ kind := .block, place := .index 1, times := some 1, effect := .missing },
    { kind := .balance, place := .index 0, times := some 1, effect := .hang none }], ())

end Auditor

end BalanceAudit
