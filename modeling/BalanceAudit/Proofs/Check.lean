import BalanceAudit.Check
import BalanceAudit.Proofs.Staging

/-!
# What checks do to a session

A check leaves the balances and the blocks alone. It raises a counter, and keeps
a failure if the balances differ and failures end the run.

- `Session.Checked`: what a check without failure may have changed;
  `Session.Blamed`: what else a failure changes.
- `Chain.Agrees`: a change comes to the balance of the node.
- `Auditor.checkActive_ends_of_agrees`, `Auditor.checkActive_ends_of_differs`: the
  two outcomes of an active check.
- `Auditor.checkAll_ends`: an invariant over the checks made so far and the first
  error, whatever number of checks may run at once.
- `Auditor.checkChanges_ends`: the checks of a block fail iff a change disagrees,
  and blame the block.
-/

namespace BalanceAudit

variable {σ ε : Type}

/-! ## What changes

A session after checks is told by what is still the same. The relation is transitive, so
that any number of checks is one case of it. -/

/-- The value of a counter. -/
def Session.counted (s : Session σ) (k : Counter) : Nat := (s.store.ledger.counted k.name).value

/-- The later session differs at most in its world, the tracked holdings, and in
the counters of `ks`. No counter went down. -/
structure Session.Checked (I : World σ → Prop) (ks : List Counter) (s t : Session σ) : Prop where
  inv : I t.world
  store : t.store =
    { s.store with ledger := { s.store.ledger with counters := t.store.ledger.counters } }
  counted : ∀ k ∉ ks, t.counted k = s.counted k
  grows : ∀ k, s.counted k ≤ t.counted k
  recorder : t.recorder = s.recorder
  sweepers : t.sweepers = s.sweepers
  shutdown : t.shutdown = s.shutdown

namespace Session.Checked

variable {I : World σ → Prop} {ks ks' : List Counter} {s t u : Session σ}

/-- Before any check nothing was counted. -/
theorem refl (inv : I s.world) : Session.Checked I ks s s :=
  ⟨inv, rfl, fun _ _ => rfl, fun _ => le_refl _, rfl, rfl, rfl⟩

/-- Checks behind checks, which leave the same things alone. -/
theorem trans (h : Session.Checked I ks s t) (h' : Session.Checked I ks t u) :
    Session.Checked I ks s u where
  inv := h'.inv
  store := by rw [h'.store, h.store]
  -- Counters outside the list stay in both stretches, and no counter falls in either.
  counted := fun k new => (h'.counted k new).trans (h.counted k new)
  grows := fun k => (h.grows k).trans (h'.grows k)
  recorder := h'.recorder.trans h.recorder
  sweepers := h'.sweepers.trans h.sweepers
  shutdown := h'.shutdown.trans h.shutdown

/-- More counters may be allowed than were raised. -/
theorem mono (h : Session.Checked I ks s t) (sub : ∀ k ∈ ks, k ∈ ks') :
    Session.Checked I ks' s t :=
  { h with counted := fun k new => h.counted k fun mem => new (sub k mem) }

/-- It does not matter what the recorder keeps. -/
theorem setRecorder (h : Session.Checked I ks s t) (r : Recorder) :
    Session.Checked I ks { s with recorder := r } { t with recorder := r } :=
  ⟨h.inv, h.store, h.counted, h.grows, rfl, h.sweepers, h.shutdown⟩

/-- Asking the node counts nothing. -/
theorem of_asked (h : Session.Asked I s t) : Session.Checked I ks s t := by
  obtain ⟨w, inv, rfl⟩ := h
  exact ⟨inv, rfl, fun _ _ => rfl, fun _ => le_refl _, rfl, rfl, rfl⟩

/-- Nor does tracking. -/
theorem of_tracker (inv : I s.world) (tracker : Tracker) :
    Session.Checked I ks s { s with tracker } :=
  ⟨inv, rfl, fun _ _ => rfl, fun _ => le_refl _, rfl, rfl, rfl⟩

theorem balances (h : Session.Checked I ks s t) :
    t.store.ledger.balances = s.store.ledger.balances := by rw [h.store]

theorem blocks (h : Session.Checked I ks s t) :
    t.store.ledger.blocks = s.store.ledger.blocks := by rw [h.store]

theorem head? (h : Session.Checked I ks s t) : t.store.ledger.head? = s.store.ledger.head? := by
  rw [Ledger.head?, h.blocks, Ledger.head?]

theorem sameMode (h : Session.Checked I ks s t) : s.store.SameMode t.store := by
  rw [h.store]
  exact .setLedger _ _

theorem isOpen (h : Session.Checked I ks s t) (isOpen : s.store.closed = false) :
    t.store.closed = false :=
  h.sameMode.closed.trans isOpen

end Session.Checked

/-- Raising a counter leaves the others. -/
theorem Session.counted_raise (s : Session σ) (k k' : Counter) :
    (s.raise k).counted k' =
      if k' = k then (s.store.ledger.counted k.name + 1).value else s.counted k' := by
  show ((s.store.ledger.increment k.name 1).counted k'.name).value = _
  rw [Ledger.counted_increment]
  by_cases same : k' = k
  · rw [if_pos same, if_pos (congrArg Counter.name same)]
  · rw [if_neg same, if_neg fun name => same (Counter.name_injective name)]
    rfl

/-- A counter that is raised is the only one. -/
theorem Session.Checked.raise {I : World σ → Prop} {s : Session σ} (inv : I s.world)
    (k : Counter) : Session.Checked I [k] s (s.raise k) := by
  refine ⟨inv, rfl, fun k' new => ?_, fun k' => ?_, rfl, rfl, rfl⟩
  · rw [counted_raise, if_neg fun same => new (List.mem_singleton.mpr same)]
  · rw [counted_raise]
    by_cases same : k' = k
    · rw [if_pos same, same]
      exact Count.le_add _ _
    · rw [if_neg same]

/-- A counter that was raised is not zero. -/
theorem Session.raise_pos (s : Session σ) (k : Counter) : (s.raise k).counted k ≠ 0 := by
  rw [counted_raise, if_pos rfl]
  exact Count.add_one_ne_zero _

/-- Besides what checks change, the later session keeps an active failure. -/
structure Session.Blamed (I : World σ → Prop) (f : Failure) (s t : Session σ) : Prop where
  checked : Session.Checked I [.activeReconciliations, .failedReconciliations] s
    { t with recorder := s.recorder }
  kind : f.kind = .active
  recorder : t.recorder = { s.recorder with active := some f }

section Blamed

variable {I : World σ → Prop} {f : Failure} {s t u : Session σ}

/-- The first failure of active checks is kept. -/
theorem Session.Checked.blamed (h : Session.Checked I [.activeReconciliations] s t)
    (h' : Session.Checked I [.failedReconciliations] t u) (clean : s.recorder.active = none)
    (kind : f.kind = .active) :
    Session.Blamed I f s { u with recorder := u.recorder.keep f } := by
  have both : Session.Checked I [.activeReconciliations, .failedReconciliations] s u :=
    (h.mono (by simp)).trans (h'.mono (by simp))
  refine ⟨both.setRecorder s.recorder, kind, ?_⟩
  show u.recorder.keep f = { s.recorder with active := some f }
  rw [both.recorder, Recorder.keep, kind]
  show { s.recorder with active := s.recorder.active <|> some f } = _
  rw [clean]
  rfl

namespace Session.Blamed

/-- Later checks that are right leave the failure as it was kept. -/
theorem trans (h : Session.Blamed I f s t)
    (h' : Session.Checked I [.activeReconciliations] t u) : Session.Blamed I f s u :=
  ⟨h.checked.trans ((h'.mono (by simp)).setRecorder _), h.kind, h'.recorder.trans h.recorder⟩

/-- So does a later check that fails, since the first failure stays. -/
theorem fails (h : Session.Blamed I f s t) {f' : Failure} (kind : f'.kind = .active)
    (h' : Session.Checked I [.failedReconciliations] t u) :
    Session.Blamed I f s { u with recorder := u.recorder.keep f' } := by
  refine ⟨h.checked.trans ((h'.mono (by simp)).setRecorder _), h.kind, ?_⟩
  show u.recorder.keep f' = _
  rw [h'.recorder, h.recorder, Recorder.keep, kind]
  rfl

end Session.Blamed

end Blamed

/-- The change comes to the balance of the node. -/
def Chain.Agrees (c : Chain) (change : Change) : Prop :=
  change.value.Same (c.balanceAt change.holding change.block.index)

namespace Auditor

variable {a : Auditor σ} {c : Chain} {I : World σ → Prop} {s : Session σ} {change : Change}

/-! ## One check

The balances agree or they differ, and what the check leaves is told for each of the two. -/

/-- The node answers for the block; one that knows no past balances may answer
for another block, which is skipped. -/
theorem liveBalance_ends (serves : a.node.Serves c I) (inv : I s.world)
    (isOpen : s.store.closed = false) {block : BlockId} (has : c.Has block) (h : Holding) :
    (a.liveBalance h block).Ends s
      (fun live t =>
        live = some (c.balanceAt h block.index) ∧ Session.Asked I s t ∨
        a.settings.lookup = false ∧ live = none ∧
          Session.Checked I [.skippedReconciliations] s t)
      (fun _ _ => False) := by
  unfold liveBalance
  rw [Step.ends_bind]
  -- With a lookup the node answers for the block; without one it answers for its last block,
  -- which may be another.
  by_cases on : a.settings.lookup = true
  · rw [if_pos on]
    obtain ⟨w, inv', eq⟩ := Step.eval_ask_balance (ε := ReconcileError) serves inv h (some block)
    refine Step.ends_of_ok eq ?_
    rw [Chain.balance_at has]
    show Step.Ends (if block = block then _ else _) _ _ _
    rw [if_pos rfl]
    exact .inl ⟨rfl, w, inv', rfl⟩
  · rw [if_neg on]
    obtain ⟨tip, answer⟩ := Chain.balance_tip has h
    obtain ⟨w, inv', eq⟩ := Step.eval_ask_balance (ε := ReconcileError) serves inv h none
    refine Step.ends_of_ok eq ?_
    rw [answer]
    show Step.Ends (if tip = block then _ else _) _ _ _
    by_cases same : tip = block
    · rw [if_pos same, same]
      exact .inl ⟨rfl, w, inv', rfl⟩
    · rw [if_neg same, skipped, Step.ends_bind]
      refine Step.ends_of_ok (Step.eval_count (by exact isOpen) _) ?_
      exact .inr ⟨Bool.eq_false_iff.mpr on, rfl,
        (Session.Checked.of_asked ⟨w, inv', rfl⟩).trans (.raise inv' _)⟩

/-- A balance that is right is counted as such. -/
theorem conclude_ends_of_same (serves : a.node.Serves c I) (inv : I s.world)
    (isOpen : s.store.closed = false) {computed live : Decimal} (same : computed.Same live)
    (kind : Kind) (h : Holding) (block : BlockId) :
    (a.conclude kind h block computed live).Ends s
      (fun _ t => Session.Checked I [kind.counter] s t ∧ t.counted kind.counter ≠ 0)
      (fun _ _ => False) := by
  unfold conclude
  rw [if_pos same, Step.ends_bind]
  refine Step.ends_of_ok (Step.eval_onTracker _ _) ?_
  refine Step.ends_of_ok (a.eval_succeeded (by exact isOpen) kind h block live) ?_
  have told := serves.tell s.world (a.settings.log.reconciled kind h block.index live) inv
  refine ⟨?_, Session.raise_pos _ _⟩
  exact (Session.Checked.of_tracker inv _).trans
    ((Session.Checked.of_asked ⟨_, told, rfl⟩).trans (.raise told _))

/-- One that is wrong is counted and kept, and ends the check. -/
theorem conclude_ends_of_differs (serves : a.node.Serves c I) (halt : a.settings.halt = true)
    (inv : I s.world)
    (isOpen : s.store.closed = false) {computed live : Decimal} (differs : ¬computed.Same live)
    (kind : Kind) (h : Holding) (block : BlockId) :
    (a.conclude kind h block computed live).Ends s (fun _ _ => False)
      (fun stop t => stop = .failed (.mismatch ⟨kind, h, block, computed, live⟩) ∧
        ∃ u, Session.Checked I [.failedReconciliations] s u ∧
          t = { u with recorder := u.recorder.keep ⟨kind, h, block, computed, live⟩ }) := by
  unfold conclude
  rw [if_neg differs, Step.ends_bind]
  refine Step.ends_of_ok (Step.eval_onTracker _ _) ?_
  unfold failed
  rw [Step.ends_bind]
  refine Step.ends_of_ok (Step.eval_count (by exact isOpen) _) ?_
  rw [Step.ends_bind]
  refine Step.ends_of_ok (Step.eval_tell _ _) ?_
  rw [if_pos halt]
  refine ⟨rfl, _, ?_, rfl⟩
  have told := serves.tell s.world
    [.mismatch ⟨kind, h, block, computed, live⟩ a.settings.halt] inv
  refine (Session.Checked.of_tracker inv _).trans
    ((Session.Checked.raise (by exact inv) _).trans (.of_asked ⟨_, told, rfl⟩))

/-- An active check of a change that comes to the balance of the node succeeds. -/
theorem checkActive_ends_of_agrees (serves : a.node.Serves c I) (inv : I s.world)
    (isOpen : s.store.closed = false) (checks : a.settings.isExempt change.holding = false)
    (lookup : a.settings.lookup = true) (has : c.Has change.block) (agrees : c.Agrees change) :
    (a.checkActive change).Ends s
      (fun _ t => Session.Checked I [.activeReconciliations] s t ∧
        t.counted .activeReconciliations ≠ 0)
      (fun _ _ => False) := by
  unfold checkActive
  rw [checks, if_neg Bool.false_ne_true, Step.ends_bind]
  refine (liveBalance_ends serves inv isOpen has _).mono ?_ fun _ _ h => h
  rintro live t (⟨rfl, asked⟩ | ⟨off, _⟩)
  · have concluded := conclude_ends_of_same serves asked.inv (by rw [asked.store]; exact isOpen)
      agrees .active change.holding change.block
    refine concluded.mono ?_ fun _ _ h => h
    rintro _ u ⟨checked, counted⟩
    exact ⟨(Session.Checked.of_asked asked).trans checked, counted⟩
  · rw [lookup] at off
    cases off

/-- Any other one fails and blames the block of the change. -/
theorem checkActive_ends_of_differs (serves : a.node.Serves c I) (inv : I s.world)
    (isOpen : s.store.closed = false) (checks : a.settings.isExempt change.holding = false)
    (lookup : a.settings.lookup = true) (halt : a.settings.halt = true) (has : c.Has change.block)
    (differs : ¬c.Agrees change) :
    (a.checkActive change).Ends s (fun _ _ => False)
      (fun stop t => ∃ f u, stop = .failed (.mismatch f) ∧ f.kind = .active ∧
        f.block = change.block ∧ Session.Checked I [.failedReconciliations] s u ∧
        t = { u with recorder := u.recorder.keep f }) := by
  unfold checkActive
  rw [checks, if_neg Bool.false_ne_true, Step.ends_bind]
  refine (liveBalance_ends serves inv isOpen has _).mono ?_ fun _ _ h => h.elim
  rintro live t (⟨rfl, asked⟩ | ⟨off, _⟩)
  · have concluded := conclude_ends_of_differs serves halt asked.inv
      (by rw [asked.store]; exact isOpen) differs .active change.holding change.block
    refine concluded.mono (fun _ _ h => h) ?_
    rintro stop t ⟨rfl, u, checked, rfl⟩
    exact ⟨_, u, rfl, rfl, rfl, (Session.Checked.of_asked asked).trans checked, rfl⟩
  · rw [lookup] at off
    cases off

/-! ## The checks of a block

At most so many checks run at once. The queue is run down before another change is let in,
which a general invariant over the changes done so far does not notice. -/

section Rule

variable {J : List Change → Option ReconcileError → Session σ → Prop} {cs : List Change}

/-- What each check keeps, checks in a row keep. The induction is on the queue, with the
checks done so far as a prefix of all changes. -/
theorem runChecks_ends
    (step : ∀ done change rest e s, cs = done ++ change :: rest → J done e s →
      (a.checkActive change).Ends s (fun _ t => J (done ++ [change]) e t)
        (fun stop t => ∃ e', stop = .failed e' ∧ J (done ++ [change]) (e <|> some e') t)) :
    ∀ (queue done rest : List Change) (t : Tally) (s : Session σ),
      cs = done ++ queue ++ rest → t.stuck = 0 → J done t.error s →
      (a.runChecks queue t).Ends s
        (fun t' u => t'.stuck = 0 ∧ J (done ++ queue) t'.error u) (fun _ _ => False) := by
  intro queue
  induction queue with
  | nil =>
    intro done rest t s _ stuck inv
    refine ⟨stuck, ?_⟩
    rwa [List.append_nil]
  | cons change queue ih =>
    intro done rest t s split stuck inv
    have split' : cs = (done ++ [change]) ++ queue ++ rest := by simpa using split
    have checked := step done change (queue ++ rest) t.error s (by simpa using split) inv
    unfold runChecks
    rw [Step.ends_bind, Step.ends_attempt]
    refine checked.mono (fun _ u inv' => ?_) ?_
    · refine (ih (done ++ [change]) rest t u split' stuck inv').mono ?_ fun _ _ h => h
      rintro t' v ⟨stuck', inv''⟩
      exact ⟨stuck', by simpa using inv''⟩
    -- An error is noted, unless there was one, and the rest is checked.
    · rintro _ u ⟨e', rfl, inv'⟩
      refine (ih (done ++ [change]) rest { t with error := t.error <|> some e' } u split' stuck
        inv').mono ?_ fun _ _ h => h
      rintro t' v ⟨stuck', inv''⟩
      exact ⟨stuck', by simpa using inv''⟩

/-- Whatever fits at once, the checks that were made are the first ones, and those
that wait are the rest. -/
theorem startChecks_ends
    (step : ∀ done change rest e s, cs = done ++ change :: rest → J done e s →
      (a.checkActive change).Ends s (fun _ t => J (done ++ [change]) e t)
        (fun stop t => ∃ e', stop = .failed e' ∧ J (done ++ [change]) (e <|> some e') t)) :
    ∀ (rest queue done : List Change) (free : Nat) (t : Tally) (s : Session σ),
      cs = done ++ queue ++ rest → t.stuck = 0 → J done t.error s →
      (a.startChecks rest queue free t).Ends s
        (fun r u => ∃ done', cs = done' ++ r.1 ∧ r.2.stuck = 0 ∧ J done' r.2.error u)
        (fun _ _ => False) := by
  intro rest
  induction rest with
  | nil =>
    intro queue done free t s split stuck inv
    unfold startChecks
    exact ⟨done, by simpa using split, stuck, inv⟩
  | cons change rest ih =>
    intro queue done free t s split stuck inv
    cases free with
    | succ free => exact ih (queue ++ [change]) done free t s (by simpa using split) stuck inv
    | zero =>
      unfold startChecks
      rw [Step.ends_bind]
      refine (runChecks_ends step queue done _ t s split stuck inv).mono ?_ fun _ _ h => h
      rintro t' u ⟨stuck', inv'⟩
      -- No check is stuck, so that some permit is left.
      have some_fit : a.permits - t'.stuck = (a.permits - 1) + 1 := by
        unfold permits
        omega
      rw [some_fit]
      exact ih [change] (done ++ queue) _ t' u (by simpa using split) stuck' inv'

/-- **The checks of a block**, with an invariant over those made so far and the
first error among them. If there is an error, those that wait are dropped. -/
theorem checkAll_ends (cs : List Change)
    (step : ∀ done change rest e s, cs = done ++ change :: rest → J done e s →
      (a.checkActive change).Ends s (fun _ t => J (done ++ [change]) e t)
        (fun stop t => ∃ e', stop = .failed e' ∧ J (done ++ [change]) (e <|> some e') t))
    (start : J [] none s) :
    (a.checkAll cs).Ends s (fun _ t => J cs none t)
      (fun stop t => ∃ done rest e, cs = done ++ rest ∧ stop = .failed e ∧ J done (some e) t) := by
  unfold checkAll
  rw [Step.ends_bind]
  refine (startChecks_ends step cs [] [] a.permits {} s rfl rfl start).mono ?_
    fun _ _ h => h.elim
  rintro ⟨queue, t⟩ u ⟨done, split, stuck, inv⟩
  -- An error in the first half ends the checks there.
  have stop_early : ∀ {e : ReconcileError}, t.error = some e →
      ∃ done rest e', cs = done ++ rest ∧ Stop.failed e = .failed e' ∧ J done (some e') u :=
    fun {e} error => ⟨done, queue, e, split, rfl, error ▸ inv⟩
  show Step.Ends (settle t >>= _) u _ _
  rw [Step.ends_bind, settle]
  cases error : t.error with
  | some e => exact stop_early error
  | none =>
    show Step.Ends (a.runChecks queue t >>= _) u _ _
    rw [Step.ends_bind]
    refine (runChecks_ends step queue done [] t u (by simpa using split) stuck inv).mono ?_
      fun _ _ h => h.elim
    rintro t' v ⟨stuck', inv'⟩
    rw [Step.ends_bind, settle]
    rw [← split] at inv'
    cases error' : t'.error with
    | some e =>
      rw [error'] at inv'
      exact ⟨cs, [], e, (List.append_nil cs).symm, rfl, inv'⟩
    | none =>
      rw [error'] at inv'
      show Step.Ends (if t'.stuck ≠ 0 then _ else _) v _ _
      rw [if_neg (not_not.mpr stuck')]
      exact inv'

end Rule

/-! ## Fault finding

As an invariant: no fault among the changes done so far, or an error and the block it
blames. -/

/-- The checks made so far: they all agree, or the first that does not is kept. -/
def Judged (c : Chain) (I : World σ → Prop) (block : BlockId) (s : Session σ)
    (done : List Change) (e : Option ReconcileError) (t : Session σ) : Prop :=
  (e = none ∧ (∀ change ∈ done, c.Agrees change) ∧
    Session.Checked I [.activeReconciliations] s t ∧
    (done ≠ [] → t.counted .activeReconciliations ≠ 0)) ∨
  ∃ f, e = some (.mismatch f) ∧ f.block = block ∧ (∃ change ∈ done, ¬c.Agrees change) ∧
    Session.Blamed I f s t

/-- One more check: the balances so far were right, or the first failure is blamed. -/
theorem Judged.step (serves : a.node.Serves c I) (lookup : a.settings.lookup = true)
    (halt : a.settings.halt = true) (checks : a.settings.isExempt change.holding = false)
    (has : c.Has change.block) (isOpen : s.store.closed = false)
    (clean : s.recorder.active = none) {done : List Change} {e : Option ReconcileError}
    {t : Session σ} (judged : Judged c I change.block s done e t) :
    (a.checkActive change).Ends t
      (fun _ u => Judged c I change.block s (done ++ [change]) e u)
      (fun stop u => ∃ e', stop = .failed e' ∧
        Judged c I change.block s (done ++ [change]) (e <|> some e') u) := by
  rcases judged with ⟨rfl, agree, checked, counted⟩ | ⟨f, rfl, block, differs, blamed⟩
  · by_cases agrees : c.Agrees change
    · refine (checkActive_ends_of_agrees serves checked.inv (checked.isOpen isOpen) checks lookup
        has agrees).mono ?_ fun _ _ h => h.elim
      rintro _ u ⟨checked', counted'⟩
      refine .inl ⟨rfl, fun x mem => ?_, checked.trans checked', fun _ => counted'⟩
      rcases List.mem_append.mp mem with mem | mem
      · exact agree x mem
      · rwa [List.mem_singleton.mp mem]
    · refine (checkActive_ends_of_differs serves checked.inv (checked.isOpen isOpen) checks lookup
        halt has agrees).mono (fun _ _ h => h.elim) ?_
      rintro _ _ ⟨f, u, rfl, kind, block, checked', rfl⟩
      -- Up to here all was right, so this is the first failure.
      exact ⟨_, rfl, .inr ⟨f, rfl, block, ⟨change, by simp, agrees⟩,
        checked.blamed checked' clean kind⟩⟩
  · have inv : I t.world := blamed.checked.inv
    have open' : t.store.closed = false := blamed.checked.isOpen isOpen
    -- A failure was found before, and it stays the one that is blamed.
    have some_differs : ∃ x ∈ done ++ [change], ¬c.Agrees x := by
      obtain ⟨x, mem, differs⟩ := differs
      exact ⟨x, List.mem_append_left _ mem, differs⟩
    by_cases agrees : c.Agrees change
    · refine (checkActive_ends_of_agrees serves inv open' checks lookup has agrees).mono ?_
        fun _ _ h => h.elim
      rintro _ u ⟨checked', _⟩
      exact .inr ⟨f, rfl, block, some_differs, blamed.trans checked'⟩
    · refine (checkActive_ends_of_differs serves inv open' checks lookup halt has agrees).mono
        (fun _ _ h => h.elim) ?_
      rintro _ _ ⟨f', u, rfl, kind', _, checked', rfl⟩
      exact ⟨_, rfl, .inr ⟨f, rfl, block, some_differs, blamed.fails kind' checked'⟩⟩

/-- **The checks of a block succeed iff every change agrees.** Otherwise the run
fails with a mismatch at the block, which the recorder keeps. -/
theorem checkChanges_ends (serves : a.node.Serves c I) (lookup : a.settings.lookup = true)
    (halt : a.settings.halt = true) (active : a.settings.active ≠ 0)
    (checks : ∀ h, a.settings.isExempt h = false) (inv : I s.world)
    (isOpen : s.store.closed = false) (clean : s.recorder.active = none) {block : BlockId}
    (has : c.Has block) {cs : List Change} (blocks : ∀ change ∈ cs, change.block = block) :
    (a.checkChanges cs).Ends s
      (fun _ t => (∀ change ∈ cs, c.Agrees change) ∧
        Session.Checked I [.activeReconciliations] s t ∧
        (t.counted .activeReconciliations ≠ 0 ↔
          s.counted .activeReconciliations ≠ 0 ∨ cs ≠ []))
      (fun stop t => ∃ f, stop = .failed (.mismatch f) ∧ f.block = block ∧
        (∃ change ∈ cs, ¬c.Agrees change) ∧ Session.Blamed I f s t) := by
  rw [ends_checkChanges]
  have tracked : Session.Checked I [.activeReconciliations] s
      { s with tracker := s.tracker.track (cs.map (·.holding)) } := .of_tracker inv _
  by_cases idle : a.settings.active = 0 ∨ cs = []
  · rw [if_pos idle]
    have nothing : cs = [] := idle.resolve_left active
    subst nothing
    refine ⟨fun _ mem => (nomatch mem), tracked, .inl, fun h => h.resolve_right ?_⟩
    exact not_not.mpr rfl
  · rw [if_neg idle]
    have something : cs ≠ [] := fun none => idle (.inr none)
    -- What is kept is that all checks so far agreed, or who is to blame.
    have all := checkAll_ends cs (a := a) (J := Judged c I block s)
      (s := { s with tracker := s.tracker.track (cs.map (·.holding)) }) ?_
      (.inl ⟨rfl, fun _ mem => (nomatch mem), tracked, fun some => absurd rfl some⟩)
    · refine all.mono ?_ ?_
      · rintro _ t (⟨_, agree, checked, counted⟩ | ⟨f, impossible, _⟩)
        · exact ⟨agree, checked, fun _ => .inr something, fun _ => counted something⟩
        · cases impossible
      · rintro _ t ⟨done, rest, e, split, rfl, judged⟩
        obtain ⟨impossible, _⟩ | ⟨f, same, at_, differs, blamed⟩ := judged
        · cases impossible
        · cases same
          obtain ⟨x, mem, differs⟩ := differs
          exact ⟨f, rfl, at_, ⟨x, by rw [split]; exact List.mem_append_left _ mem, differs⟩, blamed⟩
    · intro done change rest e t split judged
      have block_eq := blocks change (by rw [split]; simp)
      subst block_eq
      exact judged.step serves lookup halt (checks _) has isOpen clean

end Auditor

end BalanceAudit
