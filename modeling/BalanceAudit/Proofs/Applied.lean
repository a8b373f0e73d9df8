import BalanceAudit.Proofs.Computed
import BalanceAudit.Proofs.Waiting

/-!
# What becomes of a block

A block enters the store in one step: it is fetched, staged and committed, or the
books stay as they are. Its checks are made behind that step. A run that is idle
there leaves a block in the store whose checks did not all come to an end.

- `Auditor.Tried`: checks made one after the other, with what they came to.
- `Auditor.Applied`, `Auditor.CutShort`: a block that was applied with all its
  checks, and one that was committed without some of them.
- `Auditor.Applies`: consecutive blocks that were applied.
- `Auditor.applyBlock_ends_applied`, `Auditor.syncFrom_applies`: what one block, and
  what a run comes to.
-/

namespace BalanceAudit

variable {σ : Type}

/-- The later session differs at most in what was told and in what is tracked. -/
def Session.Heard (s t : Session σ) : Prop :=
  ∃ events tracker, t = { s with world := { s.world with events }, tracker }

theorem Session.Heard.books {s t : Session σ} (heard : s.Heard t) : t.books = s.books := by
  obtain ⟨_, _, rfl⟩ := heard
  rfl

namespace Auditor

/-- The changes of a batch that are checked. -/
def forwarded (a : Auditor σ) (batch : Batch) : List Change :=
  if a.settings.enabled ∧ a.settings.active ≠ 0 then batch.changes.filter a.isObserved else []

/-! ## Checks and what they came to

The checks that were made are a list of changes, each with what its check came to. The tally
in memory says as much of it as the end of the checks needs. -/

/-- Checks that were made one after the other, each with what it came to. -/
inductive Tried (a : Auditor σ) (s : Session σ) :
    List (Change × Except (Stop ReconcileError) Unit) → Session σ → Prop
  | none : Tried a s [] s
  | next {rs : List (Change × Except (Stop ReconcileError) Unit)} {t : Session σ}
      (before : Tried a s rs t) (c : Change) :
      Tried a s (rs ++ [(c, ((a.checkActive c).eval t).1)]) ((a.checkActive c).eval t).2

/-- Every change was checked, and every check came to its end. -/
def Completed (a : Auditor σ) (cs : List Change) (s t : Session σ) : Prop :=
  a.Tried s (cs.map fun c => (c, .ok ())) t

/-- Not more than the first of the changes were checked, and one of the checks was
left waiting for the node. -/
def Stuck (a : Auditor σ) (cs : List Change) (s t : Session σ) : Prop :=
  ∃ rs, a.Tried s rs t ∧ rs.map (·.1) <+: cs ∧ ∃ c, (c, .error .idle) ∈ rs

variable {a : Auditor σ} {s t u : Session σ}

theorem Tried.books {rs : List (Change × Except (Stop ReconcileError) Unit)}
    (tried : a.Tried s rs t) : t.books = s.books := by
  induction tried with
  | none => rfl
  | next _ c ih => exact (a.checkActive_leaves c _).trans ih

/-- The tally says whether a check was left waiting, and is empty only if all of
them came to their end. -/
structure Tally.Sums (t : Tally) (rs : List (Change × Except (Stop ReconcileError) Unit)) :
    Prop where
  stuck : t.stuck ≠ 0 → ∃ c, (c, .error .idle) ∈ rs
  clean : t.error = none → t.stuck = 0 → rs = rs.map fun r => (r.1, .ok ())

/-- The checks of `done` were made, and the tally sums up what they came to. -/
def Tallied (a : Auditor σ) (s : Session σ) (done : List Change) (t : Tally) (u : Session σ) :
    Prop :=
  ∃ rs, a.Tried s rs u ∧ rs.map (·.1) = done ∧ Tally.Sums t rs

theorem Tallied.start (a : Auditor σ) (s : Session σ) : a.Tallied s [] {} s :=
  ⟨[], .none, rfl, fun some => absurd rfl some, fun _ _ => rfl⟩

theorem Tallied.stuck {done cs : List Change} {tally : Tally} (tallied : a.Tallied s done tally t)
    (made : done <+: cs) (some : tally.stuck ≠ 0) : a.Stuck cs s t := by
  obtain ⟨rs, tried, rfl, sums⟩ := tallied
  exact ⟨rs, tried, made, sums.stuck some⟩

theorem Tallied.completed {done : List Change} {tally : Tally}
    (tallied : a.Tallied s done tally t) (error : tally.error = none) (stuck : tally.stuck = 0) :
    a.Completed done s t := by
  obtain ⟨rs, tried, rfl, sums⟩ := tallied
  unfold Completed
  rw [List.map_map]
  exact sums.clean error stuck ▸ tried

/-- One more check, whatever it comes to. -/
theorem Tallied.next {done : List Change} {tally : Tally} (tallied : a.Tallied s done tally t)
    (c : Change) :
    (a.checkActive c).Ends t (fun _ u => a.Tallied s (done ++ [c]) tally u) (fun stop u =>
      (stop ≠ .idle → ∀ e,
        a.Tallied s (done ++ [c]) { tally with error := tally.error <|> some e } u) ∧
      (stop = .idle → a.Tallied s (done ++ [c]) { tally with stuck := tally.stuck + 1 } u)) := by
  obtain ⟨rs, tried, rfl, sums⟩ := tallied
  have later : ∀ {u : Session σ} {r : Except (Stop ReconcileError) Unit},
      (a.checkActive c).eval t = (r, u) → a.Tried s (rs ++ [(c, r)]) u := by
    intro u r eq
    have next := tried.next c
    rwa [eq] at next
  have names : ∀ r : Except (Stop ReconcileError) Unit,
      (rs ++ [(c, r)]).map (·.1) = rs.map (·.1) ++ [c] := fun r => List.map_append
  -- What the check answers is tallied: nothing, an error, or that it is stuck.
  refine (Step.Ends.self (a.checkActive c) t).mono (fun _ u eq => ?_) fun stop u eq =>
    ⟨?_, ?_⟩
  · refine ⟨_, later eq, names _, fun some => ?_, fun error stuck => ?_⟩
    · obtain ⟨c', mem⟩ := sums.stuck some
      exact ⟨c', List.mem_append_left _ mem⟩
    · rw [List.map_append, ← sums.clean error stuck]
      rfl
  · rintro _ e
    refine ⟨_, later eq, names _, fun some => ?_, fun error => ?_⟩
    · obtain ⟨c', mem⟩ := sums.stuck some
      exact ⟨c', List.mem_append_left _ mem⟩
    · exact absurd error (by cases tally.error <;> exact nofun)
  · rintro rfl
    exact ⟨_, later eq, names _, fun _ => ⟨c, List.mem_append_right _ (List.mem_singleton.mpr rfl)⟩,
      fun _ stuck => absurd stuck (Nat.succ_ne_zero _)⟩

theorem runChecks_tallied (queue : List Change) : ∀ (done : List Change) (tally : Tally)
    (t : Session σ), a.Tallied s done tally t →
    (a.runChecks queue tally).Ends t (fun tally' u => a.Tallied s (done ++ queue) tally' u)
      (fun _ _ => False) := by
  induction queue with
  | nil =>
    intro done tally t tallied
    rw [List.append_nil]
    exact tallied
  | cons c queue ih =>
    intro done tally t tallied
    unfold runChecks
    rw [Step.ends_bind, Step.ends_attempt, List.append_cons]
    refine (tallied.next c).mono (fun _ u more => ih _ _ _ more) ?_
    rintro stop u ⟨error, idle⟩
    cases stop with
    | failed e => exact ih _ _ _ (error (by simp) e)
    | overflow what => exact ih _ _ _ (error (by simp) (broken what))
    | idle => exact ih _ _ _ (idle rfl)

/-- Checks start in their order. Those that never end keep the others from
starting only once they take all the room there is. -/
theorem startChecks_tallied (rest : List Change) : ∀ (queue done : List Change) (free : Nat)
    (tally : Tally) (t : Session σ), a.Tallied s done tally t →
    (a.startChecks rest queue free tally).Ends t
      (fun r u => ∃ done', done ++ queue ++ rest = done' ++ r.1 ∧ a.Tallied s done' r.2 u)
      (fun stop u => stop = .idle → a.Stuck (done ++ queue ++ rest) s u) := by
  induction rest with
  | nil =>
    intro queue done free tally t tallied
    exact ⟨done, List.append_nil _, tallied⟩
  | cons c rest ih =>
    intro queue done free tally t tallied
    cases free with
    | succ free =>
      have later := ih (queue ++ [c]) done free tally t tallied
      unfold startChecks
      simpa only [List.append_assoc, List.singleton_append] using later
    | zero =>
      unfold startChecks
      rw [Step.ends_bind]
      refine (runChecks_tallied queue done tally t tallied).mono (fun tally' u more => ?_)
        fun _ _ h => h.elim
      -- No permit is left once every one of them belongs to a check that is stuck.
      cases room : a.permits - tally'.stuck with
      | zero =>
        intro _
        refine more.stuck (List.prefix_append _ _) ?_
        unfold permits at room
        omega
      | succ free =>
        have later := ih [c] (done ++ queue) free tally' u more
        simpa only [List.append_assoc, List.singleton_append] using later

/-- **The checks of a block** end when all of them do. When they are idle one was
left waiting. -/
theorem checkAll_tried (cs : List Change) :
    (a.checkAll cs).Ends s (fun _ t => a.Completed cs s t)
      (fun stop t => stop = .idle → a.Stuck cs s t) := by
  unfold checkAll
  rw [Step.ends_bind]
  refine (startChecks_tallied cs [] [] a.permits {} s (.start a s)).mono ?_ fun _ _ h => h
  rintro ⟨queue, tally⟩ t ⟨done, split, tallied⟩
  have split : cs = done ++ queue := split
  show Step.Ends (settle tally >>= _) t _ _
  rw [Step.ends_bind, settle]
  -- The first half is settled before the second one is run.
  cases tally.error with
  | some e =>
    intro idle
    cases idle
  | none =>
    show Step.Ends (a.runChecks queue tally >>= _) t _ _
    rw [Step.ends_bind, split]
    refine (runChecks_tallied queue done tally t tallied).mono (fun tally' u more => ?_)
      fun _ _ h => h.elim
    rw [Step.ends_bind, settle]
    cases error : tally'.error with
    | some e =>
      intro idle
      cases idle
    | none =>
      show Step.Ends (if tally'.stuck ≠ 0 then _ else _) u _ _
      by_cases stuck : tally'.stuck = 0
      · rw [if_neg (not_not.mpr stuck)]
        exact more.completed error stuck
      · rw [if_pos stuck]
        exact fun _ => more.stuck (List.prefix_refl _) stuck

/-! ## One block

Until the commit nothing is stored; behind it the block stays, whatever its checks come to. -/

/-- The block is entered, and then every change that is checked is checked to the
end. -/
def Applied (a : Auditor σ) (index : Int) (s : Session σ) (b : Block) (t : Session σ) : Prop :=
  ∃ batch u v, (a.enterBlock index).eval s = (.ok (b, batch), u) ∧ u.Heard v ∧
    a.Completed (a.forwarded batch) v t

/-- The block is entered, but one of its checks never came to an end. -/
def CutShort (a : Auditor σ) (index : Int) (s : Session σ) (b : Block) (t : Session σ) : Prop :=
  ∃ batch u v, (a.enterBlock index).eval s = (.ok (b, batch), u) ∧ u.Heard v ∧
    a.Stuck (a.forwarded batch) v t

variable {c : Chain} {index : Int} {b : Block}

/-- Staging does not change whose batch it is. -/
theorem stageBalances_block (a : Auditor σ) (b : Block) (batch : Batch) (s : Session σ) :
    (a.stageBalances b batch).Ends s (fun batch' _ => batch'.block = batch.block)
      (fun _ _ => True) :=
  (a.stageBalances_batch b batch s).mono (fun _ _ h => h.1) fun _ _ h => h

/-- The cause is not that the run was canceled. -/
def Uncanceled (stop : Stop SyncError) : Prop := ∀ next, stop ≠ .failed (.canceled next)

theorem fetchBlock_stopsWith (a : Auditor σ) (index : Int) :
    Step.StopsWith Uncanceled (a.fetchBlock index) := by
  have idle : Uncanceled .idle := fun _ => nofun
  have failed : ∀ cause, Uncanceled (.failed (.fetch index cause)) := fun _ _ => nofun
  have ask : Step.StopsWith Uncanceled (Step.ask (a.node.block index)) := fun s =>
    Step.StopsWith.get.bind (fun s => .bind (.modify _) fun _ => by
      split
      · exact .pure _
      · exact .throw idle) s
  have fetch : ∀ fuel attempts, Step.StopsWith Uncanceled (a.fetchFrom index fuel attempts) := by
    intro fuel
    induction fuel with
    | zero => exact fun _ => .throw idle
    | succ fuel ih =>
      intro attempts
      refine (proceed_stopsWith idle).bind fun _ => ask.bind fun reply => ?_
      split
      · exact .pure _
      · exact (a.pause_stopsWith idle _).bind fun _ => ih _
      · exact .ite ((a.pause_stopsWith idle _).bind fun _ => ih _) (.throw (failed _))
      · exact .throw (failed _)
  exact Step.StopsWith.get.bind fun _ => fetch _ _

/-- **A block enters the store as a whole or not at all**, unless the store
itself fails. -/
theorem enterBlock_ends (honest : a.node.Honest c) (index : Int) (s : Session σ) :
    (a.enterBlock index).Ends s
      (fun r u => c.blocks.find? index = some r.1 ∧ r.2.block = r.1.id ∧
        ∃ l : Ledger, l.blocks = s.store.ledger.blocks ∧ u.store.ledger = l.apply r.2)
      (fun stop u => Uncanceled stop ∧ (stop = .idle → u.books = s.books)) := by
  unfold enterBlock
  rw [Step.ends_bind]
  refine ((fetchBlock_honest honest index).and (((a.fetchBlock_leaves index).ends s).and
    (a.fetchBlock_stopsWith index s))).mono ?_ fun _ _ ⟨_, same, cause⟩ => ⟨cause, fun _ => same⟩
  rintro b t ⟨found, fetched, _⟩
  rw [Step.ends_bind, Step.ends_mapError]
  refine ((a.stageBalances_block b _ t).and ((a.stageBalances_leaves b _).ends t)).mono ?_
    fun stop _ ⟨_, same⟩ => ⟨by cases stop <;> exact fun _ => nofun, fun _ => same.trans fetched⟩
  rintro batch u ⟨block, staged⟩
  have same : u.books = s.books := staged.trans fetched
  rw [Step.ends_bind]
  refine Step.ends_commit (fun accepted => ?_) fun stop refused => ?_
  rotate_left
  · refine ⟨?_, fun idle => absurd refused ?_⟩
    · cases stop <;> exact fun _ => nofun
    · cases stop <;> cases idle
      exact Store.commit_ne_idle u.store batch
  -- The store refuses the batch as it is, or has it applied.
  rcases Store.commit_cases u.store batch with ⟨_, refused⟩ | ⟨_, _, eq⟩
  · exact absurd accepted refused
  · refine ⟨found, block, u.store.ledger, (Prod.mk.inj same).1, ?_⟩
    show (u.store.commit batch).2.ledger = _
    rw [eq, Store.committed_ledger]

theorem announceBlock_ends (a : Auditor σ) (b : Block) (batch : Batch) (s : Session σ) :
    (a.announceBlock a.observer b batch).Ends s
      (fun _ t => ∃ v, s.Heard v ∧ a.Completed (a.forwarded batch) v t)
      (fun stop t => Uncanceled stop ∧
        (stop = .idle → ∃ v, s.Heard v ∧ a.Stuck (a.forwarded batch) v t)) := by
  rw [ends_announceBlock, observed_observer]
  -- Nothing is checked, or all that is observed.
  have unchecked : ∀ v : Session σ, s.Heard v → a.forwarded batch = [] →
      ∃ v', s.Heard v' ∧ a.Completed (a.forwarded batch) v' v := fun v heard nothing =>
    ⟨v, heard, nothing ▸ Tried.none⟩
  by_cases enabled : a.settings.enabled = true
  · rw [if_pos enabled, ends_checkChanges]
    by_cases some : a.settings.active = 0 ∨ batch.changes.filter a.isObserved = []
    · rw [if_pos some]
      refine unchecked _ ⟨_, _, rfl⟩ ?_
      unfold forwarded
      rcases some with off | nothing
      · rw [if_neg fun on => on.2 off]
      · rw [nothing, ite_self]
    · rw [if_neg some]
      have all : a.forwarded batch = batch.changes.filter a.isObserved :=
        if_pos ⟨enabled, fun off => some (.inl off)⟩
      rw [all]
      refine (checkAll_tried _).mono (fun _ t done => ⟨_, ⟨_, _, rfl⟩, done⟩) ?_
      intro stop t stuck
      cases stop with
      | idle => exact ⟨fun _ => nofun, fun _ => ⟨_, ⟨_, _, rfl⟩, stuck rfl⟩⟩
      | failed e => exact ⟨fun _ => nofun, nofun⟩
      | overflow => exact ⟨fun _ => nofun, nofun⟩
  · rw [if_neg enabled]
    exact unchecked _ ⟨_, _, rfl⟩ (if_neg fun on => enabled on.1)

/-- Applying a block ends with all of its checks. When it is idle, the books are as
they were or the block was cut short. -/
theorem applyBlock_ends_applied (honest : a.node.Honest c) (index : Int) (s : Session σ) :
    (a.applyBlock a.workers index).Ends s
      (fun _ t => ∃ b, c.blocks.find? index = some b ∧ a.Applied index s b t)
      (fun stop t => Uncanceled stop ∧ (stop = .idle → t.books = s.books ∨
        ∃ b, c.blocks.find? index = some b ∧ a.CutShort index s b t)) := by
  rw [applyBlock_eq, Step.ends_bind]
  refine ((enterBlock_ends honest index s).and (Step.Ends.self _ s)).mono ?_
    fun _ _ ⟨⟨cause, same⟩, _⟩ => ⟨cause, fun idle => .inl (same idle)⟩
  rintro ⟨b, batch⟩ u ⟨⟨found, _⟩, entered⟩
  refine (a.announceBlock_ends b batch u).mono ?_ ?_
  · rintro _ t ⟨v, heard, done⟩
    exact ⟨b, found, batch, u, v, entered, heard, done⟩
  · rintro stop t ⟨cause, stuck⟩
    refine ⟨cause, fun idle => .inr ?_⟩
    obtain ⟨v, heard, stuck⟩ := stuck idle
    exact ⟨b, found, batch, u, v, entered, heard, stuck⟩

/-! ## Consecutive blocks

The induction is on the fuel of the run, with the blocks applied so far in front. -/

/-- The blocks from `first` on were applied, one behind the other, up to the one
before `next`. -/
inductive Applies (a : Auditor σ) : Int → Session σ → List Block → Session σ → Int → Prop
  | none {first : Int} {s : Session σ} : Applies a first s [] s first
  | cons {first next : Int} {s t u : Session σ} {b : Block} {bs : List Block}
      {second : Int} (here : a.Applied first s b t) (advance : Index.next? first = some second)
      (later : Applies a second t bs u next) : Applies a first s (b :: bs) u next

/-- Where a canceled run left its books: between two blocks, or within one that is
in the store although some of its checks never came to an end. -/
inductive LeavesOff (a : Auditor σ) (next : Int) (s : Session σ) : List Block → Session σ → Prop
  | between {t : Session σ} (books : t.books = s.books) : LeavesOff a next s [] t
  | within {b : Block} {t u : Session σ} (cut : a.CutShort next s b t) (books : u.books = t.books) :
      LeavesOff a next s [b] u

/-- A run that is idle ends, and says before which block if it was canceled. -/
theorem canceledBefore_names (a : Auditor σ) (next : Int) (s : Session σ) :
    (a.canceledBefore next).Ends s (fun _ _ => False)
      (fun stop t => t.books = s.books ∧
        ∀ named, stop = .failed (.canceled named) → named = next) := by
  unfold canceledBefore
  rw [Step.ends_bind]
  refine ((a.awaitEnd_leaves.ends s).and
    (a.awaitEnd_stopsWith (p := Uncanceled) s)).mono ?_ ?_
  · rintro _ t ⟨same, _⟩
    rw [Step.ends_bind, Step.ends_get]
    split
    · exact ⟨same, fun _ eq => by cases eq; rfl⟩
    · exact ⟨same, fun _ => nofun⟩
  · rintro stop t ⟨same, other⟩
    exact ⟨same, fun named eq => absurd eq (other named)⟩

/-- **A run applies blocks one behind the other.** If it is canceled, it leaves off
between two of them or within one. The induction is on the blocks that may still
come. -/
theorem syncFrom_applies (honest : a.node.Honest c) (keyed : c.Keyed) {last : Option Int}
    (fuel : Nat) : ∀ (first : Int) (s : Session σ),
    (a.syncFrom a.workers last fuel first).Ends s
      (fun _ t => ∃ bs u next, a.Applies first s bs u next ∧ t.books = u.books ∧
        last.any (· < next) = true ∧ ∀ b ∈ bs, last.any (· < b.id.index) = false)
      (fun stop t => ∀ next, stop = .failed (.canceled next) → ∃ bs u left,
        a.Applies first s bs u next ∧ a.LeavesOff next u left t ∧
        last.any (· < next) = false ∧ ∀ b ∈ bs, last.any (· < b.id.index) = false) := by
  induction fuel with
  | zero =>
    intro first s next canceled
    cases canceled
  | succ fuel ih =>
    intro first s
    unfold syncFrom
    by_cases done : last.any (· < first) = true
    · rw [if_pos done]
      exact ⟨[], s, first, .none, rfl, done, fun _ mem => absurd mem List.not_mem_nil⟩
    · rw [if_neg done, Step.ends_bind, Step.ends_attempt]
      have due : last.any (· < first) = false := Bool.eq_false_iff.mpr done
      refine (applyBlock_ends_applied honest first s).mono ?_ ?_
      · rintro _ t ⟨b, found, applied⟩
        -- Every block that was applied was due.
        have bound : ∀ {bs : List Block}, (∀ b ∈ bs, last.any (· < b.id.index) = false) →
            ∀ b' ∈ b :: bs, last.any (· < b'.id.index) = false := by
          rintro bs rest b' (_ | ⟨_, mem⟩)
          · rw [keyed.index first b found]
            exact due
          · exact rest b' mem
        show Step.Ends (Step.within .next (Index.next? first) >>= _) t _ _
        rw [Step.ends_bind, Step.ends_within]
        refine ⟨fun second advance => (ih second t).mono ?_ ?_, fun _ next canceled => ?_⟩
        · rintro _ u ⟨bs, v, next, later, books, past, rest⟩
          exact ⟨b :: bs, v, next, .cons applied advance later, books, past, bound rest⟩
        · intro stop u left_off next canceled
          obtain ⟨bs, v, left, later, off, open_, rest⟩ := left_off next canceled
          exact ⟨b :: bs, v, left, .cons applied advance later, off, open_, bound rest⟩
        · cases canceled
      · rintro stop t ⟨cause, idles⟩
        cases stop with
        | failed e =>
          intro next canceled
          exact absurd canceled (cause next)
        | overflow =>
          intro next canceled
          cases canceled
        | idle =>
          refine (a.canceledBefore_names first t).mono (fun _ _ h => h.elim) ?_
          rintro stop u ⟨same, named⟩ next canceled
          obtain rfl := named next canceled
          have none : ∀ b ∈ ([] : List Block), last.any (· < b.id.index) = false :=
            fun _ mem => absurd mem List.not_mem_nil
          -- A block that was broken off may be in the store already, with its checks cut short.
          rcases idles rfl with books | ⟨b, _, cut⟩
          · exact ⟨[], s, [], .none, .between (same.trans books), due, none⟩
          · exact ⟨[], s, [b], .none, .within cut same, due, none⟩

end Auditor

end BalanceAudit
