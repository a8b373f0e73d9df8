import BalanceAudit.Proofs.Course
import BalanceAudit.Proofs.Pipeline
import BalanceAudit.Proofs.Resumed

/-!
# Runs that continue

A run that goes on with the ledger of an earlier one takes it along the rest of its
course, wherever the earlier one ended.

- `Session.Has`: a session that differs from another one in its ledger.
- `Auditor.applyBlocks`: the first blocks of a run and no more.
- `Auditor.applyBlocks_has`: they take the ledger along its course.
- `Auditor.Passes`, `Auditor.syncFrom_follows`: **and so does a run**, unless the range ends
  at the greatest index, where it overflows.
- `Session.Led`, `Auditor.runPipeline_led`: how a run ends that goes on with the
  ledger of a shorter course.
-/

namespace BalanceAudit

variable {σ : Type}

/-- The later session has the ledger; the mode of the store, the tokens and what was
recorded are as they were. -/
structure Session.Has (s : Session σ) (l : Ledger) (t : Session σ) : Prop where
  run : s.world.SameRun t.world
  ledger : t.store.ledger = l
  mode : s.store.SameMode t.store
  recorder : t.recorder = s.recorder
  sweepers : t.sweepers = s.sweepers
  shutdown : t.shutdown = s.shutdown

/-- Nothing keeps a run from going on. -/
structure Session.Able (s : Session σ) : Prop where
  isOpen : s.store.closed = false
  canWrite : s.store.canWrite = true
  calm : s.sweepers.failure = none
  asleep : s.sweepers.asleep = 0
  running : s.world.isCanceled = false

namespace Session.Has

variable {s t : Session σ} {l : Ledger}

theorem refl (s : Session σ) : s.Has s.store.ledger s :=
  ⟨.refl _, rfl, .refl _, rfl, rfl, rfl⟩

theorem isOver (able : s.Able) (has : s.Has l t) : t.isOver = false := by
  rw [Session.isOver, has.run.isCanceled, able.running, has.sweepers, able.calm]
  rfl

end Session.Has

namespace Auditor

variable {a : Auditor σ} {c : Chain} {first last next m : Int} {s t u : Session σ} {b : Block}
  {l l₀ : Ledger}

/-! ## The first blocks of a run

A run of more blocks is one of fewer blocks and then the rest; that is where a run may be
cut. -/

/-- Applies `n` blocks from `next` on, and leaves the store open. -/
def applyBlocks (a : Auditor σ) : (n : Nat) → (next : Int) → Step (Session σ) SyncError Unit
  | 0, _ => pure ()
  | n + 1, next => do
    a.applyBlock a.workers next
    a.applyBlocks n (next + 1)

/-- The file of the later session is that of the former one, or has the ledger of
the first blocks of the range. -/
def Keeps (a : Auditor σ) (c : Chain) (first last : Int) (s t : Session σ) : Prop :=
  t.store.disk = s.store.disk ∨ ∃ m l, m ≤ last ∧
    a.course? c (c.segment first m) = some l ∧ t.store.disk.text? = some l.toJson.pretty

theorem Keeps.trans (h : a.Keeps c first last s t) (h' : a.Keeps c first last t u) :
    a.Keeps c first last s u := by
  rcases h' with same | written
  · unfold Keeps
    rw [same]
    exact h
  · exact .inr written

/-- Without checks a block leads to the ledger of its batch. -/
theorem take?_of_disabled (disabled : a.settings.enabled = false) {batch : Batch}
    (staged : a.batch? c l₀ b = some batch) (taken : a.take? c l₀ b = some l) :
    l = l₀.apply batch := by
  obtain ⟨batch', staged', checked⟩ := take?_cases taken
  rw [staged] at staged'
  cases staged'
  have nothing : a.forwarded batch = [] := if_neg fun on => by
    rw [disabled] at on
    cases on.1
  rw [nothing] at checked
  cases checked
  rfl

/-- One block of a range. -/
theorem applyBlock_has (recites : a.node.Recites c) (able : s.Able) (linked : c.Linked first last)
    (low : Index.least ≤ first) (high : last ≤ Index.greatest) (ge : first ≤ next)
    (le : next ≤ last) (before : a.course? c (c.segment first (next - 1)) = some l₀)
    (after : a.course? c (c.segment first next) = some l) (has : s.Has l₀ t) :
    (a.applyBlock a.workers next).Ends t
      (fun _ u => s.Has l u ∧ (a.settings.enabled = false → a.Keeps c first last t u))
      (fun _ _ => False) := by
  obtain ⟨b, found, key⟩ := linked.served next ge le
  have taken := take?_of_course? ge found before after
  -- The block lies behind the head, or is the first one.
  have successor : ∀ head, t.store.ledger.head? = some head →
      Index.next? head.index = some b.id.index := by
    intro head eq
    rw [has.ledger] at eq
    rcases course?_head? linked (by omega) before with ⟨_, rfl⟩ | ⟨ge', prev, _, index, head'⟩
    · cases eq
    · rw [head'] at eq
      cases eq
      rw [key, index, Index.next?_of_lt ⟨by omega, by omega⟩ (by omega), Int.sub_add_cancel]
  have isOpen : t.store.closed = false := has.mode.closed.trans able.isOpen
  rw [← has.ledger] at taken
  refine (applyBlock_takes (recites s.world) has.run (has.isOver able) isOpen
    (has.mode.canWrite.trans able.canWrite) found successor
    (fun _ => linked.opens ge le found) taken).mono ?_ fun _ _ h => h
  rintro _ u ⟨batch, staged, w, tracker, run, rfl⟩
  have successor' : ∀ head, t.store.ledger.head? = some head →
      Index.next? head.index = some batch.block.index := by
    rw [batch?_block staged]
    exact successor
  have mode := Store.commit_sameMode isOpen successor'
  refine ⟨⟨run, rfl, has.mode.trans (mode.trans (.setLedger _ _)), has.recorder, has.sweepers,
    has.shutdown⟩, fun disabled => ?_⟩
  -- The file is as it was, or was written with this block in it.
  rcases Store.commit_disk isOpen successor' with same | text
  · exact .inl same
  · rw [← take?_of_disabled disabled staged taken] at text
    exact .inr ⟨next, l, le, after, text⟩

/-- **The first blocks of a run take the ledger along its course.** Without checks
every file on the way has the ledger of some of them. The induction is on their
number. -/
theorem applyBlocks_has (recites : a.node.Recites c) (able : s.Able) (linked : c.Linked first last)
    (low : Index.least ≤ first) (high : last ≤ Index.greatest) :
    ∀ (n : Nat) (next : Int) (t : Session σ) (l₀ l : Ledger), first ≤ next →
      next + n ≤ last + 1 → a.course? c (c.segment first (next - 1)) = some l₀ →
      a.course? c (c.segment first (next + n - 1)) = some l → s.Has l₀ t →
      (a.applyBlocks n next).Ends t
        (fun _ u => s.Has l u ∧ (a.settings.enabled = false → a.Keeps c first last t u))
        (fun _ _ => False) := by
  intro n
  induction n with
  | zero =>
    intro next t l₀ l _ _ before after has
    have same : next + (0 : Nat) - 1 = next - 1 := by omega
    rw [same, before] at after
    cases after
    exact ⟨has, fun _ => .inl rfl⟩
  | succ n ih =>
    intro next t l₀ l ge le before after has
    obtain ⟨l₁, here⟩ := exists_course? (m := next) after (by omega)
    unfold applyBlocks
    rw [Step.ends_bind]
    refine (applyBlock_has recites able linked low high ge (by omega) before here has).mono ?_
      fun _ _ h => h
    rintro _ u ⟨has', kept⟩
    -- One block less is left from the next index on.
    have shift : next + 1 - 1 = next := by omega
    have rest : next + 1 + n - 1 = next + (n + 1 : Nat) - 1 := by omega
    have later := ih (next + 1) u l₁ l (by omega) (by omega) (by rw [shift, here])
      (by rw [rest, after]) has'
    exact later.mono (fun _ v ⟨has'', kept'⟩ =>
      ⟨has'', fun disabled => (kept disabled).trans (kept' disabled)⟩) fun _ _ h => h

/-- A block that is due is applied, and then the next one is, if there is an index for it. -/
theorem syncFrom_of_applyBlock (workers : List (Worker σ)) {last : Option Int} {fuel : Nat}
    (due : ¬last.any (· < next) = true)
    (applied : (a.applyBlock workers next).eval t = (.ok (), u)) :
    (a.syncFrom workers last (fuel + 1) next).eval t =
      (Step.within .next (Index.next? next) >>= a.syncFrom workers last fuel).eval u := by
  rw [syncFrom, if_neg due, Step.eval_bind, Step.eval_attempt, applied]

/-- A run goes on where its first blocks end. -/
theorem syncFrom_of_applyBlocks (below : last < Index.greatest) (fuel : Nat) :
    ∀ (n : Nat) (next : Int) (t : Session σ), Index.least ≤ next → next + n ≤ last + 1 →
      (a.applyBlocks n next).eval t = (.ok (), u) →
      (a.syncFrom a.workers (some last) (n + fuel) next).eval t =
        (a.syncFrom a.workers (some last) fuel (next + n)).eval u := by
  intro n
  induction n with
  | zero =>
    intro next t _ _ applied
    cases applied
    have same : next + (0 : Nat) = next := by omega
    rw [Nat.zero_add, same]
  | succ n ih =>
    intro next t low le applied
    have more : n + 1 + fuel = n + fuel + 1 := by omega
    have shift : next + 1 + n = next + (n + 1 : Nat) := by omega
    -- The range does not end inside the blocks applied, so each of them is a turn of the loop.
    have due : ¬(some last).any (· < next) = true := by
      simp only [Option.any_some, decide_eq_true_eq]
      omega
    unfold applyBlocks at applied
    rw [Step.eval_bind] at applied
    rcases eq : (a.applyBlock a.workers next).eval t with ⟨stop | _, v⟩
    · rw [eq] at applied
      cases applied
    · rw [eq] at applied
      rw [more, syncFrom_of_applyBlock a.workers due eq, ← shift,
        Index.next?_of_lt ⟨low, by omega⟩ (by omega)]
      exact ih (next + 1) v (by omega) (by omega) applied

/-- Behind its first `n` blocks a run passes through the session, and what is left of
it goes on from there. -/
structure Passes (a : Auditor σ) (first last : Int) (s : Session σ) (n : Nat) (t : Session σ) :
    Prop where
  applied : (a.applyBlocks n first).eval s = (.ok (), t)
  goesOn : ∀ fuel, (a.syncFrom a.workers (some last) (n + fuel) first).eval s =
    (a.syncFrom a.workers (some last) fuel (first + n)).eval t

/-- A run along a course passes through the ledgers of all shorter ones. -/
theorem exists_passes (recites : a.node.Recites c) (able : s.Able) (linked : c.Linked first last)
    (low : Index.least ≤ first) (below : last < Index.greatest) {n : Nat} (ge : first ≤ next)
    (le : next + n ≤ last + 1) (before : a.course? c (c.segment first (next - 1)) = some l₀)
    (after : a.course? c (c.segment first (next + n - 1)) = some l) (has : s.Has l₀ t) :
    ∃ u, a.Passes next last t n u ∧ s.Has l u ∧
      (a.settings.enabled = false → a.Keeps c first last t u) := by
  obtain ⟨_, u, applied, has'⟩ := (applyBlocks_has recites able linked low below.le n next t l₀ l
    ge le before after has).exists_ok
  exact ⟨u, ⟨applied, fun fuel =>
    syncFrom_of_applyBlocks below fuel n next t (by omega) le applied⟩, has'⟩

end Auditor

/-! ## Whole runs

The later run resumes behind the head of the earlier one, and the course behind the cut is
the same. -/

/-- A run ended with a ledger, and nothing else of note. -/
structure Session.Led (s : Session σ) (l : Ledger) (t : Session σ) : Prop where
  ledger : t.store.ledger = l
  mode : s.store.SameMode t.store
  recorder : t.recorder = s.recorder
  aborted : t.world.cancellation.aborted = s.world.cancellation.aborted

namespace Session.Led

variable {s t : Session σ} {l : Ledger}

/-- Canceling a token is no abort. -/
theorem cancel (led : s.Led l t) (token : Token) :
    s.Led l { t with world.cancellation := t.world.cancellation.cancel token } :=
  ⟨led.ledger, led.mode, led.recorder, (Cancellation.aborted_cancel _ _).trans led.aborted⟩

theorem of_has (has : s.Has l t) : s.Led l t :=
  ⟨has.ledger, has.mode, has.recorder, by rw [has.run.cancellation]⟩

end Session.Led

namespace Auditor

variable {a : Auditor σ} {c : Chain} {first last m r : Int} {s t : Session σ} {l l₀ : Ledger}

/-- Where a run goes on with the ledger of a shorter course: behind the range or within it,
unless there is no index behind the greatest one. -/
theorem resume?_cases (linked : c.Linked first last) (inRange : Index.InRange first)
    (high : last ≤ Index.greatest) (course : a.course? c (c.segment first last) = some l)
    (le : m ≤ last) (before : a.course? c (c.segment first m) = some l₀) :
    (∃ r, l₀.resume? first = some r ∧
      (last < r ∧ last < Index.greatest ∧ l₀ = l ∨
        first ≤ r ∧ r ≤ last ∧ a.course? c (c.segment first (r - 1)) = some l₀)) ∨
      l₀.resume? first = none ∧ last = Index.greatest := by
  have ⟨low, top⟩ := inRange
  have whole : c.segment first m = c.segment first last → l₀ = l := by
    intro same
    rw [same, course] at before
    exact (Option.some.inj before).symm
  -- An empty ledger resumes at `first`, another one behind its head.
  rcases course?_head? linked le before with ⟨lt, rfl⟩ | ⟨ge, b, _, index, head⟩
  · refine .inl ⟨first, rfl, ?_⟩
    by_cases due : first ≤ last
    · have nothing : c.segment first (first - 1) = [] := Chain.segment_of_lt (by omega)
      exact .inr ⟨le_refl _, due, by rw [nothing]; rfl⟩
    · refine .inl ⟨by omega, by omega, whole ?_⟩
      rw [Chain.segment_of_lt lt, Chain.segment_of_lt (by omega)]
  · have resume : l₀.resume? first = Index.next? m := by
      unfold Ledger.resume?
      rw [head, ← index]
    rw [resume]
    have word : Index.InRange m := ⟨by omega, by omega⟩
    -- There is nothing behind the greatest index.
    by_cases full : m = Index.greatest
    · exact .inr ⟨(Index.next?_eq_none_iff word).mpr full, by omega⟩
    · refine .inl ⟨m + 1, Index.next?_of_lt word (by omega), ?_⟩
      by_cases due : m + 1 ≤ last
      · exact .inr ⟨by omega, due, by rwa [Int.add_sub_cancel]⟩
      · have last' : last = m := by omega
        exact .inl ⟨by omega, by omega, whole (by rw [last'])⟩

section Follow

-- All blocks are served, and no sum leaves the limits of decimals and no check fails.
variable (recites : a.node.Recites c) (able : s.Able) (linked : c.Linked first last)
  (high : last ≤ Index.greatest) (course : a.course? c (c.segment first last) = some l)

include recites able linked high course

/-- A run over the rest of a range. Behind the greatest index it overflows. -/
theorem syncFrom_follows (low : Index.least ≤ first) {next : Int} (ge : first ≤ next)
    (le : next ≤ last) (before : a.course? c (c.segment first (next - 1)) = some l₀)
    (has : s.Has l₀ t) {fuel : Nat} (enough : (last + 1 - next).toNat < fuel) :
    (a.syncFrom a.workers (some last) fuel next).Ends t
      (fun _ u => last < Index.greatest ∧ s.Led l u)
      (fun stop _ => stop = .overflow .next ∧ last = Index.greatest) := by
  induction fuel generalizing next l₀ t with
  | zero => omega
  | succ fuel ih =>
    obtain ⟨l₁, here⟩ := exists_course? (m := next) course le
    have due : ¬(some last).any (· < next) = true := by simpa using le
    have word : Index.InRange next := ⟨by omega, by omega⟩
    unfold syncFrom
    rw [if_neg due, Step.ends_bind, Step.ends_attempt]
    refine (applyBlock_has recites able linked low high ge le before here has).mono ?_
      fun _ _ h => h.elim
    rintro _ u ⟨has', _⟩
    show Step.Ends (Step.within .next (Index.next? next) >>= _) u _ _
    rw [Step.ends_bind, Step.ends_within]
    -- There is a next index, or the range ended at the greatest one.
    refine ⟨fun second advance => ?_, fun full => ⟨rfl, ?_⟩⟩
    · obtain ⟨below, rfl⟩ := (Index.next?_eq_some_iff word).mp advance
      by_cases more : next + 1 ≤ last
      · exact ih (by omega) more (by rwa [Int.add_sub_cancel]) has' (by omega)
      · obtain rfl : next = last := by omega
        cases course.symm.trans here
        obtain ⟨k, rfl⟩ : ∃ k, fuel = k + 1 := ⟨fuel - 1, by omega⟩
        have past : (some next).any (· < next + 1) = true := by simp
        rw [syncFrom, if_pos past]
        exact ⟨below, (Session.Led.of_has has').cancel _⟩
    · have := (Index.next?_eq_none_iff word).mp full
      omega

variable (inRange : Index.InRange first) (le : m ≤ last)
  (before : a.course? c (c.segment first m) = some s.store.ledger)
  (resumes : s.store.ledger.resume? first = some r)

include inRange le before resumes

/-- Following the rest of a range from the ledger of a shorter course. -/
theorem follow_led :
    (a.follow r (some last)).Ends s (fun _ t => last < Index.greatest ∧ s.Led l t)
      (fun stop _ => stop = .overflow .next ∧ last = Index.greatest) := by
  have ⟨low, top⟩ := inRange
  have sync : (a.sync a.workers r (some last)).Ends s
      (fun _ u => last < Index.greatest ∧ s.Led l u)
      (fun stop _ => stop = .overflow .next ∧ last = Index.greatest) := by
    unfold Auditor.sync
    -- The range was done before, or what is left of it is applied now.
    rcases resume?_cases linked inRange high course le before with
      ⟨r', here, ⟨past, small, same⟩ | ⟨ge, due, there⟩⟩ | ⟨astray, _⟩
    · cases here.symm.trans resumes
      have finished : (some last).any (· < r) = true := by simpa using past
      rw [syncFrom, if_pos finished]
      exact ⟨small, (Session.Led.of_has (same ▸ .refl s)).cancel _⟩
    · cases here.symm.trans resumes
      have enough : (last + 1 - r).toNat < Index.count + 1 := by
        simp only [Index.least, Index.greatest, Index.count] at low high ⊢
        omega
      exact syncFrom_follows recites able linked high course low ge due there (.refl s) enough
    · cases astray.symm.trans resumes
  unfold Auditor.follow
  rw [Step.ends_bind, Step.ends_attempt, Step.ends_mapError]
  refine sync.mono (fun _ _ h => h) ?_
  rintro _ t ⟨rfl, full⟩
  exact ⟨rfl, full⟩

/-- **A run that goes on with the ledger of a shorter course** ends with that of the
whole range, unless that ends at the greatest index. -/
theorem runPipeline_led (inactive : a.settings.inactive = 0) :
    (a.runPipeline r (some last)).Ends s (fun _ t => last < Index.greatest ∧ s.Led l t)
      (fun stop _ => stop = .overflow .next ∧ last = Index.greatest) := by
  have follow := follow_led recites able linked high course inRange le before resumes
  -- Sweeps are off, so that around the sync only tracking happens.
  have both : (a.runBoth r (some last)).Ends s (fun _ t => last < Index.greatest ∧ s.Led l t)
      (fun stop _ => stop = .overflow .next ∧ last = Index.greatest) := by
    unfold runBoth
    by_cases empty : (some last).any (· < r) = true
    · rw [if_pos empty, Step.ends_bind]
      refine follow.mono (fun _ t ⟨small, led⟩ => ?_) fun _ _ h => h
      by_cases enabled : a.settings.enabled = true
      · rw [if_pos enabled, Step.ends_mapError]
        refine Step.ends_of_ok (a.eval_trackKnown (led.mode.closed.trans able.isOpen)) ?_
        exact ⟨small, led.ledger, led.mode, led.recorder, led.aborted⟩
      · rw [if_neg enabled]
        exact ⟨small, led⟩
    · rw [if_neg empty, Step.ends_bind, Step.ends_get, able.running, if_neg Bool.false_ne_true]
      by_cases enabled : a.settings.enabled = true
      · rw [if_pos enabled, Step.ends_bind, Step.ends_mapError]
        refine (startReconciler_ends inactive able.isOpen).mono ?_ fun _ _ h => h.elim
        rintro _ t ⟨tracker, wakeMs, rfl⟩
        have able' : Session.Able { s with tracker, sweepers := { wakeMs } } :=
          ⟨able.isOpen, able.canWrite, rfl, rfl, able.running⟩
        rw [Step.ends_bind, ends_sweepFailure]
        exact (follow_led recites able' linked high course inRange le before resumes).mono
          (fun _ t ⟨small, led⟩ => ⟨small, led.ledger, led.mode, led.recorder, led.aborted⟩)
          fun _ _ h => h
      · rw [if_neg enabled]
        exact follow
  unfold runPipeline
  rw [Step.ends_bind, Step.ends_attempt]
  exact both.mono (fun _ t ⟨small, led⟩ => ⟨small, led.cancel _⟩) fun _ _ h => h

end Follow

end Auditor

end BalanceAudit
