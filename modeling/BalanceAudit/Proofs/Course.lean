import BalanceAudit.Proofs.Applied
import BalanceAudit.Proofs.Ledger.Limits

/-!
# The course of a ledger

What a run makes of its ledger depends on nothing but the ledger, the blocks and
the settings: not on when it started, how often it wrote its file, or how many
checks may run at once. Sums may be rounded; the course ends where one leaves the
limits of decimals or a check fails.

- `Auditor.take?`: the ledger after one more block and its checks.
- `Auditor.course?`: the ledger after blocks, from an empty one.
- `Auditor.applyBlock_takes`: **applying a block makes that of the ledger**.
-/

namespace BalanceAudit

variable {σ : Type}

/-- The index of the block and the decimals of all its currencies are words. -/
structure Block.InLimits (b : Block) : Prop where
  id : b.id.InLimits
  holdings : ∀ h, b.reports h = true → h.InLimits

theorem Block.inLimits_iff {b : Block} :
    b.InLimits ↔ b.id.InLimits ∧ ∀ op ∈ b.operations, op.holding.InLimits := by
  constructor
  · rintro ⟨id, holdings⟩
    exact ⟨id, fun op mem => holdings _ (reports_iff.mpr (List.mem_map_of_mem mem))⟩
  · rintro ⟨id, all⟩
    refine ⟨id, fun h reports => ?_⟩
    obtain ⟨op, mem, rfl⟩ := List.mem_map.mp (reports_iff.mp reports)
    exact all op mem

instance (b : Block) : Decidable b.InLimits := decidable_of_iff _ b.inLimits_iff.symm

namespace Auditor

/-! ## One more block

A function of the ledger and the block, with the node's answers read off the chain. It is
none where a sum leaves the limits or a check fails. -/

/-- The change that a net change makes of the balance before; none if the sum leaves
the limits. -/
def change? (a : Auditor σ) (c : Chain) (l : Ledger) (b : Block) (delta : Holding × Decimal) :
    Option Change :=
  ((a.prior c l b delta.1).add? delta.2).map fun v =>
    ⟨delta.1, b.id, delta.2, v, (l.balances.find? delta.1).isNone⟩

/-- The batch of a block on top of a ledger. -/
def batch? (a : Auditor σ) (c : Chain) (l : Ledger) (b : Block) : Option Batch := do
  let ds ← b.deltas?
  let cs ← ds.mapM (a.change? c l b)
  return Batch.changing b cs

/-- The counter that the check of a change raises; none if the node has nothing to
compare with. -/
def finding? (a : Auditor σ) (c : Chain) (change : Change) : Option Counter :=
  if a.settings.isExempt change.holding then some .exemptReconciliations
  else
    match c.balance change.holding (if a.settings.lookup then some change.block else none) with
    | .ok (id, live) =>
      some (if id = change.block then
        if change.value.Same live then .activeReconciliations else .failedReconciliations
      else .skippedReconciliations)
    | .error _ => none

/-- The ledger after a check; none if it fails. -/
def check? (a : Auditor σ) (c : Chain) (l : Ledger) (change : Change) : Option Ledger :=
  match a.finding? c change with
  | some .failedReconciliations | none => none
  | some k => some (l.increment k.name 1)

/-- The ledger after a block and its checks. -/
def take? (a : Auditor σ) (c : Chain) (l : Ledger) (b : Block) : Option Ledger := do
  let batch ← a.batch? c l b
  (a.forwarded batch).foldlM (a.check? c) (l.apply batch)

/-- The ledger that blocks lead to from an empty one; none if a sum leaves the limits
or a check fails. -/
def course? (a : Auditor σ) (c : Chain) (bs : List Block) : Option Ledger :=
  bs.foldlM (a.take? c) {}

variable {a : Auditor σ} {c : Chain} {I : World σ → Prop} {s t : Session σ} {b : Block}
  {batch : Batch} {l l₀ l' : Ledger} {index : Int} {bs bs' : List Block}

theorem course?_append : a.course? c (bs ++ bs') = (a.course? c bs).bind (bs'.foldlM (a.take? c)) :=
  List.foldlM_append

theorem course?_concat : a.course? c (bs ++ [b]) = (a.course? c bs).bind (a.take? c · b) := by
  rw [course?_append]
  simp only [List.foldlM_cons, List.foldlM_nil, bind_pure]

/-! ## What stays and what is added -/

/-- A check raises a counter. -/
theorem check?_cases {change : Change} (checked : a.check? c l change = some l') :
    ∃ k, a.finding? c change = some k ∧ k ≠ .failedReconciliations ∧
      l' = l.increment k.name 1 := by
  unfold check? at checked
  split at checked
  · cases checked
  · cases checked
  · next k fine found =>
    cases checked
    exact ⟨k, found, fine, rfl⟩

theorem checks_ledger {cs : List Change} (checked : cs.foldlM (a.check? c) l = some l') :
    l'.blocks = l.blocks ∧ (l.InLimits → l'.InLimits) := by
  induction cs generalizing l with
  | nil =>
    cases checked
    exact ⟨rfl, id⟩
  | cons change cs ih =>
    rw [List.foldlM_cons] at checked
    obtain ⟨mid, first, rest⟩ := Option.bind_eq_some_iff.mp checked
    obtain ⟨k, _, _, rfl⟩ := check?_cases first
    obtain ⟨blocks, limits⟩ := ih rest
    exact ⟨blocks, fun within => limits (within.increment _ _)⟩

theorem batch?_cases (staged : a.batch? c l b = some batch) : ∃ ds cs, b.deltas? = some ds ∧
    ds.mapM (a.change? c l b) = some cs ∧ batch = Batch.changing b cs := by
  obtain ⟨ds, deltas, rest⟩ := Option.bind_eq_some_iff.mp staged
  obtain ⟨cs, changes, eq⟩ := Option.bind_eq_some_iff.mp rest
  exact ⟨ds, cs, deltas, changes, (Option.some.inj eq).symm⟩

theorem batch?_block (staged : a.batch? c l b = some batch) : batch.block = b.id := by
  obtain ⟨_, cs, _, _, rfl⟩ := batch?_cases staged
  exact Batch.changing_block b cs

theorem take?_cases (taken : a.take? c l b = some l') : ∃ batch, a.batch? c l b = some batch ∧
    (a.forwarded batch).foldlM (a.check? c) (l.apply batch) = some l' :=
  Option.bind_eq_some_iff.mp taken

/-- A block that is taken is the head, if it belongs behind all others. -/
theorem take?_head? (taken : a.take? c l b = some l')
    (behind : ∀ head, l.head? = some head → head.index < b.id.index) : l'.head? = some b.id := by
  obtain ⟨batch, staged, checked⟩ := take?_cases taken
  have block := batch?_block staged
  rw [Ledger.head?, (checks_ledger checked).1, ← Ledger.head?, Ledger.head?_apply, block]
  rwa [block]

/-! ## Blocks of a range -/

theorem take?_inLimits (words : Block.InLimits b) (within : l.InLimits)
    (taken : a.take? c l b = some l') : l'.InLimits := by
  obtain ⟨batch, staged, checked⟩ := take?_cases taken
  obtain ⟨ds, cs, deltas, changes, rfl⟩ := batch?_cases staged
  refine (checks_ledger checked).2 (within.apply ⟨?_, fun change mem => ?_⟩)
  · rw [Batch.changing_block]
    exact words.id
  · rw [Batch.changing_changes] at mem
    obtain ⟨delta, mem', this⟩ := Json.mem_of_mapM changes mem
    obtain ⟨v, _, rfl⟩ := Option.map_eq_some_iff.mp this
    refine ⟨words.holdings delta.1 ?_, words.id⟩
    exact (Block.mem_keys_deltas? deltas _).mp (List.mem_map_of_mem (f := (·.1)) mem')

variable {first last m : Int}

theorem course?_inLimits (words : ∀ b ∈ bs, Block.InLimits b)
    (course : a.course? c bs = some l) : l.InLimits := by
  induction bs using List.reverseRecOn generalizing l with
  | nil =>
    cases course
    exact Ledger.inLimits_empty
  | append_singleton bs b ih =>
    rw [course?_concat] at course
    obtain ⟨l₀, before, taken⟩ := Option.bind_eq_some_iff.mp course
    refine take?_inLimits (words b (by simp)) (ih (fun b' mem => words b' ?_) before) taken
    exact List.mem_append_left _ mem

/-- The course of a range goes through that of every shorter one. -/
theorem exists_course? (course : a.course? c (c.segment first last) = some l) (le : m ≤ last) :
    ∃ l₀, a.course? c (c.segment first m) = some l₀ := by
  by_cases some : first ≤ m + 1
  · rw [Chain.segment_append some le, course?_append] at course
    obtain ⟨l₀, before, _⟩ := Option.bind_eq_some_iff.mp course
    exact ⟨l₀, before⟩
  · rw [Chain.segment_of_lt (by omega)]
    exact ⟨{}, rfl⟩

/-- The last block of a range is the head. -/
theorem course?_head? (linked : c.Linked first last) (le : m ≤ last)
    (course : a.course? c (c.segment first m) = some l) :
    (m < first ∧ l = {}) ∨ first ≤ m ∧ ∃ b, c.blocks.find? m = some b ∧ b.id.index = m ∧
      l.head? = some b.id := by
  -- By induction on the number of blocks up to `m`.
  have gen : ∀ (n : Nat) (m : Int) (l : Ledger), (m - first).toNat < n → first ≤ m → m ≤ last →
      a.course? c (c.segment first m) = some l →
      ∃ b, c.blocks.find? m = some b ∧ b.id.index = m ∧ l.head? = some b.id := by
    intro n
    induction n with
    | zero =>
      intro m l short
      omega
    | succ n ih =>
      intro m l short ge le course
      obtain ⟨b, found, key⟩ := linked.served m ge le
      rw [Chain.segment_concat ge found, course?_concat] at course
      obtain ⟨l₀, before, taken⟩ := Option.bind_eq_some_iff.mp course
      refine ⟨b, found, key, take?_head? taken fun head eq => ?_⟩
      by_cases start : m = first
      · rw [Chain.segment_of_lt (by omega)] at before
        cases before
        cases eq
      · obtain ⟨prev, _, index, head'⟩ := ih (m - 1) l₀ (by omega) (by omega) (by omega) before
        rw [head'] at eq
        cases eq
        omega
  by_cases ge : first ≤ m
  · exact .inr ⟨ge, gen _ m l (Nat.lt_succ_self _) ge le course⟩
  · rw [Chain.segment_of_lt (by omega)] at course
    cases course
    exact .inl ⟨by omega, rfl⟩

/-- One more block of a range. -/
theorem take?_of_course? (ge : first ≤ m) (found : c.blocks.find? m = some b)
    (before : a.course? c (c.segment first (m - 1)) = some l₀)
    (after : a.course? c (c.segment first m) = some l) : a.take? c l₀ b = some l := by
  rw [Chain.segment_concat ge found, course?_concat, before] at after
  exact after

/-! ## Applying a block

Step by step the same as the course: staging forms the batch, the commit writes it, the
checks raise the counters. -/

theorem stageBalances_exact (serves : a.node.Serves c I) (inv : I s.world)
    (isOpen : s.store.closed = false)
    (opens : a.settings.lookup = true → b.isGenesis = true ∨ c.Has b.parent)
    (staged : a.batch? c s.store.ledger b = some batch) :
    (a.stageBalances b (Batch.ofBlock b)).Ends s
      (fun batch' t => batch' = batch ∧ Session.Asked I s t) (fun _ _ => False) := by
  obtain ⟨ds, cs, deltas, changes, rfl⟩ := batch?_cases staged
  rw [ends_stageBalances deltas]
  -- So far the members that are done have their changes.
  have staged := Step.Ends.mapM (g := a.stageChange b) (l := ds) (s := s)
    (E := fun _ _ => False)
    (P := fun done cs t => done.mapM (a.change? c s.store.ledger b) = some cs ∧ Session.Asked I s t)
    ?_ ⟨rfl, .refl inv⟩
  · refine staged.mono ?_ fun _ _ h => h
    rintro cs' t ⟨same, asked⟩
    rw [changes] at same
    cases same
    exact ⟨rfl, asked⟩
  · rintro done ⟨h, d⟩ rest cs' t split ⟨before, asked⟩
    rw [split, List.mapM_append] at changes
    obtain ⟨_, _, later⟩ := Option.bind_eq_some_iff.mp changes
    obtain ⟨_, here, _⟩ := Option.bind_eq_some_iff.mp later
    rw [List.mapM_cons] at here
    obtain ⟨change, this, _⟩ := Option.bind_eq_some_iff.mp here
    have this' := this
    unfold change? at this'
    obtain ⟨v, sum, rfl⟩ := Option.map_eq_some_iff.mp this'
    rw [← asked.store] at sum
    refine (stageChange_ends serves asked.inv (by rwa [asked.store]) opens sum).mono ?_
      fun _ _ h => h
    rintro _ u ⟨rfl, asked'⟩
    rw [asked.store]
    refine ⟨?_, asked.trans asked'⟩
    rw [List.mapM_append, before, List.mapM_cons, this]
    rfl

/-- A served block is entered with its batch. -/
theorem enterBlock_exact (serves : a.node.Serves c I) (inv : I s.world)
    (running : s.isOver = false) (isOpen : s.store.closed = false)
    (canWrite : s.store.canWrite = true) (found : c.blocks.find? index = some b)
    (next : ∀ head, s.store.ledger.head? = some head → Index.next? head.index = some b.id.index)
    (opens : a.settings.lookup = true → b.isGenesis = true ∨ c.Has b.parent)
    (staged : a.batch? c s.store.ledger b = some batch) :
    (a.enterBlock index).Ends s
      (fun r t => r = (b, batch) ∧
        ∃ w, I w ∧ t = { s with world := w, store := (s.store.commit batch).2 })
      (fun _ _ => False) := by
  unfold enterBlock
  rw [Step.ends_bind]
  refine (fetchBlock_ends serves inv running found).mono ?_ fun _ _ h => h.elim
  rintro _ t ⟨rfl, asked⟩
  have store := asked.store
  rw [Step.ends_bind, Step.ends_mapError]
  refine (stageBalances_exact serves asked.inv (by rwa [store]) opens (by rwa [store])).mono ?_
    fun _ _ h => h
  rintro batch' u ⟨eq, asked'⟩
  rw [eq]
  obtain ⟨w, inv', rfl⟩ := asked.trans asked'
  have next' : ∀ head, s.store.ledger.head? = some head →
      Index.next? head.index = some batch.block.index := by
    rw [batch?_block staged]
    exact next
  -- A file that can be written does not refuse the commit.
  have ok := (Store.commit_result isOpen next').resolve_right fun broken => by
    rw [canWrite] at broken
    cases broken.2
  rw [Step.ends_bind]
  refine Step.ends_of_ok (a := ()) (by rw [Step.eval_commit, ok]; rfl) ?_
  exact ⟨rfl, w, inv', rfl⟩

/-- The later session has the ledger, and differs besides only in its world and in
what is tracked. -/
def Came (I : World σ → Prop) (s : Session σ) (l : Ledger) (t : Session σ) : Prop :=
  ∃ w tracker, I w ∧ t = { s with world := w, tracker, store := { s.store with ledger := l } }

theorem Came.trans {u : Session σ} (h : Came I s l t) (h' : Came I t l' u) : Came I s l' u := by
  obtain ⟨_, _, _, rfl⟩ := h
  obtain ⟨w, tracker, inv, rfl⟩ := h'
  exact ⟨w, tracker, inv, rfl⟩

/-- A check that does not fail raises its counter. -/
theorem checkActive_exact (serves : a.node.Serves c I) (inv : I s.world)
    (isOpen : s.store.closed = false) {change : Change}
    (checked : a.check? c s.store.ledger change = some l) :
    (a.checkActive change).Ends s (fun _ => Came I s l) (fun _ _ => False) := by
  obtain ⟨k, found, fine, rfl⟩ := check?_cases checked
  unfold finding? at found
  unfold checkActive
  by_cases exempt : a.settings.isExempt change.holding = true
  · rw [if_pos exempt] at found ⊢
    cases found
    exact Step.ends_of_ok (Step.eval_count isOpen _) ⟨_, _, inv, rfl⟩
  · rw [if_neg exempt] at found ⊢
    rw [Step.ends_bind]
    unfold liveBalance
    rw [Step.ends_bind]
    obtain ⟨w, inv', asked⟩ := Step.eval_ask_balance (ε := ReconcileError) serves inv
      change.holding (if a.settings.lookup then some change.block else none)
    refine Step.ends_of_ok asked ?_
    -- The finding is read from the node's answer to the same question; without one there is none.
    split at found
    · next id live reply =>
      rw [reply]
      show Step.Ends (if id = change.block then pure (some live) else _) _ _ _
      cases found
      by_cases here : id = change.block
      · rw [if_pos here] at fine ⊢
        by_cases same : change.value.Same live
        · -- The only finding that is left is a success.
          rw [if_pos here, if_pos same]
          show Step.Ends (a.conclude .active change.holding change.block change.value live) _ _ _
          unfold conclude
          rw [if_pos same, Step.ends_bind]
          refine Step.ends_of_ok (Step.eval_onTracker _ _) ?_
          refine Step.ends_of_ok (a.eval_succeeded (by exact isOpen) _ _ _ _) ?_
          exact ⟨_, _, serves.tell _ _ inv', rfl⟩
        · rw [if_neg same] at fine
          exact absurd rfl fine
      · rw [if_neg here, if_neg here, skipped, Step.ends_bind]
        refine Step.ends_of_ok (Step.eval_count (by exact isOpen) _) ?_
        exact ⟨w, _, inv', rfl⟩
    · cases found

/-- Checks that do not fail raise their counters, however many may run at once. -/
theorem checkAll_exact (serves : a.node.Serves c I) (inv : I s.world)
    (isOpen : s.store.closed = false) {cs : List Change}
    (checked : cs.foldlM (a.check? c) s.store.ledger = some l) :
    (a.checkAll cs).Ends s (fun _ => Came I s l) (fun _ _ => False) := by
  -- What is kept is that no check failed, and the ledger that those so far come to.
  refine (checkAll_ends (J := fun done e t => e = none ∧ ∃ l',
    done.foldlM (a.check? c) s.store.ledger = some l' ∧ Came I s l' t) cs ?_
    ⟨rfl, _, rfl, _, _, inv, rfl⟩).mono ?_ ?_
  · rintro done change rest e t split ⟨rfl, l', before, came⟩
    rw [split, List.foldlM_append, before] at checked
    obtain ⟨l'', this, _⟩ := Option.bind_eq_some_iff.mp
      (show (a.check? c l' change).bind (rest.foldlM (a.check? c)) = some l from checked)
    obtain ⟨w, tracker, inv', rfl⟩ := id came
    refine (checkActive_exact serves (by exact inv') (by exact isOpen) (by exact this)).mono
      (fun _ u later => ?_) fun _ _ h => h.elim
    refine ⟨rfl, l'', ?_, came.trans later⟩
    rw [List.foldlM_append, before]
    show [change].foldlM (a.check? c) l' = _
    rw [List.foldlM_cons, this]
    rfl
  · rintro _ t ⟨_, l', all, came⟩
    rw [checked] at all
    cases all
    exact came
  · rintro _ t ⟨_, _, _, _, _, error, _⟩
    cases error

/-- What is done about a committed block takes its ledger through the checks. -/
theorem announceBlock_exact (serves : a.node.Serves c I) (inv : I s.world)
    (isOpen : s.store.closed = false)
    (checked : (a.forwarded batch).foldlM (a.check? c) s.store.ledger = some l) :
    (a.announceBlock a.observer b batch).Ends s (fun _ => Came I s l) (fun _ _ => False) := by
  rw [ends_announceBlock, observed_observer]
  have told := serves.tell _ (a.settings.log.changes batch.changes)
    (serves.tell _ (a.settings.log.block b) inv)
  unfold forwarded at checked
  by_cases enabled : a.settings.enabled = true
  · rw [if_pos enabled, ends_checkChanges]
    by_cases none : a.settings.active = 0 ∨ batch.changes.filter a.isObserved = []
    · rw [if_pos none]
      -- Nobody is told, or there is nothing to tell: both ways no check is made.
      have nothing : (if a.settings.enabled ∧ a.settings.active ≠ 0 then
          batch.changes.filter a.isObserved else []) = [] := by
        rcases none with off | nothing
        · exact if_neg fun on => on.2 off
        · rw [nothing, ite_self]
      rw [nothing] at checked
      cases checked
      exact ⟨_, _, told, rfl⟩
    · rw [if_neg none]
      rw [if_pos ⟨enabled, fun off => none (.inl off)⟩] at checked
      refine (checkAll_exact serves (by exact told) (by exact isOpen) (by exact checked)).mono ?_
        fun _ _ h => h
      rintro _ t ⟨w, tracker, inv', rfl⟩
      exact ⟨w, tracker, inv', rfl⟩
  · rw [if_neg enabled]
    rw [if_neg fun on => enabled on.1] at checked
    cases checked
    exact ⟨_, _, told, rfl⟩

/-- **Applying a block** commits its batch and takes the ledger through the checks. -/
theorem applyBlock_takes (serves : a.node.Serves c I) (inv : I s.world)
    (running : s.isOver = false) (isOpen : s.store.closed = false)
    (canWrite : s.store.canWrite = true) (found : c.blocks.find? index = some b)
    (next : ∀ head, s.store.ledger.head? = some head → Index.next? head.index = some b.id.index)
    (opens : a.settings.lookup = true → b.isGenesis = true ∨ c.Has b.parent)
    (taken : a.take? c s.store.ledger b = some l) :
    (a.applyBlock a.workers index).Ends s
      (fun _ t => ∃ batch, a.batch? c s.store.ledger b = some batch ∧
        Came I { s with store := (s.store.commit batch).2 } l t)
      (fun _ _ => False) := by
  obtain ⟨batch, staged, checked⟩ := take?_cases taken
  have block := batch?_block staged
  have next' : ∀ head, s.store.ledger.head? = some head →
      Index.next? head.index = some batch.block.index := by
    rw [block]
    exact next
  rw [applyBlock_eq, Step.ends_bind]
  refine (enterBlock_exact serves inv running isOpen canWrite found next opens staged).mono ?_
    fun _ _ h => h
  rintro _ _ ⟨rfl, w, inv', rfl⟩
  -- The checks start from what the commit made of the store.
  rw [← Store.commit_ledger isOpen next'] at checked
  refine (announceBlock_exact (b := b) serves (by exact inv')
    ((Store.commit_sameMode isOpen next').closed.trans isOpen) (by exact checked)).mono
    (fun _ t came => ⟨batch, staged, ?_⟩) fun _ _ h => h
  obtain ⟨w', tracker, inv'', rfl⟩ := came
  exact ⟨w', tracker, inv'', rfl⟩

end Auditor

end BalanceAudit
