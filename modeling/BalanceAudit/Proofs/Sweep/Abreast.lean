import BalanceAudit.Proofs.Index
import BalanceAudit.Proofs.Sweep.Claims
import BalanceAudit.Proofs.Tenure.Paces
import BalanceAudit.Proofs.Visits

/-!
# Checks do not run ahead of the chain

A sweep notes its checks at the head, and the changes of a block are checked after it was
committed. So whatever happens in a run, no holding is tracked as checked at an index that
the store has not reached. What it reaches has no gap, because each block is committed
right behind the head, so that no check is further behind the head than there are blocks.

- `Ledger.Attains`: a ledger has a block at an index or a greater one, without a gap;
  `Ledger.Attains.apply`, `Ledger.attains_apply_self`: what a commit makes of that;
  `Ledger.Attains.near`: how far such an index is behind the head.
- `Session.Reached`: so does the store of a run, unless the index comes from elsewhere;
  `Session.Far`: some index does, or there are more blocks than words from zero on.
- `Session.Abreast`: all checks were made at indices that were reached, and no sweep broke
  down unless a distance may be far.
- `Auditor.KeepsAbreast`: a part of a run after which it is still so.
- `Auditor.checkInactive_abreast`, `Auditor.checkChanges_abreast`: checks of both kinds.
- `Auditor.runPipeline_abreast`: **a whole run keeps it**, whatever observes the commits, as
  long as that does.
- `Session.Abreast.told`: then no distance to the head overflows, unless there are more
  blocks than words from zero on.
-/

namespace BalanceAudit

variable {σ ε α : Type}

/-! ## Blocks without a gap

Without a gap the number of blocks between an index and the head is the distance between
them. -/

namespace Ledger

variable {l : Ledger} {b : Batch} {i k : Int}

/-- From the index on no block is missing in front of another one. -/
def Unbroken (l : Ledger) (i : Int) : Prop :=
  ∀ j k, i ≤ j → j ≤ k → l.blocks.contains k = true → l.blocks.contains j = true

/-- A block that extends the head comes right behind all others. -/
theorem follows_of_extends
    (order : ∀ head, l.head? = some head → Index.next? head.index = some b.block.index)
    (stored : l.blocks.contains k = true) :
    ∃ head, l.head? = some head ∧ k ≤ head.index ∧ b.block.index = head.index + 1 := by
  obtain ⟨head, found⟩ := exists_head? stored
  have next := (Index.word?_eq_some_iff.mp (order head found)).2
  exact ⟨head, found, le_head found stored, next.symm⟩

/-- The ledger has a block at the index or a greater one, and none is missing from the
index on. -/
structure Attains (l : Ledger) (i : Int) : Prop where
  stored : ∃ k, l.blocks.contains k = true ∧ i ≤ k
  unbroken : l.Unbroken i

/-- The head is reached, and nothing lies behind it that might be missing. -/
theorem attains_head {head : BlockId} (found : l.head? = some head) : l.Attains head.index := by
  have stored := contains_of_head? found
  refine ⟨⟨_, stored, le_refl _⟩, fun j k ge le later => ?_⟩
  obtain rfl : j = head.index := le_antisymm (le.trans (le_head found later)) ge
  exact stored

/-- Only the blocks matter. -/
theorem Attains.of_blocks {l' : Ledger} (attains : l.Attains i) (same : l'.blocks = l.blocks) :
    l'.Attains i := by
  obtain ⟨stored, unbroken⟩ := attains
  unfold Unbroken at unbroken
  rw [← same] at stored unbroken
  exact ⟨stored, unbroken⟩

/-- A block that extends the head leaves no gap. -/
theorem Attains.apply (attains : l.Attains i)
    (order : ∀ head, l.head? = some head → Index.next? head.index = some b.block.index) :
    (l.apply b).Attains i := by
  obtain ⟨⟨old, here, le⟩, unbroken⟩ := attains
  refine ⟨⟨old, (contains_blocks_apply l b old).mpr (.inr here), le⟩, fun j k ge le stored => ?_⟩
  rw [contains_blocks_apply] at stored ⊢
  rcases stored with rfl | stored
  · obtain ⟨head, found, _, next⟩ := follows_of_extends order here
    -- The new block is the first one behind the head, so that below it nothing changes.
    by_cases same : j = b.block.index
    · exact .inl same
    · exact .inr (unbroken j _ ge (by omega) (contains_of_head? found))
  · exact .inr (unbroken j k ge le stored)

/-- It is reached then. -/
theorem attains_apply_self
    (order : ∀ head, l.head? = some head → Index.next? head.index = some b.block.index) :
    (l.apply b).Attains b.block.index := by
  refine ⟨⟨_, (contains_blocks_apply l b _).mpr (.inl rfl), le_refl _⟩, fun j k ge le stored => ?_⟩
  rw [contains_blocks_apply] at stored ⊢
  rcases stored with rfl | stored
  · exact .inl (le_antisymm le ge)
  · obtain ⟨_, _, behind, next⟩ := follows_of_extends order stored
    omega

/-- **None that was reached is as far behind the head as there are blocks.** -/
theorem Attains.near {head : BlockId} (attains : l.Attains i) (found : l.head? = some head) :
    i ≤ head.index ∧ head.index - i < l.blocks.entries.length := by
  obtain ⟨k, here, le⟩ := attains.stored
  have behind := le.trans (le_head found here)
  have stored : Index.upTo i (head.index + 1) ⊆ l.blocks.keys := by
    intro j mem
    obtain ⟨ge, lt⟩ := Index.mem_upTo.mp mem
    exact Table.contains_iff_mem_keys.mp <|
      attains.unbroken j head.index ge (by omega) (contains_of_head? found)
  -- So many indices are stored, each of them once.
  have short := (List.subperm_of_subset (Index.nodup_upTo _ _) stored).length_le
  rw [Index.length_upTo, Table.keys, List.length_map] at short
  exact ⟨behind, by omega⟩

end Ledger

namespace Session

/-- The store reaches the index, or it is one of the indices `q`, which come from
elsewhere. -/
def Reached (q : Int → Prop) (s : Session σ) (i : Int) : Prop :=
  q i ∨ s.store.ledger.Attains i

/-- An index may come from elsewhere, or there are more blocks than words from zero on. -/
def Far (q : Int → Prop) (s : Session σ) : Prop :=
  (∃ i, q i) ∨ Index.greatest + 1 < (s.store.ledger.blocks.entries.length : Int)

/-- Every check was made at an index that was reached. So were the indices of `p`, of
which a part of a run knows. -/
structure Abreast (q p : Int → Prop) (s : Session σ) : Prop where
  checked : ∀ h tracked last, s.tracker.find? h = some tracked →
    tracked.lastChecked = some last → s.Reached q last
  known : ∀ i, p i → s.Reached q i
  /-- A sweep broke down over a distance only where that may be. -/
  broke : s.sweepers.failure = some (Auditor.broken .distance) → s.Far q

/-- Nothing is tracked yet, and no sweep has failed. -/
structure Untried (s : Session σ) : Prop where
  tracker : s.tracker = ∅
  calm : s.sweepers.failure = none

/-- What is tracked, the blocks, and the error of the sweeps. -/
def grounds (s : Session σ) : Tracker × Table Int String × Option ReconcileError :=
  (s.tracker, s.store.ledger.blocks, s.sweepers.failure)

variable {s t : Session σ} {q p p' : Int → Prop} {i : Int}

/-- The store reaches its head. -/
theorem reached_head {head : BlockId} (found : s.store.ledger.head? = some head) :
    s.Reached q head.index := .inr (Ledger.attains_head found)

/-- Only the blocks matter. -/
theorem Reached.of_blocks (reached : s.Reached q i)
    (same : t.store.ledger.blocks = s.store.ledger.blocks) : t.Reached q i :=
  reached.imp_right fun attains => attains.of_blocks same

/-- So it is for what may be far. -/
theorem Far.of_blocks (far : s.Far q) (same : t.store.ledger.blocks = s.store.ledger.blocks) :
    t.Far q := by
  unfold Far
  rwa [same]

/-- No block goes. -/
theorem Far.commit (far : s.Far q) (b : Batch) :
    Session.Far q { s with store := (s.store.commit b).2 } := by
  refine far.imp_right fun many => ?_
  show Index.greatest + 1 < ((s.store.commit b).2.ledger.blocks.entries.length : Int)
  rcases Store.commit_cases s.store b with ⟨same, _⟩ | ⟨_, _, eq⟩
  · rwa [same]
  · have more : s.store.ledger.blocks.entries.length ≤
        (s.store.ledger.apply b).blocks.entries.length :=
      Table.length_le_of_contains fun k stored =>
        (Ledger.contains_blocks_apply _ b k).mpr (.inr stored)
    rw [eq, Store.committed_ledger]
    exact many.trans_le (Int.ofNat_le.mpr more)

/-- A commit reaches no less. -/
theorem Reached.commit (reached : s.Reached q i) (b : Batch) :
    Session.Reached q { s with store := (s.store.commit b).2 } i := by
  refine reached.imp_right fun attains => ?_
  show (s.store.commit b).2.ledger.Attains i
  rcases Store.commit_cases s.store b with ⟨same, _⟩ | ⟨_, order, eq⟩
  · rwa [same]
  · rw [eq, Store.committed_ledger]
    exact attains.apply order

/-- A commit that is accepted reaches the index of its block. -/
theorem reached_of_commit {b : Batch} (taken : (s.store.commit b).1 = .ok ()) :
    Session.Reached q { s with store := (s.store.commit b).2 } b.block.index := by
  obtain ⟨_, refused⟩ | ⟨_, order, eq⟩ := Store.commit_cases s.store b
  · exact absurd taken refused
  · refine .inr ?_
    show (s.store.commit b).2.ledger.Attains b.block.index
    rw [eq, Store.committed_ledger]
    exact Ledger.attains_apply_self order

namespace Abreast

/-- Nothing was checked before anything is tracked. -/
theorem start (untried : s.Untried) (known : ∀ i, p i → s.Reached q i) : s.Abreast q p := by
  refine ⟨fun h tracked last held _ => ?_, known, fun broke => ?_⟩
  · rw [untried.tracker] at held
    cases held
  · cases untried.calm.symm.trans broke

/-- Nothing else that happens in a session matters. -/
theorem of_grounds (abreast : s.Abreast q p) (same : t.grounds = s.grounds) :
    t.Abreast q p := by
  obtain ⟨tracker, rest⟩ := Prod.ext_iff.mp same
  obtain ⟨blocks, failure⟩ := Prod.ext_iff.mp rest
  refine ⟨fun h tracked last found checked => .of_blocks ?_ blocks,
    fun i known => .of_blocks ?_ blocks,
    fun broke => (abreast.broke (failure.symm.trans broke)).of_blocks blocks⟩
  · exact abreast.checked h tracked last ((congrArg (·.find? h) tracker).symm.trans found) checked
  · exact abreast.known i known

/-- Less may be claimed to be known. -/
theorem mono (abreast : s.Abreast q p') (sub : ∀ i, p i → p' i) : s.Abreast q p :=
  ⟨abreast.checked, fun i known => abreast.known i (sub i known), abreast.broke⟩

/-- One more index is known to be reached. -/
theorem learn (abreast : s.Abreast q p) (reached : s.Reached q i) :
    s.Abreast q fun j => p j ∨ j = i where
  checked := abreast.checked
  known j := by
    rintro (known | rfl)
    · exact abreast.known j known
    · exact reached
  broke := abreast.broke

/-- The tracker holds nothing but what it held, or checks at indices that were reached. -/
theorem of_tracker {tracker : Tracker} (abreast : s.Abreast q p)
    (each : ∀ h tracked last, tracker.find? h = some tracked → tracked.lastChecked = some last →
      s.Reached q last) : Session.Abreast q p { s with tracker } :=
  ⟨each, abreast.known, abreast.broke⟩

/-- The sweepers have no error but one that is known, or where a distance may be far. -/
theorem of_sweepers {w : Sweepers} (abreast : s.Abreast q p)
    (broke : w.failure = some (Auditor.broken .distance) → s.Far q) :
    Session.Abreast q p { s with sweepers := w } :=
  ⟨abreast.checked, abreast.known, broke⟩

/-- A holding that is new to the tracker was not checked yet. -/
theorem track (abreast : s.Abreast q p) (hs : List Holding) :
    Session.Abreast q p { s with tracker := s.tracker.track hs } := by
  refine abreast.of_tracker ?_
  rw [Tracker.track]
  have start := abreast.checked
  generalize s.tracker = tracker at start ⊢
  -- One holding after another is added to the tracker.
  induction hs generalizing tracker with
  | nil => exact start
  | cons h hs ih =>
    refine ih _ fun h' tracked last found checked => ?_
    rw [Tracker.add] at found
    split at found
    · exact start h' tracked last found checked
    · rw [Table.find?_insert] at found
      split at found
      · cases found
        cases checked
      · exact start h' tracked last found checked

/-- A check that finished was made at an index that was reached. -/
theorem finish (abreast : s.Abreast q p) (reached : p i) (h : Holding) (status : CheckStatus) :
    Session.Abreast q p { s with tracker := s.tracker.finish h i status } := by
  refine abreast.of_tracker fun h' tracked last found checked => ?_
  rw [Tracker.find?_finish] at found
  split at found
  · obtain ⟨before, held, rfl⟩ := Option.map_eq_some_iff.mp found
    cases checked
    cases earlier : before.lastChecked with
    | none => exact abreast.known i reached
    | some last =>
      -- The later one of both checks is noted.
      rcases max_choice last i with eq | eq
      all_goals
        dsimp only
        rw [eq]
      · exact abreast.checked h before last held earlier
      · exact abreast.known i reached
  · exact abreast.checked h' tracked last found checked

/-- A claim changes no more than where a check stands. -/
theorem claim {head frequency : Int} {h : Holding} {tracker : Tracker} (abreast : s.Abreast q p)
    (claims : s.tracker.claim? head frequency = some (some (h, tracker))) :
    Session.Abreast q p { s with tracker } := by
  -- Only the third case changes the tracker: a held one is marked, with its last check kept.
  rcases s.tracker.claim?_cases head frequency with ⟨-, far⟩ | ⟨-, -, nothing⟩ |
    ⟨-, h', tracked, held, -, claimed⟩
  · cases far.symm.trans claims
  · cases nothing.symm.trans claims
  · cases claimed.symm.trans claims
    refine abreast.of_tracker fun h' tracked' last found checked => ?_
    rw [Table.find?_insert] at found
    split at found
    · cases found
      exact abreast.checked _ tracked last held checked
    · exact abreast.checked h' tracked' last found checked

/-- More blocks reach no less. -/
theorem commit (abreast : s.Abreast q p) (b : Batch) :
    Session.Abreast q p { s with store := (s.store.commit b).2 } where
  checked h tracked last found checked := (abreast.checked h tracked last found checked).commit b
  known i known := (abreast.known i known).commit b
  broke failed := (abreast.broke failed).commit b

/-- **No distance to the head overflows** if there are no more blocks than words from zero
on: that is as far as a check can be behind. What comes from elsewhere may not be further
away. -/
theorem told {head : BlockId} (abreast : s.Abreast q p) (found : s.store.ledger.head? = some head)
    (near : ∀ i, q i → Index.InRange (head.index - i))
    (few : (s.store.ledger.blocks.entries.length : Int) ≤ Index.greatest + 1) :
    s.tracker.Told head.index := by
  intro h x held _ last checked
  -- The last check stands at an index from elsewhere, or at one that was reached.
  rcases abreast.checked h x last held checked with elsewhere | attains
  · exact near last elsewhere
  · obtain ⟨behind, close⟩ := attains.near found
    exact ⟨(by decide : Index.least ≤ 0).trans (by omega), by omega⟩

end Abreast

end Session

namespace Auditor

open Step (Leaves Along)

variable {a : Auditor σ} {q p : Int → Prop} {s : Session σ}

/-! ## Checks

A check notes the index that it was handed, which was the head at some time. -/

/-- After the part of a run checks are still abreast, however it ends. -/
abbrev KeepsAbreast (q p : Int → Prop) (x : Step (Session σ) ε α) : Prop :=
  Along (fun s t => s.Abreast q p → t.Abreast q p) x

/-- A part that leaves the grounds alone keeps checks abreast. -/
theorem abreast_of_leaves {x : Step (Session σ) ε α} (leaves : Leaves Session.grounds x) :
    KeepsAbreast q p x := fun s => .single fun abreast => abreast.of_grounds (leaves s)

/-- What holds at the start of the part holds at its end. -/
theorem KeepsAbreast.keeps {x : Step (Session σ) ε α} (keeps : KeepsAbreast q p x)
    (abreast : s.Abreast q p) : (x.eval s).2.Abreast q p :=
  Along.keeps keeps (fun _ _ step => step) abreast

/-- Counting leaves tracker, blocks and sweepers alone. -/
theorem count_leaves_grounds (f : StoreError → ε) (k : Counter) :
    Leaves Session.grounds (Step.count f k : Step (Session σ) ε Unit) := fun s => by
  cases closed : s.store.closed with
  | false => rw [Step.eval_count closed]; rfl
  | true => rw [Step.eval_count_of_closed closed]

/-- Asking for a balance tracks nothing. -/
theorem liveBalance_abreast (h : Holding) (block : BlockId) :
    KeepsAbreast q p (a.liveBalance h block) := by
  refine abreast_of_leaves ((Leaves.ask (fun _ _ => rfl) _).bind fun _ =>
    (Leaves.ofExcept _ _).bind fun r => ?_)
  dsimp only
  split
  · exact .pure _
  · exact (count_leaves_grounds _ _).bind fun _ => .pure _

/-- Noting a check at an index that is known to be reached. -/
theorem finish_abreast {i : Int} (reached : p i) (h : Holding) (status : CheckStatus) :
    KeepsAbreast q p (Step.onTracker (·.finish h i status) : Step (Session σ) ε Unit) :=
  .modify fun _ abreast => abreast.finish reached h status

/-- A comparison notes the check at the block it was made for. -/
theorem conclude_abreast {block : BlockId} (reached : p block.index) (kind : Kind) (h : Holding)
    (computed live : Decimal) : KeepsAbreast q p (a.conclude kind h block computed live) := by
  refine .ite (fun _ => (finish_abreast reached h _).bind fun _ => ?_)
    fun _ => (finish_abreast reached h _).bind fun _ => ?_
  -- Behind that it only tells and counts, be it right or wrong.
  · have told : Leaves Session.grounds
        (Step.tell (a.settings.log.reconciled kind h block.index live) :
          Step (Session σ) ReconcileError Unit) := fun _ => rfl
    exact abreast_of_leaves (told.bind fun _ => count_leaves_grounds _ _)
  · refine abreast_of_leaves fun s => ?_
    cases closed : s.store.closed with
    | false => rw [a.eval_failed closed]; rfl
    | true => rw [failed, Step.eval_bind, Step.eval_count_of_closed closed]

/-- The check of a change is noted at the block of the change. -/
theorem checkActive_abreast {c : Change} (reached : p c.block.index) :
    KeepsAbreast q p (a.checkActive c) := by
  refine .ite (fun _ => abreast_of_leaves (count_leaves_grounds _ _)) fun _ =>
    (liveBalance_abreast _ _).bind fun live => ?_
  cases live
  · exact .pure _
  · exact conclude_abreast reached _ _ _ _

/-- A sweep checks at the head, or at that of its claim. -/
theorem checkInactive_abreast {claimedAt : Int} (reached : p claimedAt) (h : Holding) :
    KeepsAbreast q p (a.checkInactive h claimedAt) := by
  refine .ite (fun _ => (finish_abreast reached h _).bind fun _ =>
    abreast_of_leaves (count_leaves_grounds _ _)) fun _ s => .single fun abreast => ?_
  cases closed : s.store.closed with
  | true =>
    rw [Step.eval_bind, Step.eval_read, Store.read, if_pos closed]
    exact abreast
  | false =>
    rw [Step.eval_bind, Step.eval_read_of_open closed]
    dsimp only
    split
    · exact (finish_abreast reached h _).keeps abreast
    · next r head snapshot =>
      have found : s.store.ledger.head? = some head := by
        simp only [Ledger.snapshot?, Option.bind_eq_bind, Option.bind_eq_some_iff] at snapshot
        obtain ⟨_, found, _, _, eq⟩ := snapshot
        cases eq
        exact found
      -- From here on the index of the head is known.
      have learned := abreast.learn (Session.reached_head found)
      refine (KeepsAbreast.keeps ((liveBalance_abreast _ _).bind fun live => ?_) learned).mono
        fun _ => .inl
      cases live
      · exact finish_abreast (.inr rfl) _ _
      · exact conclude_abreast (.inr rfl) _ _ _ _

/-- Checks in a row, each for a change of a block that was reached. -/
theorem runChecks_abreast {cs : List Change} (reached : ∀ c ∈ cs, p c.block.index) (t : Tally) :
    KeepsAbreast q p (a.runChecks cs t) := by
  induction cs generalizing t with
  | nil => exact .pure _
  | cons c cs ih =>
    rw [List.forall_mem_cons] at reached
    refine (checkActive_abreast reached.1).attempt.bind fun result => ?_
    split <;> exact ih reached.2 _

/-- Started checks are run, and what is left in the queue came from the changes. -/
theorem startChecks_abreast (cs queue : List Change) (reached : ∀ c ∈ cs, p c.block.index)
    (queued : ∀ c ∈ queue, p c.block.index) (free : Nat) (t : Tally) :
    KeepsAbreast q p (a.startChecks cs queue free t) ∧
      ∀ s, (a.startChecks cs queue free t).Ends s (fun r _ => ∀ c ∈ r.1, p c.block.index)
        (fun _ _ => True) := by
  induction cs generalizing queue free t with
  | nil => exact ⟨.pure _, fun _ => queued⟩
  | cons c cs ih =>
    rw [List.forall_mem_cons] at reached
    -- A full queue is run before the next change is let in.
    cases free with
    | succ free =>
      exact ih _ reached.2 (List.forall_mem_append.mpr ⟨queued, by simpa using reached.1⟩) free t
    | zero =>
      have next := ih [c] reached.2 (by simpa using reached.1)
      constructor
      · refine (runChecks_abreast queued t).bind fun t => ?_
        split
        · exact .idle
        · exact (next _ t).1
      · intro s
        unfold startChecks
        rw [Step.ends_bind]
        refine (Step.Ends.any _ s).mono (fun t u _ => ?_) fun _ _ _ => trivial
        split
        · trivial
        · exact (next _ t).2 u

/-- The end of a tally tracks nothing. -/
theorem settle_abreast (t : Tally) :
    KeepsAbreast q p (settle t : Step (Session σ) ReconcileError Unit) := by
  unfold settle
  split
  · exact .fail _
  · exact .pure _

/-- The changes of a block are checked at its index. -/
theorem checkChanges_abreast {cs : List Change} (reached : ∀ c ∈ cs, p c.block.index) :
    KeepsAbreast q p (a.checkChanges cs) := by
  refine .bind (.modify fun _ abreast => abreast.track _) fun _ =>
    .ite (fun _ => .pure _) fun _ => ?_
  have starts := startChecks_abreast (a := a) (q := q) cs [] reached nofun a.permits {}
  refine starts.1.bind_of_ends starts.2 fun r queued => (settle_abreast _).bind fun _ => ?_
  exact (runChecks_abreast queued _).bind fun _ => (settle_abreast _).bind fun _ =>
    .ite (fun _ => .idle) fun _ => .pure _

/-! ## Sweeps and waiting

A sweep hands on the head at its claim, and breaks down only where that claim overflows. -/

/-- A sweep claims at the head, which is reached, and checks there. -/
theorem sweep_abreast (fuel : Nat) : KeepsAbreast q p (a.sweep fuel) := by
  induction fuel generalizing p with
  | zero => exact .pure _
  | succ fuel ih =>
    refine Along.get.bind fun _ => .ite (fun _ => .pure _) fun _ s => .single fun abreast => ?_
    rw [Step.eval_bind]
    -- A closed or empty store has no claim to give, and nothing is noted.
    by_cases closed : s.store.closed = true
    · rw [eval_claim_of_closed closed]
      exact abreast
    have isOpen := Bool.eq_false_iff.mpr closed
    cases found : s.store.ledger.head? with
    | none =>
      rw [eval_claim_of_none isOpen found]
      exact abreast
    | some head =>
      rw [eval_claim isOpen found]
      rcases claims : s.tracker.claim? head.index a.settings.inactiveFrequency with
        _ | _ | claimed
      · exact abreast
      · exact abreast
      · -- The check of the claimed holding knows of the head.
        have known : KeepsAbreast q (fun j => p j ∨ j = head.index)
            (a.checkInactive claimed.1 head.index >>= fun _ => a.sweep fuel) :=
          (checkInactive_abreast (.inr rfl) _).bind fun _ => ih
        refine (known.keeps ?_).mono fun _ => .inl
        exact (abreast.claim claims).learn (Session.reached_head found)

/-- A sweep breaks down only over a distance that may be far. The induction is on the
holdings that it may still claim. -/
theorem sweep_breaks (fuel : Nat) (abreast : s.Abreast q p) :
    (a.sweep fuel).Ends s (fun _ _ => True) (fun stop t => Intact stop ∨
      stop = .overflow .distance ∧ t.Far q) := by
  induction fuel generalizing s p with
  | zero => trivial
  | succ fuel ih =>
    unfold sweep
    rw [Step.ends_bind, Step.ends_get]
    split
    · trivial
    rw [Step.ends_bind]
    unfold Step.Ends
    by_cases closed : s.store.closed = true
    · rw [eval_claim_of_closed closed]
      exact .inl (intact_store _)
    have isOpen := Bool.eq_false_iff.mpr closed
    cases found : s.store.ledger.head? with
    | none =>
      rw [eval_claim_of_none isOpen found]
      trivial
    | some head =>
      rw [eval_claim isOpen found]
      rcases claims : s.tracker.claim? head.index a.settings.inactiveFrequency with
        _ | _ | claimed
      · refine .inr ⟨rfl, ?_⟩
        -- A claim overflows over a distance that is no word, and `told` excludes these unless
        -- some may be far.
        by_contra near
        obtain ⟨inside, few⟩ := not_or.mp near
        refine Tracker.claim?_eq_none_iff.mp claims (abreast.told found ?_ (not_lt.mp few))
        exact fun i elsewhere => absurd ⟨i, elsewhere⟩ inside
      · trivial
      · have later := (abreast.claim claims).learn (Session.reached_head found)
        have checks := (checkInactive_abreast (a := a) (q := q) (p := fun j => p j ∨ j = head.index)
          (.inr rfl) claimed.1).ends (P := fun t => t.Abreast q fun j => p j ∨ j = head.index)
          (fun _ _ step => step) later
        show Step.Ends (a.checkInactive claimed.1 head.index >>= fun _ => a.sweep fuel) _ _ _
        rw [Step.ends_bind]
        refine (checks.and (a.checkInactive_intact claimed.1 head.index _)).mono ?_ ?_
        · exact fun _ t h => ih h.1
        · exact fun _ _ h => .inl h.2

/-- A round of sweeps notes no error but such a one. -/
theorem sweepRound_abreast (n : Nat) (abreast : s.Abreast q p) {w : Sweepers}
    (broke : w.failure = some (broken .distance) → s.Far q) :
    (a.sweepRound n w : Step (Session σ) ε Sweepers).Ends s
      (fun w t => t.Abreast q p ∧ (w.failure = some (broken .distance) → t.Far q))
      (fun _ _ => False) := by
  induction n generalizing s w with
  | zero => exact ⟨abreast, broke⟩
  | succ n ih =>
    unfold sweepRound
    rw [Step.ends_bind, Step.ends_attempt]
    have moves : a.Moves .checks (a.sweepDue : Step (Session σ) _ _) :=
      Along.get.bind fun _ => a.sweep_moves trivial _
    have kept : KeepsAbreast q p (a.sweepDue : Step (Session σ) _ _) :=
      Along.get.bind fun _ => sweep_abreast _
    have breaks : a.sweepDue.Ends s (fun _ _ => True) (fun stop t => Intact stop ∨
        stop = .overflow .distance ∧ t.Far q) := by
      unfold sweepDue
      rw [Step.ends_bind, Step.ends_get]
      exact sweep_breaks _ abreast
    have same : Leaves Session.books (a.sweepDue : Step (Session σ) _ _) := leaves_of_moves moves id
    have blocks : ∀ {t : Session σ}, t.books = s.books → s.Far q → t.Far q := fun eq far =>
      far.of_blocks (congrArg Prod.fst eq)
    refine ((kept.ends (P := fun t => t.Abreast q p) (fun _ _ step => step) abreast).and
      (breaks.and (same.ends s))).mono ?_ ?_
    · exact fun _ t h => ih h.1 fun failed => blocks h.2.2 (broke failed)
    · rintro stop t ⟨abreast, why, eq⟩
      -- The first error is kept.
      have noted : ∀ e, (e = broken .distance → t.Far q) →
          (w.failure <|> some e) = some (broken .distance) → t.Far q := by
        intro e far first
        cases failed : w.failure with
        | none =>
          rw [failed] at first
          exact far (Option.some.inj first)
        | some e' =>
          rw [failed] at first
          exact blocks eq (broke (failed.trans first))
      cases stop with
      | failed e =>
        refine ih abreast (noted e fun same => ?_)
        obtain intact | ⟨impossible, _⟩ := why
        · exact absurd same (intact _)
        · cases impossible
      | overflow what =>
        obtain intact | ⟨same, far⟩ := why
        · exact intact.elim
        · exact ih abreast (noted _ fun _ => far)
      | idle => exact ih abreast fun failed => blocks eq (broke failed)

/-- Sweeps that are woken keep checks abreast. -/
theorem wake_abreast : KeepsAbreast q p (a.wake : Step (Session σ) ε Unit) := fun s =>
  .single fun abreast => by
    obtain ⟨w, t, swept, later, broke⟩ := (sweepRound_abreast (a := a) (ε := ε)
      s.sweepers.asleep abreast (w := { s.sweepers with asleep := 0 }) abreast.broke).exists_ok
    unfold wake
    rw [Step.eval_bind, Step.eval_get]
    dsimp only
    rw [Step.eval_bind, swept]
    exact later.of_sweepers broke

/-- What happens to the world tracks nothing. -/
theorem onWorld_abreast (f : World σ → World σ) :
    KeepsAbreast q p (Step.onWorld f : Step (Session σ) ε Unit) := abreast_of_leaves fun _ => rfl

/-- Waiting is time that passes, with sweeps in between. -/
theorem waitUntil_abreast (target fuel : Nat) :
    KeepsAbreast q p (a.waitUntil target fuel : Step (Session σ) ε Unit) := by
  induction fuel with
  | zero => exact .pure _
  | succ fuel ih =>
    refine Along.get.bind fun _ => .ite (fun _ => .pure _) fun _ => .ite (fun _ => ?_)
      fun _ => onWorld_abreast _
    exact (onWorld_abreast _).bind fun _ => wake_abreast.bind fun _ => ih

/-- Waiting for a while is waiting until then. -/
theorem wait_abreast (ms : Nat) : KeepsAbreast q p (a.wait ms : Step (Session σ) ε Unit) :=
  Along.get.bind fun _ => waitUntil_abreast _ _

/-- The end of the run is waited for in the same way. -/
theorem awaitEnd_abreast : KeepsAbreast q p (a.awaitEnd : Step (Session σ) ε Unit) :=
  Along.get.bind fun _ => .ite (fun _ => .pure _) fun _ => (wait_abreast _).bind fun _ =>
    Along.get.bind fun _ => .ite (fun _ => onWorld_abreast _) fun _ => .pure _

/-- Looking whether the run is over tracks nothing. -/
theorem proceed_abreast : KeepsAbreast q p (proceed : Step (Session σ) ε Unit) :=
  Along.get.bind fun _ => .ite (fun _ => .idle) fun _ => .pure _

/-- A pause waits for a while or for the end. -/
theorem pause_abreast (ms : Nat) : KeepsAbreast q p (a.pause ms : Step (Session σ) ε Unit) :=
  Along.get.bind fun _ => .ite (fun _ => awaitEnd_abreast.bind fun _ => .idle)
    fun _ => (wait_abreast _).bind fun _ => proceed_abreast

/-- What is known is tracked as not checked yet. -/
theorem trackKnown_abreast : KeepsAbreast q p (a.trackKnown : Step (Session σ) _ _) :=
  (abreast_of_leaves (.read _)).bind fun _ => .modify fun _ abreast => abreast.track _

/-- A first round of sweeps, behind that. -/
theorem startReconciler_abreast : KeepsAbreast q p (a.startReconciler : Step (Session σ) _ _) :=
  trackKnown_abreast.bind fun _ => .bind (.modify fun _ abreast => abreast.of_sweepers nofun)
    fun _ => wake_abreast

/-! ## Following the chain

Commits are the only steps that move the head, always to the next index. -/

/-- A fetch tracks nothing itself, but its pauses let sweeps come by. -/
theorem fetchFrom_abreast (index : Int) (fuel attempts : Nat) :
    KeepsAbreast q p (a.fetchFrom index fuel attempts) := by
  induction fuel generalizing attempts with
  | zero => exact .idle
  | succ fuel ih =>
    refine proceed_abreast.bind fun _ => (abreast_of_leaves (.ask (fun _ _ => rfl) _)).bind
      fun reply => ?_
    split
    · exact .pure _
    · exact (pause_abreast _).bind fun _ => ih _
    · exact .ite (fun _ => (pause_abreast _).bind fun _ => ih _) fun _ => .fail _
    · exact .fail _

/-- What observes the commits keeps checks abreast of the chain, if it is told of changes of
a block that was reached. -/
def Attentive (a : Auditor σ) (q p : Int → Prop) (observer : Option (Observer σ)) : Prop :=
  ∀ b cs (p' : Int → Prop), (∀ i, p i → p' i) → (∀ c ∈ cs, p' c.block.index) →
    KeepsAbreast q p' (a.observed observer b cs)

/-- A group of workers that comes by keeps them abreast. -/
theorem visit_abreast (n : Nat) : KeepsAbreast q p (a.visit n : Step (Session σ) ε Unit) := fun s =>
  .single fun abreast => by
    obtain ⟨w, t, swept, later, broke⟩ := (sweepRound_abreast (a := a) (ε := ε)
      (min n s.sweepers.asleep) abreast (w := { s.sweepers with
        asleep := s.sweepers.asleep - min n s.sweepers.asleep }) abreast.broke).exists_ok
    unfold visit
    rw [Step.eval_bind, Step.eval_get]
    dsimp only
    rw [Step.eval_bind, swept]
    dsimp only
    rw [Step.eval_bind, Step.eval_modify]
    dsimp only
    split
    · exact later.of_sweepers broke
    · exact later.of_sweepers broke

/-- Groups of workers that come by one after another. -/
theorem visits_abreast (ns : List Nat) :
    KeepsAbreast q p (a.visits ns : Step (Session σ) ε Unit) := by
  induction ns with
  | nil => exact .pure _
  | cons n ns ih => exact (visit_abreast n).bind fun _ => ih

/-- So do the checks of the changes, with the visits of any plan. -/
theorem attentive_visited (plan : Block → Plan) : a.Attentive q p (a.visited plan) := by
  intro b cs p' _ reached
  rw [observed_visited_eq]
  refine .ite (fun _ => (visits_abreast _).bind fun _ => ?_) fun _ => .pure _
  refine (checkChanges_abreast fun c mem => ?_).bind fun _ => visits_abreast _
  exact reached c (List.mem_of_mem_filter mem)

/-- The checks alone are attentive too. -/
theorem attentive_observer : a.Attentive q p a.observer :=
  visited_nobody a ▸ attentive_visited _

section Observed

variable {observer : Option (Observer σ)} (attentive : a.Attentive q p observer)

include attentive

/-- A block is announced when it is in the store. -/
theorem applyBlock_abreast (index : Int) :
    KeepsAbreast q p (a.applyBlock [a.balanceWorker observer] index) := by
  rw [applyBlock_eq, enterBlock_eq, bind_assoc]
  have fetches : KeepsAbreast q p (a.fetchBlock index) :=
    Along.get.bind fun _ => fetchFrom_abreast _ _ _
  refine fetches.bind fun b s => .single fun abreast => ?_
  have stays := stageBalances_outer Session.grounds (fun _ _ => rfl) a b (Batch.ofBlock b) s
  have changing := a.stageBalances_fresh b s
  rw [Step.eval_bind, commitBlock, Step.eval_bind, Step.eval_mapError]
  rcases staged : (a.stageBalances b (Batch.ofBlock b)).eval s with ⟨stop | batch, u⟩
  · rw [staged] at stays
    exact abreast.of_grounds stays
  · rw [staged] at stays
    obtain ⟨cs, rfl, -, reported⟩ := changing.of_ok staged
    have committed := (abreast.of_grounds stays).commit (Batch.changing b cs)
    dsimp only [Except.mapError] at stays ⊢
    rw [Step.eval_bind, Step.eval_commit]
    cases taken : (u.store.commit (Batch.changing b cs)).1 with
    | error e => exact committed
    | ok =>
      -- The batch was accepted, so that its block is in the store.
      have reached := Session.reached_of_commit (q := q) taken
      rw [Batch.changing_block] at reached
      have announces : KeepsAbreast q (fun j => p j ∨ j = b.id.index)
          (a.announceBlock observer b (Batch.changing b cs)) := by
        refine .bind (abreast_of_leaves fun _ => rfl) fun _ => .mapError _ <|
          .bind (abreast_of_leaves fun _ => rfl) fun _ => .mapError _ ?_
        refine attentive b _ _ (fun _ => .inl) fun c mem => ?_
        rw [Batch.changing_changes] at mem
        exact .inr (congrArg BlockId.index (reported c mem).2)
      exact (announces.keeps (committed.learn reached)).mono fun _ => .inl

/-- The induction is on the blocks that may still come. -/
theorem syncFrom_abreast (last : Option Int) (fuel : Nat) (next : Int) :
    KeepsAbreast q p (a.syncFrom [a.balanceWorker observer] last fuel next) := by
  induction fuel generalizing next with
  | zero => exact .idle
  | succ fuel ih =>
    refine .ite (fun _ => abreast_of_leaves fun _ => rfl) fun _ => ?_
    refine (applyBlock_abreast attentive next).attempt.bind fun result => ?_
    split
    · exact (Along.within _ _).bind fun _ => ih _
    · exact awaitEnd_abreast.bind fun _ => Along.get.bind fun _ =>
        .ite (fun _ => .fail _) fun _ => .idle
    · exact .throw _

omit attentive in
/-- Raising the error of a sweep tracks nothing. -/
theorem sweepFailure_abreast :
    KeepsAbreast q p (sweepFailure : Step (Session σ) PipelineError Unit) := by
  refine Along.get.bind fun s => ?_
  split
  · exact .fail _
  · exact .pure _

/-- Following the chain keeps checks abreast, whatever ends it. -/
theorem follow_abreast (first : Int) (last : Option Int) :
    KeepsAbreast q p (a.follow first last observer) := by
  have synced : KeepsAbreast q p (a.sync [a.balanceWorker observer] first last) :=
    syncFrom_abreast attentive _ _ _
  refine .bind (synced.mapError _).attempt fun result => ?_
  split
  · exact sweepFailure_abreast.bind fun _ => .idle
  · exact .throw _
  · exact .pure _

/-- **A whole run keeps checks abreast of the chain**, whatever comes in between. -/
theorem runPipeline_abreast (first : Int) (last : Option Int) :
    KeepsAbreast q p (a.runPipeline first last observer) := by
  have follow := follow_abreast attentive first last
  have both : KeepsAbreast q p (a.runBoth first last observer) := by
    refine .ite (fun _ => follow.bind fun _ => .ite (fun _ => ?_) fun _ => .pure _) fun _ =>
      Along.get.bind fun _ => .ite (fun _ => .fail _) fun _ => .ite (fun _ => ?_) fun _ => follow
    · exact trackKnown_abreast.mapError _
    · exact .bind (startReconciler_abreast.mapError _) fun _ =>
        sweepFailure_abreast.bind fun _ => follow
  refine .bind both.attempt fun result => .bind (onWorld_abreast _) fun _ => ?_
  cases result
  · exact .throw _
  · exact .pure _

end Observed

/-- All checks of a run that started without any were made at indices that its store
reached, whoever came by. -/
theorem abreast_of_visited (a : Auditor σ) (plan : Block → Plan) (first : Int)
    (last : Option Int) {s t : Session σ} (untried : s.Untried)
    (ran : ((a.runPipeline first last (a.visited plan)).eval s).2 = t) :
    t.Abreast (fun _ => False) fun _ => False := by
  have keeps : KeepsAbreast (fun _ => False) (fun _ => False)
      (a.runPipeline first last (a.visited plan)) :=
    runPipeline_abreast (attentive_visited plan) first last
  rw [← ran]
  exact keeps.keeps (.start untried fun _ => False.elim)

/-- So they were if nobody did. -/
theorem abreast_of_untried (a : Auditor σ) (first : Int) (last : Option Int) {s t : Session σ}
    (untried : s.Untried) (ran : ((a.runPipeline first last).eval s).2 = t) :
    t.Abreast (fun _ => False) fun _ => False :=
  abreast_of_visited a (fun _ => {}) first last untried (by rwa [visited_nobody])

end Auditor

end BalanceAudit
