import BalanceAudit.Proofs.Sync

/-!
# Following a range until a block is at fault

With checks of every block and the first failure ending the run, following a
range of a chain stops at the first faulty block of the range.

- `Settings.Watchful`: the settings for that; `Auditor.Watches`: the holdings.
- `Auditor.Following`: the blocks before an index were followed without fault.
- `Auditor.Blames`: the run stopped at a faulty block, the first one.
- `Auditor.Following.step`: one block; `Auditor.Following.syncFrom_ends`: all of
  a range.
-/

namespace BalanceAudit

variable {σ : Type}

/-- Every change is checked against past balances, nothing is swept, and the
first failure ends the run. -/
structure Settings.Watchful (s : Settings) : Prop where
  enabled : s.enabled = true
  active : s.active ≠ 0
  inactive : s.inactive = 0
  checks : ∀ h, s.isExempt h = false
  lookup : s.lookup = true
  halt : s.halt = true

/-- A run that is about to start on an empty store. -/
structure Session.Fresh (s : Session σ) : Prop where
  ledger : s.store.ledger = {}
  isOpen : s.store.closed = false
  canWrite : s.store.canWrite = true
  recorder : s.recorder = {}
  calm : s.sweepers.failure = none
  asleep : s.sweepers.asleep = 0
  running : s.world.isCanceled = false

namespace Auditor

/-- The holdings whose changes are checked. -/
def Watches (a : Auditor σ) (h : Holding) : Prop := a.settings.restrictTo.all (· = h) = true

variable {a : Auditor σ} {c : Chain} {first last next : Int} {s t : Session σ}

/-- The blocks from `first` up to the one before `next` were followed, and none
is at fault. -/
structure Following (a : Auditor σ) (c : Chain) (first : Int) (s : Session σ) (next : Int)
    (t : Session σ) : Prop where
  run : s.world.SameRun t.world
  balances : ∀ h, (t.store.ledger.balances.find? h).map (·.value.toRat) =
    c.computed? h (c.segment first (next - 1))
  head : ∀ id, t.store.ledger.head? = some id → first < next ∧ id.index = next - 1
  clean : c.Faultless a.Watches first (next - 1)
  checked : t.counted .activeReconciliations ≠ 0 ↔
    ∃ b ∈ c.segment first (next - 1), ∃ h, a.Watches h ∧ b.reports h = true
  swept : t.counted .inactiveReconciliations = s.counted .inactiveReconciliations
  mode : s.store.SameMode t.store
  recorder : t.recorder = s.recorder
  sweepers : t.sweepers = s.sweepers
  shutdown : t.shutdown = s.shutdown

/-- The run stopped at `b`, the first block at fault, which is the head and which
the recorder blames. -/
structure Blames (a : Auditor σ) (c : Chain) (first last : Int) (s : Session σ) (b : Block)
    (f : Failure) (t : Session σ) : Prop where
  run : s.world.SameRun t.world
  fault : c.FirstFaulty a.Watches first last b
  head : t.store.ledger.head? = some b.id
  block : f.block = b.id
  kind : f.kind = .active
  recorder : t.recorder = { s.recorder with active := some f }
  mode : s.store.SameMode t.store
  sweepers : t.sweepers = s.sweepers

theorem Following.start (fresh : s.Fresh) : Following a c first s first s := by
  have nothing : c.segment first (first - 1) = [] := Chain.segment_of_lt (by omega)
  have zero : s.counted .activeReconciliations = 0 := by
    unfold Session.counted
    rw [fresh.ledger]
    rfl
  refine ⟨.refl _, fun h => ?_, fun id head => ?_, fun b mem => ?_, ?_, rfl, .refl _, rfl, rfl, rfl⟩
  · rw [fresh.ledger, nothing]
    rfl
  · rw [fresh.ledger] at head
    cases head
  · rw [nothing] at mem
    cases mem
  · rw [zero, nothing]
    simp

/-! ## One block

The step of the induction: the next block agrees, and the run follows on, or it is at fault,
and the run ends with it blamed. -/

section Step

variable {b : Block}

/-- On top of the balances so far, every net change of the next block has an
exact sum, which is the balance computed with that block. -/
theorem Following.sums (lookup : a.settings.lookup = true)
    (exact_ : c.ExactSums first last) (following : Following a c first s next t)
    (ge : first ≤ next) (le : next ≤ last) (found : c.blocks.find? next = some b)
    {ds : List (Holding × Decimal)} (deltas : b.deltas? = some ds)
    (nets : ∀ h d, (h, d) ∈ ds → d.toRat = b.net h) :
    ∀ h d, (h, d) ∈ ds → ∃ v, (a.prior c t.store.ledger b h).add? d = some v ∧
      c.computed? h (c.segment first next) = some v.toRat := by
  intro h d mem
  have reports : b.reports h = true :=
    (Block.mem_keys_deltas? deltas h).mp (List.mem_map.mpr ⟨_, mem, rfl⟩)
  -- What the ledger holds of h is what the segment before this block adds up to, or the balance
  -- it opens with.
  have prior : (a.prior c t.store.ledger b h).toRat =
      (c.computed? h (c.segment first (next - 1))).getD (c.opening b h).toRat := by
    rw [← following.balances h, Auditor.prior]
    cases t.store.ledger.balances.find? h with
    | some r => rfl
    | none =>
      show (if a.settings.lookup = true then c.opening b h else .zero).toRat = _
      rw [if_pos lookup]
      rfl
  have computed : c.computed? h (c.segment first next) =
      some ((a.prior c t.store.ledger b h).toRat + d.toRat) := by
    rw [Chain.segment_concat ge found, Chain.computed?_concat, if_pos reports, prior, nets h d mem]
  obtain ⟨v, sum, value⟩ := Decimal.add?_exact (exact_.running next h _ ge le computed)
  refine ⟨v, sum, ?_⟩
  rw [computed, value]

/-- The balances after the next block. -/
theorem Following.balances_took {I : World σ → Prop} {cs : List Change} {u : Session σ}
    (following : Following a c first s next t) (ge : first ≤ next)
    (found : c.blocks.find? next = some b)
    (staged : b.Staged (fun h v => c.computed? h (c.segment first next) = some v.toRat) cs)
    (took : Session.Took I b cs t u) (h : Holding) :
    (u.store.ledger.balances.find? h).map (·.value.toRat) =
      c.computed? h (c.segment first next) := by
  by_cases reports : b.reports h = true
  · obtain ⟨v, value, computed⟩ := took.value? staged reports
    have mapped := congrArg (Option.map Decimal.toRat) value
    rw [Option.map_map] at mapped
    rw [computed]
    exact mapped
  · rw [took.find?_of_not_reports staged reports, following.balances h,
      Chain.segment_concat ge found, Chain.computed?_concat, if_neg reports]

/-- The block is at fault iff one of its checked changes disagrees with the node. -/
theorem faulty_iff_differs {cs : List Change} (index : b.id.index = next)
    (staged : b.Staged (fun h v => c.computed? h (c.segment first next) = some v.toRat) cs) :
    c.Faulty a.Watches first b ↔ ∃ change ∈ cs.filter a.isObserved, ¬c.Agrees change := by
  have agrees_iff : ∀ change ∈ cs, c.Agrees change ↔
      c.computed? change.holding (c.segment first next) =
        some (c.balanceAt change.holding next).toRat := by
    intro change mem
    rw [Chain.Agrees, Decimal.same_iff, staged.block change mem, index, staged.value change mem,
      Option.some.injEq]
  constructor
  · rintro ⟨h, watched, reports, differs⟩
    obtain ⟨change, mem, rfl⟩ := List.mem_map.mp ((staged.mem_iff h).mpr reports)
    refine ⟨change, List.mem_filter.mpr ⟨mem, watched⟩, fun agrees => differs ?_⟩
    rw [index]
    exact (agrees_iff change mem).mp agrees
  · rintro ⟨change, mem, differs⟩
    obtain ⟨mem, watched⟩ := List.mem_filter.mp mem
    refine ⟨change.holding, watched, ?_, fun same => differs ?_⟩
    · exact (staged.mem_iff _).mp (List.mem_map.mpr ⟨change, mem, rfl⟩)
    · rw [index] at same
      exact (agrees_iff change mem).mpr same

/-- Something is checked in the next block iff it names a watched holding. -/
theorem watched_iff {V : Holding → Decimal → Prop} {cs : List Change} (staged : b.Staged V cs)
    {bs : List Block} :
    (∃ b' ∈ bs, ∃ h, a.Watches h ∧ b'.reports h = true) ∨ cs.filter a.isObserved ≠ [] ↔
      ∃ b' ∈ bs ++ [b], ∃ h, a.Watches h ∧ b'.reports h = true := by
  constructor
  · rintro (⟨b', mem, watched⟩ | some)
    · exact ⟨b', List.mem_append_left _ mem, watched⟩
    · obtain ⟨change, mem⟩ := List.exists_mem_of_ne_nil _ some
      obtain ⟨mem, watched⟩ := List.mem_filter.mp mem
      refine ⟨b, by simp, change.holding, watched, ?_⟩
      exact (staged.mem_iff _).mp (List.mem_map.mpr ⟨change, mem, rfl⟩)
  · rintro ⟨b', mem, h, watched, reports⟩
    rcases List.mem_append.mp mem with mem | mem
    · exact .inl ⟨b', mem, h, watched, reports⟩
    · rw [List.mem_singleton.mp mem] at reports
      obtain ⟨change, mem, rfl⟩ := List.mem_map.mp ((staged.mem_iff h).mpr reports)
      exact .inr (List.ne_nil_of_mem (List.mem_filter.mpr ⟨mem, watched⟩))

section Taken

variable {cs : List Change} {u v : Session σ}

/-- The next block becomes the head. -/
theorem Following.head_took (following : Following a c first s next t) (index : b.id.index = next)
    (took : Session.Took s.world.SameRun b cs t u) : u.store.ledger.head? = some b.id :=
  took.head? fun head eq => by
    obtain ⟨_, before⟩ := following.head head eq
    omega

/-- Behind a block whose checked changes agree the run goes on. -/
theorem Following.ahead (following : Following a c first s next t) (ge : first ≤ next)
    (found : c.blocks.find? next = some b) (index : b.id.index = next)
    (staged : b.Staged (fun h v => c.computed? h (c.segment first next) = some v.toRat) cs)
    (took : Session.Took s.world.SameRun b cs t u)
    (agree : ∀ change ∈ cs.filter a.isObserved, c.Agrees change)
    (checked : Session.Checked s.world.SameRun [.activeReconciliations] u v)
    (counted : v.counted .activeReconciliations ≠ 0 ↔
      u.counted .activeReconciliations ≠ 0 ∨ cs.filter a.isObserved ≠ []) :
    Following a c first s (next + 1) v := by
  have blocks : c.segment first next = c.segment first (next - 1) ++ [b] :=
    Chain.segment_concat ge found
  have same : next + 1 - 1 = next := by omega
  -- A block is faulty exactly where an observed change differs; here all of them agree, so the
  -- blocks behind stay clean.
  have innocent : ¬c.Faulty a.Watches first b := by
    rw [faulty_iff_differs index staged]
    rintro ⟨change, mem, differs⟩
    exact differs (agree change mem)
  refine ⟨checked.inv, fun h => ?_, fun id eq => ?_, fun b' mem => ?_, ?_, ?_,
    (following.mode.trans took.mode).trans checked.sameMode,
    (checked.recorder.trans took.recorder).trans following.recorder, ?_, ?_⟩
  · rw [checked.balances, same]
    exact following.balances_took ge found staged took h
  · rw [checked.head?, following.head_took index took] at eq
    cases eq
    omega
  · rw [same, blocks] at mem
    rcases List.mem_append.mp mem with mem | mem
    · exact following.clean b' mem
    · rwa [List.mem_singleton.mp mem]
  · rw [same, counted, took.counted (by decide), following.checked, blocks]
    exact watched_iff staged
  · rw [checked.counted _ (by decide), took.counted (by decide)]
    exact following.swept
  · rw [checked.sweepers, took.sweepers]
    exact following.sweepers
  · rw [checked.shutdown, took.shutdown]
    exact following.shutdown

/-- At a block with a checked change that does not agree it stops. -/
theorem Following.blames {f : Failure} (following : Following a c first s next t)
    (ge : first ≤ next) (le : next ≤ last) (found : c.blocks.find? next = some b)
    (index : b.id.index = next)
    (staged : b.Staged (fun h v => c.computed? h (c.segment first next) = some v.toRat) cs)
    (took : Session.Took s.world.SameRun b cs t u)
    (differs : ∃ change ∈ cs.filter a.isObserved, ¬c.Agrees change) (block : f.block = b.id)
    (blamed : Session.Blamed s.world.SameRun f u v) : Blames a c first last s b f v := by
  have fault : c.FirstFaulty a.Watches first last b := by
    refine ⟨by rwa [index], by omega, by omega, ?_, ?_⟩
    · exact (faulty_iff_differs index staged).mpr differs
    · rw [index]
      exact following.clean
  refine ⟨blamed.checked.inv, fault, ?_, block, blamed.kind, ?_,
    (following.mode.trans took.mode).trans blamed.checked.sameMode, ?_⟩
  · exact blamed.checked.head?.trans (following.head_took index took)
  · rw [blamed.recorder, took.recorder, following.recorder]
  · exact blamed.checked.sweepers.trans (took.sweepers.trans following.sweepers)

end Taken

/-- **One more block.** The run goes on behind it iff it is not at fault, and
otherwise stops and blames it. -/
theorem Following.step (watchful : a.settings.Watchful) (recites : a.node.Recites c)
    (fresh : s.Fresh) (linked : c.Linked first last) (exact_ : c.ExactSums first last)
    (low : Index.least ≤ first) (high : last ≤ Index.greatest)
    (following : Following a c first s next t) (ge : first ≤ next) (le : next ≤ last) :
    (a.applyBlock a.workers next).Ends t (fun _ => Following a c first s (next + 1))
      (fun stop u => ∃ b f, stop = .failed (.worker b.id (.reconcile (.mismatch f))) ∧
        Blames a c first last s b f u) := by
  obtain ⟨b, found, index⟩ := linked.served next ge le
  obtain ⟨ds, deltas, nets⟩ := Block.deltas?_exact (exact_.within next b ge le found)
  have running : t.isOver = false := by
    rw [Session.isOver, following.run.isCanceled, fresh.running, following.sweepers, fresh.calm]
    rfl
  have successor : ∀ head, t.store.ledger.head? = some head →
      Index.next? head.index = some b.id.index := by
    intro head eq
    obtain ⟨later, before⟩ := following.head head eq
    rw [index, before, Index.next?_of_lt ⟨by omega, by omega⟩ (by omega), Int.sub_add_cancel]
  refine applyBlock_ends (recites s.world) (following.mode.closed.trans fresh.isOpen)
    (following.mode.canWrite.trans fresh.canWrite) successor (fun _ => linked.opens ge le found)
    deltas (following.sums watchful.lookup exact_ ge le found deltas nets) following.run running
    found ?_
  -- The block is committed, and its changes are checked.
  intro cs u staged took
  rw [observed_observer, if_pos watchful.enabled]
  have isOpen : u.store.closed = false :=
    (following.mode.trans took.mode).closed.trans fresh.isOpen
  have clean : u.recorder.active = none := by
    rw [took.recorder, following.recorder, fresh.recorder]
  have at_block : ∀ change ∈ cs.filter a.isObserved, change.block = b.id := fun change mem =>
    staged.block change (List.mem_of_mem_filter mem)
  refine (checkChanges_ends (recites s.world) watchful.lookup watchful.halt watchful.active
    watchful.checks took.inv isOpen clean (linked.has ge le found) at_block).mono ?_ ?_
  · rintro _ v ⟨agree, checked, counted⟩
    exact following.ahead ge found index staged took agree checked counted
  · rintro _ v ⟨f, rfl, block, differs, blamed⟩
    exact ⟨b, f, rfl, following.blames ge le found index staged took differs block blamed⟩

end Step

/-! ## All of a range

By induction on the fuel. The run is idle nowhere, since the chain has every block of the
range. -/

/-- The range is done. -/
def done (t : Session σ) : Session σ :=
  { t with world.cancellation := t.world.cancellation.cancel t.shutdown }

/-- **A range is followed to its end iff no block of it is at fault**, and else up
to the first one that is. Behind the greatest index no block can follow: a run that
comes there overflows. The induction is on the fuel, of which there is more than
blocks. -/
theorem Following.syncFrom_ends (watchful : a.settings.Watchful) (recites : a.node.Recites c)
    (fresh : s.Fresh) (linked : c.Linked first last) (exact_ : c.ExactSums first last)
    (low : Index.least ≤ first) (high : last ≤ Index.greatest) :
    ∀ (fuel : Nat) (next : Int) (t : Session σ), Following a c first s next t → first ≤ next →
      (next ≤ last ∨ next = last + 1 ∧ last < Index.greatest) → (last + 1 - next).toNat < fuel →
      (a.syncFrom a.workers (some last) fuel next).Ends t
        (fun _ u => last < Index.greatest ∧ ∃ t', Following a c first s (last + 1) t' ∧ u = done t')
        (fun stop u => (∃ b f, stop = .failed (.worker b.id (.reconcile (.mismatch f))) ∧
            Blames a c first last s b f u) ∨
          last = Index.greatest ∧ stop = .overflow .next ∧
            Following a c first s (last + 1) u) := by
  intro fuel
  induction fuel with
  | zero =>
    intro next t _ _ _ enough
    omega
  | succ fuel ih =>
    intro next t following ge place enough
    unfold syncFrom
    rcases place with le | ⟨rfl, small⟩
    · have due : ¬(some last).any (· < next) = true := by simpa using le
      rw [if_neg due, Step.ends_bind, Step.ends_attempt]
      refine (following.step watchful recites fresh linked exact_ low high ge le).mono ?_ ?_
      · intro _ u following'
        show Step.Ends (Step.within .next (Index.next? next) >>= _) u _ _
        have word : Index.InRange next := ⟨by omega, by omega⟩
        rw [Step.ends_bind, Step.ends_within]
        constructor
        · intro j advance
          obtain ⟨lt, rfl⟩ := (Index.next?_eq_some_iff word).mp advance
          exact ih (next + 1) u following' (by omega) (by omega) (by omega)
        · intro stuck
          -- There is no index behind this one.
          obtain rfl : next = Index.greatest := (Index.next?_eq_none_iff word).mp stuck
          obtain rfl : last = Index.greatest := by omega
          exact .inr ⟨rfl, rfl, following'⟩
      · rintro _ u ⟨b, f, rfl, blames⟩
        exact .inl ⟨b, f, rfl, blames⟩
    · have past : (some last).any (· < last + 1) = true := by simp
      rw [if_pos past]
      exact ⟨small, t, following, rfl⟩

end Auditor

end BalanceAudit
