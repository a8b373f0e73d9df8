import BalanceAudit.Proofs.Mirror

/-!
# Following a chain that adds up

Every block of such a chain is followed without alarm: what is staged is what the
node reports, so that the store mirrors the node again behind the block.

- `Session.Mirrors.prior_eq`, `Session.Mirrors.took`: one block, staged and
  committed.
- `Session.Settled`, `Session.CutShort`: the two ways in which a run ends. It is cut short
  by an abort, or because there is no index behind the greatest one, or because some
  distance between indices overflows.
- `Auditor.Harmless`: an observer of the commits that keeps the invariant.
- `Session.Mirrors.syncFrom_ends`: a run ends quietly, or is cut short.
- `Session.Mirrors.runPipeline_ends`: the same with sweeps beside it.
-/

namespace BalanceAudit

variable {σ : Type}

/-- No comparison failed, the store is as usable as at the origin, and its blocks are those
of the chain. -/
structure Session.Settled (c : Chain) (origin : Store) (s : Session σ) : Prop where
  quiet : s.Quiet
  mode : origin.SameMode s.store
  inside : ∀ i, s.store.ledger.blocks.contains i = true → ∃ b, c.blocks.find? i = some b

/-- What keeps a run up to `last` from its end, if no comparison fails: an abort, the end of
the indices, or a distance that overflows. A sweep in which one does makes the run stop as
`broke` says. -/
inductive Session.CutShort {ε : Type} (c : Chain) (origin : Store) (last : Option Int)
    (broke : Stop ε) : Stop ε → Session σ → Prop
  | aborted {s : Session σ} (settled : s.Settled c origin) (cause : ε)
      (aborted : s.world.cancellation.aborted = true) :
      CutShort c origin last broke (.failed cause) s
  | brim {s : Session σ} (settled : s.Settled c origin) {b : Block}
      (found : c.blocks.find? Index.greatest = some b)
      (inside : last.all (Index.greatest ≤ ·) = true) :
      CutShort c origin last broke (.overflow .next) s
  | untold {s : Session σ} (settled : s.Settled c origin) (untold : s.Untold) :
      CutShort c origin last broke (.overflow .distance) s
  | broke {s : Session σ} (settled : s.Settled c origin) (untold : s.Untold)
      (failed : s.sweepers.failure = some (Auditor.broken .distance)) :
      CutShort c origin last broke broke s

theorem Session.CutShort.settled {ε : Type} {c : Chain} {origin : Store} {last : Option Int}
    {broke stop : Stop ε} {s : Session σ} (cut : s.CutShort c origin last broke stop) :
    s.Settled c origin := by
  cases cut <;> assumption

/-- What observes the commits meets no failure and keeps the invariant, if the
changes it is told of come to the balances of the node. It may overflow where a sweep
would. -/
def Auditor.Harmless (a : Auditor σ) (c : Chain) (origin : Store)
    (observer : Option (Observer σ)) : Prop :=
  ∀ next b cs s, (∀ change ∈ cs, c.Has change.block ∧ c.Agrees change) →
    s.Mirrors a c origin next → s.sweepers.failure = none →
    (a.observed observer b cs).Ends s
      (fun _ t => t.Mirrors a c origin next ∧ t.sweepers.failure = none)
      (fun stop t => stop = .overflow .distance ∧ t.Settled c origin ∧ t.Untold)

/-- The checks of the changes are harmless, whether or not they are made. -/
theorem Auditor.harmless_checks {a : Auditor σ} {c : Chain} {origin : Store}
    (relays : a.node.Relays c) (isOpen : origin.closed = false) :
    a.Harmless c origin a.observer := by
  intro next b cs s agree mirrors calm
  rw [observed_observer]
  by_cases enabled : a.settings.enabled = true
  · rw [if_pos enabled]
    refine (checkChanges_passes relays.serves mirrors.world (mirrors.mode.closed.trans isOpen)
      fun change mem => agree change (List.mem_of_mem_filter mem)).mono ?_ fun _ _ h => h.elim
    intro _ t checked
    exact ⟨mirrors.checked checked, by rw [checked.sweepers, calm]⟩
  · rw [if_neg enabled]
    exact ⟨mirrors, calm⟩

namespace Session.Mirrors

variable {a : Auditor σ} {c : Chain} {origin : Store} {genesis tip first next : Int}
  {s t : Session σ} {b : Block}

theorem settled (mirrors : s.Mirrors a c origin next) : s.Settled c origin :=
  ⟨mirrors.quiet, mirrors.mode, mirrors.inside⟩

/-- An empty store mirrors the node before the first block. Without past balances
that has to be genesis. -/
theorem start (adds : c.AddsUp genesis tip) (world : s.world.Abortable) (quiet : s.Quiet)
    (mode : origin.SameMode s.store)
    (empty : s.store.ledger = {}) (opens : a.settings.lookup = true ∨ first = genesis) :
    s.Mirrors a c origin first := by
  refine ⟨world, quiet, mode, fun h r found => ?_, fun h _ => ?_, fun head eq => ?_,
    fun i stored => ?_⟩
  · rw [empty] at found
    cases found
  · rcases opens with lookup | rfl
    · exact .inl lookup
    · exact .inr (adds.before h)
  · rw [empty] at eq
    cases eq
  · rw [empty] at stored
    cases stored

/-! ## One block

The balance that the ledger has is the chain's one block earlier, and the recorded delta
leads to the chain's at the block. -/

/-- A net change is put on top of the balance that the node had before, whether it
is the stored one, the one looked up or nothing. -/
theorem prior_eq (mirrors : s.Mirrors a c origin next) (adds : c.AddsUp genesis tip)
    (ge : genesis ≤ next) (le : next ≤ tip) (found : c.blocks.find? next = some b) (h : Holding) :
    a.prior c s.store.ledger b h = c.balanceAt h (next - 1) := by
  unfold Auditor.prior
  cases stored : s.store.ledger.balances.find? h with
  | some r => exact mirrors.recorded h r stored
  | none =>
    show (if a.settings.lookup = true then c.opening b h else .zero) = _
    rw [adds.spans.opening_eq ge le found]
    by_cases start : next = genesis
    · rw [if_pos start, ite_self, start, adds.before h]
    · rw [if_neg start]
      by_cases lookup : a.settings.lookup = true
      · rw [if_pos lookup]
      · rw [if_neg lookup]
        exact ((mirrors.unseen h stored).resolve_left lookup).symm

/-- **Behind a committed block the store mirrors the node again.** -/
theorem took (mirrors : s.Mirrors a c origin next) (adds : c.AddsUp genesis tip)
    (ge : genesis ≤ next) (le : next ≤ tip) (found : c.blocks.find? next = some b)
    {cs : List Change} (staged : b.Staged (fun h v => v = c.balanceAt h next) cs)
    (took : Session.Took World.Abortable b cs s t) : t.Mirrors a c origin (next + 1) := by
  have same : next + 1 - 1 = next := by omega
  have index : b.id.index = next := adds.spans.linked.index ge le found
  -- A holding that the block reports has a staged balance, and the others have
  -- the one from before, as they do at the node.
  have reported : ∀ h, b.reports h = true → ∃ r,
      t.store.ledger.balances.find? h = some r ∧ r.value = c.balanceAt h next := by
    intro h reports
    obtain ⟨v, value, rfl⟩ := took.value? staged reports
    exact Option.map_eq_some_iff.mp value
  have kept : ∀ h, ¬b.reports h = true →
      t.store.ledger.balances.find? h = s.store.ledger.balances.find? h ∧
        c.balanceAt h next = c.balanceAt h (next - 1) := by
    intro h silent
    exact ⟨took.find?_of_not_reports staged silent,
      adds.stays next b found h (Bool.eq_false_iff.mpr silent)⟩
  have quiet : t.Quiet := by
    constructor
    · rw [took.counted (by decide)]
      exact mirrors.quiet.unfailed
    · rw [took.recorder]
      exact mirrors.quiet.recorder
  refine ⟨took.inv, quiet, mirrors.mode.trans took.mode, fun h r stored => ?_,
    fun h missing => ?_, fun head eq => ?_, fun i stored => ?_⟩
  · rw [same]
    by_cases reports : b.reports h = true
    · obtain ⟨r', stored', value⟩ := reported h reports
      rw [stored] at stored'
      cases stored'
      exact value
    · obtain ⟨before, stays⟩ := kept h reports
      rw [before] at stored
      rw [stays]
      exact mirrors.recorded h r stored
  · rw [same]
    by_cases reports : b.reports h = true
    · obtain ⟨r', stored', _⟩ := reported h reports
      rw [missing] at stored'
      cases stored'
    · obtain ⟨before, stays⟩ := kept h reports
      rw [before] at missing
      rw [stays]
      exact mirrors.unseen h missing
  · rw [took.head? fun head eq => by
      obtain ⟨before, _⟩ := mirrors.head head eq
      omega] at eq
    cases eq
    exact ⟨by omega, adds.spans.linked.has ge le found⟩
  · obtain ⟨counts, _, ledger⟩ := took.ledger
    rw [ledger, Ledger.contains_blocks_apply] at stored
    rcases stored with rfl | stored
    · rw [index]
      exact ⟨b, found⟩
    · exact mirrors.inside i stored

section Run

variable (relays : a.node.Relays c) (adds : c.AddsUp genesis tip) (isOpen : origin.closed = false)
  (works : origin.canWrite = true) {observer : Option (Observer σ)}
  (harmless : a.Harmless c origin observer)

include relays adds isOpen works harmless

/-- A block is applied unless the run is over, or an observer overflows. -/
theorem applyBlock_ends (mirrors : s.Mirrors a c origin next) (pass : s.SweepsPass)
    (ge : genesis ≤ next) (le : next ≤ tip) :
    (a.applyBlock [a.balanceWorker observer] next).Ends s
      (fun _ t => t.Mirrors a c origin (next + 1) ∧ t.SweepsPass)
      (fun stop t => stop = .idle ∧ t.Mirrors a c origin next ∧ t.SweepsPass ∨
        stop = .overflow .distance ∧ t.Settled c origin ∧ t.Untold) := by
  by_cases quit : s.isOver = true
  · unfold Auditor.applyBlock Auditor.fetchBlock
    rw [Step.ends_bind, Step.ends_bind, Step.ends_get]
    unfold Auditor.fetchFrom Auditor.proceed
    rw [Step.ends_bind, Step.ends_bind, Step.ends_get, if_pos quit]
    exact .inl ⟨rfl, mirrors, pass⟩
  · obtain ⟨b, found, index⟩ := adds.spans.served next ge le
    obtain ⟨ds, deltas, sums⟩ := adds.deltas next b found
    have low := adds.spans.low
    have high := adds.spans.high
    -- A head is a served block, so the next index exists and is that of the block behind it.
    have successor : ∀ head, s.store.ledger.head? = some head →
        Index.next? head.index = some b.id.index := by
      intro head eq
      obtain ⟨before, p, found', _⟩ := mirrors.head head eq
      obtain ⟨ge', _⟩ := adds.spans.only _ p found'
      rw [index, Index.next?_of_lt ⟨by omega, by omega⟩ (by omega), Option.some.injEq]
      omega
    refine Auditor.applyBlock_ends (V := fun h v => v = c.balanceAt h next) relays.serves
      (mirrors.mode.closed.trans isOpen) (mirrors.mode.canWrite.trans works) successor
      (fun _ => adds.spans.linked.opens ge le found) deltas (fun h d mem => ?_) mirrors.world
      (Bool.eq_false_iff.mpr quit) found ?_
    · rw [mirrors.prior_eq adds ge le found h]
      exact ⟨_, sums h d mem, rfl⟩
    · intro cs t staged took
      -- What was staged is what the chain has at the block, so checks compare a balance with
      -- itself.
      have agree : ∀ change ∈ cs, c.Has change.block ∧ c.Agrees change := by
        intro change mem
        have block := staged.block change mem
        constructor
        · rw [block]
          exact adds.spans.linked.has ge le found
        · unfold Chain.Agrees
          rw [staged.value change mem, block, index]
          exact .refl _
      have mirrors := mirrors.took adds ge le found staged took
      have calm : t.sweepers.failure = none := by
        rw [took.sweepers]
        simpa using (Bool.or_eq_false_iff.mp (Bool.eq_false_iff.mpr quit)).2
      refine (harmless (next + 1) b cs t agree mirrors calm).mono ?_ ?_
      · rintro _ u ⟨mirrors, calm⟩
        exact ⟨mirrors, .inl calm⟩
      · rintro _ u ⟨rfl, settled, untold⟩
        exact .inr ⟨rfl, settled, untold⟩

/-! ## All blocks

The run goes on to its last block, is aborted, runs out of indices, or waits for a block
behind the tip. -/

omit relays adds isOpen works harmless in
/-- A run that cannot go on was aborted, or a sweep broke down. -/
theorem cutShort_of_halts {last : Option Int} {stop : Stop SyncError}
    (halts : Auditor.Waits.Halts (fun s => s.Mirrors a c origin first ∧ s.SweepsPass) next stop t) :
    Session.CutShort c origin last .idle stop t := by
  obtain ⟨⟨mirrors, pass⟩, ⟨rfl, quit⟩ | ⟨rfl, failed⟩⟩ := halts
  · exact .aborted mirrors.settled _ (mirrors.world.aborted quit)
  · obtain ⟨broke, untold⟩ := pass.resolve_left failed
    exact .broke mirrors.settled untold broke

omit adds works harmless in
/-- Behind the last block a run is done, or it waits until somebody aborts. -/
theorem missing_ends (mirrors : s.Mirrors a c origin next) (pass : s.SweepsPass) {index : Int}
    (missing : c.blocks.find? index = none) (workers : List (Worker σ)) (last : Option Int)
    (fuel : Nat) :
    (a.syncFrom workers last (fuel + 1) index).Ends s (fun _ t => t.Settled c origin)
      (Session.CutShort c origin last .idle) := by
  by_cases due : last.any (· < index) = true
  · unfold Auditor.syncFrom
    rw [if_pos due]
    exact ⟨⟨mirrors.quiet.unfailed, mirrors.quiet.recorder⟩, mirrors.mode, mirrors.inside⟩
  · exact ((waits relays isOpen).syncFrom_ends relays.serves (fun _ m => m.1.world)
      (fun _ _ m inv => ⟨m.1.setWorld inv, m.2⟩) missing workers due fuel ⟨mirrors, pass⟩).mono
      (fun _ _ h => h.elim) fun _ _ halts => cutShort_of_halts halts

/-- **A run ends quietly**: it is done, or it is cut short. The induction is on the fuel, of
which there is more than blocks. -/
theorem syncFrom_ends (last : Option Int) :
    ∀ (fuel : Nat) (next : Int) (s : Session σ), s.Mirrors a c origin next → s.SweepsPass →
      genesis ≤ next → next ≤ tip → (tip + 1 - next).toNat < fuel →
      (a.syncFrom [a.balanceWorker observer] last fuel next).Ends s
        (fun _ t => t.Settled c origin) (Session.CutShort c origin last .idle) := by
  intro fuel
  induction fuel with
  | zero =>
    intro next s _ _ _ _ enough
    omega
  | succ fuel ih =>
    intro next s mirrors pass ge le enough
    have low := adds.spans.low
    have high := adds.spans.high
    have word : Index.InRange next := ⟨by omega, by omega⟩
    unfold Auditor.syncFrom
    by_cases due : last.any (· < next) = true
    · rw [if_pos due]
      exact ⟨⟨mirrors.quiet.unfailed, mirrors.quiet.recorder⟩, mirrors.mode, mirrors.inside⟩
    · rw [if_neg due, Step.ends_bind, Step.ends_attempt]
      refine (mirrors.applyBlock_ends relays adds isOpen works harmless pass ge le).mono ?_ ?_
      · rintro _ t ⟨mirrors, pass⟩
        -- Behind the block there is another one, or none yet, or no index.
        rw [Step.ends_bind, Step.ends_within]
        refine ⟨fun second advance => ?_, fun full => ?_⟩
        · obtain ⟨_, rfl⟩ := (Index.next?_eq_some_iff word).mp advance
          by_cases more : next < tip
          · exact ih (next + 1) t mirrors pass (by omega) (by omega) (by omega)
          · obtain rfl : next = tip := by omega
            obtain ⟨fuel, rfl⟩ : ∃ n, fuel = n + 1 := ⟨fuel - 1, by omega⟩
            exact mirrors.missing_ends relays isOpen pass adds.spans.missing_next _ last fuel
        · obtain rfl := (Index.next?_eq_none_iff word).mp full
          obtain ⟨b, found, _⟩ := adds.spans.served Index.greatest ge le
          refine .brim mirrors.settled found ?_
          simpa [Option.all_eq_true, Option.any_eq_true] using due
      · rintro _ t (⟨rfl, mirrors, pass⟩ | ⟨rfl, settled, untold⟩)
        · show Step.Ends (a.canceledBefore next) t _ _
          exact ((waits relays isOpen).canceledBefore_ends ⟨mirrors, pass⟩ next).mono
            (fun _ _ h => h.elim) fun _ _ halts => cutShort_of_halts halts
        · exact .untold settled untold

theorem sync_ends (mirrors : s.Mirrors a c origin first) (pass : s.SweepsPass)
    (ge : genesis ≤ first) (le : first ≤ tip) (last : Option Int) :
    (a.sync [a.balanceWorker observer] first last).Ends s (fun _ t => t.Settled c origin)
      (Session.CutShort c origin last .idle) := by
  have enough : (tip + 1 - first).toNat < Index.count + 1 := by
    have low := adds.spans.low
    have high := adds.spans.high
    simp only [Index.least, Index.greatest, Index.count] at low high ⊢
    omega
  exact syncFrom_ends relays adds isOpen works harmless last _ first s mirrors pass ge le enough

/-! ## With sweeps beside it

The reconciler starts on a session that mirrors the chain, and its failure is the one thing
that may end the run. -/

/-- How a pipeline stops in which a sweep broke down. -/
abbrev sweepBroke : Stop PipelineError := .failed (.reconcile (Auditor.broken .distance))

theorem follow_ends (mirrors : s.Mirrors a c origin first) (pass : s.SweepsPass)
    (ge : genesis ≤ first) (le : first ≤ tip) (last : Option Int) :
    (a.follow first last observer).Ends s (fun _ t => t.Settled c origin)
      (Session.CutShort c origin last sweepBroke) := by
  unfold Auditor.follow
  rw [Step.ends_bind, Step.ends_attempt, Step.ends_mapError]
  refine (mirrors.sync_ends relays adds isOpen works harmless pass ge le last).mono
    (fun _ _ h => h) ?_
  intro stop t cut
  cases cut with
  | aborted settled cause aborted => exact .aborted settled _ aborted
  | brim settled found inside => exact .brim settled found inside
  | untold settled untold => exact .untold settled untold
  | broke settled untold failed =>
    show Step.Ends (Auditor.sweepFailure >>= fun _ => Step.idle) t _ _
    rw [Step.ends_bind, Auditor.ends_sweepFailure, failed]
    exact .broke settled untold failed

theorem runBoth_ends (mirrors : s.Mirrors a c origin first) (pass : s.SweepsPass)
    (ge : genesis ≤ first) (le : first ≤ tip) (last : Option Int) :
    (a.runBoth first last observer).Ends s (fun _ t => t.Settled c origin)
      (Session.CutShort c origin last sweepBroke) := by
  have follows : ∀ {s : Session σ}, s.Mirrors a c origin first → s.SweepsPass →
      (a.follow first last observer).Ends s (fun _ t => t.Settled c origin)
        (Session.CutShort c origin last sweepBroke) :=
    fun mirrors pass => mirrors.follow_ends relays adds isOpen works harmless pass ge le last
  unfold Auditor.runBoth
  by_cases empty : last.any (· < first) = true
  · rw [if_pos empty, Step.ends_bind]
    refine (follows mirrors pass).mono ?_ fun _ _ h => h
    intro _ t settled
    by_cases enabled : a.settings.enabled = true
    · rw [if_pos enabled, Step.ends_mapError]
      refine Step.ends_of_ok (a.eval_trackKnown (settled.mode.closed.trans isOpen)) ?_
      exact ⟨⟨settled.quiet.unfailed, settled.quiet.recorder⟩, settled.mode, settled.inside⟩
    · rw [if_neg enabled]
      exact settled
  · rw [if_neg empty, Step.ends_bind, Step.ends_get]
    by_cases quit : s.world.isCanceled = true
    · rw [if_pos quit]
      exact .aborted mirrors.settled _ (mirrors.world.aborted quit)
    · rw [if_neg quit]
      by_cases enabled : a.settings.enabled = true
      · rw [if_pos enabled, Step.ends_bind, Step.ends_mapError]
        refine (mirrors.startReconciler_ends relays isOpen).mono ?_ fun _ _ h => h.elim
        rintro _ t ⟨mirrors, pass⟩
        rw [Step.ends_bind, Auditor.ends_sweepFailure]
        -- The first round of sweeps already may break down.
        rcases pass with calm | ⟨failed, untold⟩
        · rw [calm]
          exact follows mirrors (.inl calm)
        · rw [failed]
          exact .broke mirrors.settled untold failed
      · rw [if_neg enabled]
        exact follows mirrors pass

/-- **A pipeline over a chain that adds up raises no alarm.** -/
theorem runPipeline_ends (mirrors : s.Mirrors a c origin first) (pass : s.SweepsPass)
    (ge : genesis ≤ first) (le : first ≤ tip) (last : Option Int) :
    (a.runPipeline first last observer).Ends s (fun _ t => t.Settled c origin)
      (Session.CutShort c origin last sweepBroke) := by
  have canceled : ∀ {t : Session σ}, t.Settled c origin →
      Session.Settled c origin { t with world := t.world.cancel } := fun settled =>
    ⟨⟨settled.quiet.unfailed, settled.quiet.recorder⟩, settled.mode, settled.inside⟩
  unfold Auditor.runPipeline
  rw [Step.ends_bind, Step.ends_attempt]
  refine (mirrors.runBoth_ends relays adds isOpen works harmless pass ge le last).mono
    (fun _ _ settled => canceled settled) ?_
  intro stop t cut
  cases cut with
  | aborted settled cause aborted =>
    exact .aborted (canceled settled) cause ((Cancellation.aborted_cancel _ _).trans aborted)
  | brim settled found inside => exact .brim (canceled settled) found inside
  | untold settled untold => exact .untold (canceled settled) untold
  | broke settled untold failed => exact .broke (canceled settled) untold failed

end Run

end Session.Mirrors

end BalanceAudit
