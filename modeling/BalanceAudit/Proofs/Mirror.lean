import BalanceAudit.Pipeline
import BalanceAudit.Proofs.History
import BalanceAudit.Proofs.Moves
import BalanceAudit.Proofs.Sweep.Claims
import BalanceAudit.Proofs.Sync
import BalanceAudit.Proofs.Waiting

/-!
# Stored balances that mirror the node

Where the balances of a chain add up, those in the store are the very decimals
that the node reports at the head. Then no check of either kind can fail, whenever
it is made. All that can end a sweep is a distance between indices that overflows.

- `World.Abortable`, `Node.Relays`: an abort may fall into any call of the node.
- `Session.Mirrors`: the invariant; `Session.Quiet`: the part of it about failures.
- `Session.Untold`: some distance to the head overflows; `Session.SweepsPass`: nothing but
  that broke a sweep down.
- `Auditor.checkActive_passes`, `Auditor.checkInactive_passes`: a check of equal
  balances raises a counter of `Counter.passing` and does nothing else.
- `Session.Mirrors.sweep_ends`, `Session.Mirrors.wake_ends`: sweeps keep it.
- `Session.Mirrors.waits`: so does waiting.
-/

namespace BalanceAudit

variable {σ ε : Type}

/-! ## Aborts

A node that relays answers like the chain, and if a call has an operator give up, that
aborts. -/

namespace World

variable {v w : World σ}

/-- Whoever ends the run aborts. -/
def Abortable (w : World σ) : Prop := w.Orderly ∧ w.surrender = .abort

theorem Abortable.of_sameRun (h : v.Abortable) (same : v.SameRun w) : w.Abortable :=
  ⟨h.1.of_sameRun same, same.surrender.trans h.2⟩

theorem Abortable.abort (h : w.Abortable) : (w.obey .abort).Abortable := ⟨h.1.abort, h.2⟩

theorem Abortable.aborted (h : w.Abortable) (quit : w.isCanceled = true) :
    w.cancellation.aborted = true :=
  h.1.cause h.2 quit

/-- A call changes the node, and the operator may abort. -/
theorem call_cases {α : Type} (w : World σ) (f : σ → Answer α × σ)
    (aborts : (f w.node).1.signal ≠ some .cancel) :
    (w.call f).2 = { w with node := (f w.node).2 } ∨
    (w.call f).2 = ({ w with node := (f w.node).2 } : World σ).obey .abort := by
  unfold call
  dsimp only
  cases fell : (f w.node).1.signal with
  | none => exact .inl rfl
  | some signal =>
    cases signal with
    | abort => exact .inr rfl
    | cancel => exact absurd fell aborts

end World

/-- The node answers every call as the chain has it. The operator may abort at any
call, and does nothing else. -/
structure Node.Relays (n : Node σ) (c : Chain) : Prop where
  status : ∀ s, (n.status s).1.reply = some c.status ∧ (n.status s).1.signal ≠ some .cancel
  block : ∀ index s, (n.block index s).1.reply = some (.ok (c.blocks.find? index)) ∧
    (n.block index s).1.signal ≠ some .cancel
  balance : ∀ h at? s, (n.balance h at? s).1.reply = some (c.balance h at?) ∧
    (n.balance h at? s).1.signal ≠ some .cancel

theorem World.Abortable.call {α : Type} {w : World σ} (h : w.Abortable) (f : σ → Answer α × σ)
    (signal : (f w.node).1.signal ≠ some .cancel) : (w.call f).2.Abortable := by
  have moved : World.Abortable { w with node := (f w.node).2 } := h.of_sameRun ⟨rfl, rfl, rfl⟩
  rcases w.call_cases f signal with same | aborted
  · rw [same]
    exact moved
  · rw [aborted]
    exact moved.abort

/-- A run can start after any call. -/
theorem World.Abortable.enter_call {α : Type} {w : World σ} (surrender : w.surrender = .abort)
    (sound : w.cancellation.Sound) (f : σ → Answer α × σ)
    (signal : (f w.node).1.signal ≠ some .cancel) : (w.call f).2.enter.Abortable := by
  rcases w.call_cases f signal with same | aborted
  · rw [same]
    exact ⟨Orderly.enter (.inr sound), surrender⟩
  · rw [aborted]
    exact ⟨Orderly.enter (.inl (Cancellation.aborted_abort _)), surrender⟩

/-- Such a node leaves the run to the operator. -/
theorem Node.Relays.serves {n : Node σ} {c : Chain} (relays : n.Relays c) :
    n.Serves c World.Abortable where
  block := fun index w inv =>
    have ⟨reply, signal⟩ := relays.block index w.node
    ⟨reply, inv.call _ signal⟩
  balance := fun h at? w inv =>
    have ⟨reply, signal⟩ := relays.balance h at? w.node
    ⟨reply, inv.call _ signal⟩
  tell := fun _ _ inv => inv.of_sameRun ⟨rfl, rfl, rfl⟩

/-- The node of the chain itself is never interrupted. -/
theorem Chain.relays (c : Chain) : c.node.Relays c where
  status := fun _ => ⟨rfl, nofun⟩
  block := fun _ _ => ⟨rfl, nofun⟩
  balance := fun _ _ _ => ⟨rfl, nofun⟩

/-! ## The invariant

Balances, head and counters are those of the chain, and no failure was counted. It is stated
for any moment between two commits. -/

/-- No comparison ever failed. -/
structure Session.Quiet (s : Session σ) : Prop where
  unfailed : s.counted .failedReconciliations = 0
  recorder : s.recorder = {}

/-- The head and the last check of some holding are too far apart to tell whether it is
due. -/
def Session.Untold (s : Session σ) : Prop :=
  ∃ head, s.store.ledger.head? = some head ∧ ¬s.tracker.Told head.index

/-- No sweep broke down but for a distance that overflows, and does so still. -/
def Session.SweepsPass (s : Session σ) : Prop :=
  s.sweepers.failure = none ∨
    s.sweepers.failure = some (Auditor.broken .distance) ∧ s.Untold

/-- All blocks before `next` that are followed were committed, and the store has the
decimals that the node reports at the last one of them. A holding without a balance
has nothing there, unless its balance can be looked up. All blocks are those of the chain. -/
structure Session.Mirrors (a : Auditor σ) (c : Chain) (origin : Store) (next : Int)
    (s : Session σ) : Prop where
  world : s.world.Abortable
  quiet : s.Quiet
  mode : origin.SameMode s.store
  recorded : ∀ h r, s.store.ledger.balances.find? h = some r → r.value = c.balanceAt h (next - 1)
  unseen : ∀ h, s.store.ledger.balances.find? h = none →
    a.settings.lookup = true ∨ c.balanceAt h (next - 1) = .zero
  head : ∀ head, s.store.ledger.head? = some head → head.index = next - 1 ∧ c.Has head
  inside : ∀ i, s.store.ledger.blocks.contains i = true → ∃ b, c.blocks.find? i = some b

namespace Session.Mirrors

variable {a : Auditor σ} {c : Chain} {origin : Store} {next : Int} {s t : Session σ}

/-- Checks that do not fail keep the invariant. -/
theorem checked (mirrors : s.Mirrors a c origin next)
    (h : Session.Checked World.Abortable Counter.passing s t) : t.Mirrors a c origin next where
  world := h.inv
  quiet := by
    constructor
    · rw [h.counted _ (by decide)]
      exact mirrors.quiet.unfailed
    · rw [h.recorder]
      exact mirrors.quiet.recorder
  mode := mirrors.mode.trans h.sameMode
  recorded := by
    rw [h.balances]
    exact mirrors.recorded
  unseen := by
    rw [h.balances]
    exact mirrors.unseen
  head := by
    rw [h.head?]
    exact mirrors.head
  inside := by
    rw [h.blocks]
    exact mirrors.inside

theorem setWorld (mirrors : s.Mirrors a c origin next) {w : World σ} (inv : w.Abortable) :
    Session.Mirrors a c origin next { s with world := w } :=
  { mirrors with
    world := inv
    quiet := ⟨mirrors.quiet.unfailed, mirrors.quiet.recorder⟩ }

theorem setSweepers (mirrors : s.Mirrors a c origin next) (w : Sweepers) :
    Session.Mirrors a c origin next { s with sweepers := w } :=
  { mirrors with quiet := ⟨mirrors.quiet.unfailed, mirrors.quiet.recorder⟩ }

/-- What a sweep compares is equal, since both sides are taken at the same head. -/
theorem snapshot (mirrors : s.Mirrors a c origin next) {h : Holding} {r : Record} {head : BlockId}
    (eq : s.store.ledger.snapshot? h = some (r, head)) :
    c.Has head ∧ r.balance.value.Same (c.balanceAt h head.index) := by
  unfold Ledger.snapshot? Ledger.record? at eq
  rw [Option.bind_eq_bind, Option.bind_eq_some_iff] at eq
  obtain ⟨head', first, eq⟩ := eq
  rw [Option.bind_eq_bind, Option.bind_eq_some_iff] at eq
  obtain ⟨r', found, eq⟩ := eq
  cases eq
  obtain ⟨balance, stored, rfl⟩ := Option.map_eq_some_iff.mp found
  obtain ⟨index, has⟩ := mirrors.head head first
  refine ⟨has, ?_⟩
  show balance.value.Same _
  rw [mirrors.recorded h balance stored, index]
  exact .refl _

end Session.Mirrors

/-! ## Checks that pass

Whatever balance a check compares, it is the chain's at the head or at the block, so that it
passes or has no answer. -/

namespace Auditor

variable {a : Auditor σ} {c : Chain} {I : World σ → Prop} {s : Session σ} {change : Change}

theorem exempted_ends (inv : I s.world) (isOpen : s.store.closed = false) :
    (exempted : Step (Session σ) ReconcileError Unit).Ends s
      (fun _ => Session.Checked I Counter.passing s) (fun _ _ => False) := by
  unfold exempted
  refine Step.ends_of_ok (Step.eval_count isOpen _) ?_
  exact (Session.Checked.raise inv _).mono (by decide)

/-- Equal balances pass, whatever the settings. The check may also be skipped. -/
theorem checkActive_passes (serves : a.node.Serves c I) (inv : I s.world)
    (isOpen : s.store.closed = false) (has : c.Has change.block) (agrees : c.Agrees change) :
    (a.checkActive change).Ends s (fun _ => Session.Checked I Counter.passing s)
      (fun _ _ => False) := by
  unfold checkActive
  by_cases exempt : a.settings.isExempt change.holding = true
  · rw [if_pos exempt]
    exact exempted_ends inv isOpen
  · rw [if_neg exempt, Step.ends_bind]
    refine (liveBalance_ends serves inv isOpen has _).mono ?_ fun _ _ h => h
    rintro live t (⟨rfl, asked⟩ | ⟨_, rfl, checked⟩)
    · refine (conclude_ends_of_same serves asked.inv (by rw [asked.store]; exact isOpen) agrees
        .active change.holding change.block).mono ?_ fun _ _ h => h
      rintro _ u ⟨checked, _⟩
      exact (Session.Checked.of_asked asked).trans (checked.mono (by decide))
    · exact checked.mono (by decide)

/-- So does a stored balance that is the one of the node at the head. -/
theorem checkInactive_passes (serves : a.node.Serves c I) (inv : I s.world)
    (isOpen : s.store.closed = false) {h : Holding}
    (agrees : ∀ r head, s.store.ledger.snapshot? h = some (r, head) →
      c.Has head ∧ r.balance.value.Same (c.balanceAt h head.index)) (claimedAt : Int) :
    (a.checkInactive h claimedAt).Ends s (fun _ => Session.Checked I Counter.passing s)
      (fun _ _ => False) := by
  unfold checkInactive
  by_cases exempt : a.settings.isExempt h = true
  · rw [if_pos exempt, Step.ends_bind]
    refine Step.ends_of_ok (Step.eval_onTracker _ _) ?_
    refine (exempted_ends (I := I) (by exact inv) (by exact isOpen)).mono ?_ fun _ _ h => h
    intro _ t checked
    exact (Session.Checked.of_tracker inv _).trans checked
  · rw [if_neg exempt, Step.ends_bind]
    refine Step.ends_of_ok (Step.eval_read_of_open isOpen) ?_
    cases found : s.store.ledger.snapshot? h with
    | none =>
      refine Step.ends_of_ok (Step.eval_onTracker _ _) ?_
      exact .of_tracker inv _
    | some entry =>
      obtain ⟨r, head⟩ := entry
      obtain ⟨has, same⟩ := agrees r head found
      show Step.Ends (a.liveBalance h head >>= _) s _ _
      rw [Step.ends_bind]
      refine (liveBalance_ends serves inv isOpen has h).mono ?_ fun _ _ h => h
      -- With an answer the balances are the same; without one only the turn is given back.
      rintro live t (⟨rfl, asked⟩ | ⟨_, rfl, checked⟩)
      · refine (conclude_ends_of_same serves asked.inv (by rw [asked.store]; exact isOpen) same
          .inactive h head).mono ?_ fun _ _ h => h
        rintro _ u ⟨checked, _⟩
        exact (Session.Checked.of_asked asked).trans (checked.mono (by decide))
      · refine Step.ends_of_ok (Step.eval_onTracker _ _) ?_
        exact (checked.mono (by decide)).trans (.of_tracker checked.inv _)

/-- **The checks of a block pass** if every change comes to the balance of the node,
however many of them run at once. -/
theorem checkChanges_passes (serves : a.node.Serves c I) (inv : I s.world)
    (isOpen : s.store.closed = false) {cs : List Change}
    (agree : ∀ change ∈ cs, c.Has change.block ∧ c.Agrees change) :
    (a.checkChanges cs).Ends s (fun _ => Session.Checked I Counter.passing s)
      (fun _ _ => False) := by
  rw [ends_checkChanges]
  have tracked : Session.Checked I Counter.passing s
      { s with tracker := s.tracker.track (cs.map (·.holding)) } := .of_tracker inv _
  by_cases idle : a.settings.active = 0 ∨ cs = []
  · rw [if_pos idle]
    exact tracked
  · rw [if_neg idle]
    -- No check so far has met an error.
    have all := checkAll_ends cs (a := a)
      (J := fun _ e t => e = none ∧ Session.Checked I Counter.passing s t)
      (s := { s with tracker := s.tracker.track (cs.map (·.holding)) }) ?_ ⟨rfl, tracked⟩
    · refine all.mono (fun _ _ h => h.2) ?_
      rintro _ _ ⟨_, _, _, _, _, error, _⟩
      cases error
    · rintro done change rest e t split ⟨rfl, checked⟩
      obtain ⟨has, agrees⟩ := agree change (by rw [split]; simp)
      refine (checkActive_passes serves checked.inv (checked.isOpen isOpen) has agrees).mono ?_
        fun _ _ h => h.elim
      intro _ u checked'
      exact ⟨rfl, checked.trans checked'⟩

end Auditor

/-! ## Sweeps and waiting

A sweep can break down by one thing alone: a claim for which a distance overflows. -/

namespace Session.Mirrors

variable {a : Auditor σ} {c : Chain} {origin : Store} {next : Int} {s : Session σ}

/-- A claim overflows only where a distance does, and then it changes nothing. -/
theorem claim_ends (mirrors : s.Mirrors a c origin next) (isOpen : origin.closed = false) :
    a.claim.Ends s (fun _ => Session.Checked World.Abortable Counter.passing s)
      (fun stop t => stop = .overflow .distance ∧ t = s ∧ s.Untold) := by
  have isOpen' := mirrors.mode.closed.trans isOpen
  cases found : s.store.ledger.head? with
  | none => exact Step.ends_of_ok (Auditor.eval_claim_of_none isOpen' found) (.refl mirrors.world)
  | some head =>
    unfold Step.Ends
    rw [Auditor.eval_claim isOpen' found]
    cases claims : s.tracker.claim? head.index a.settings.inactiveFrequency with
    | none => exact ⟨rfl, rfl, head, found, Tracker.claim?_eq_none_iff.mp claims⟩
    | some claimed =>
      cases claimed with
      | none => exact .refl mirrors.world
      | some claimed => exact .of_tracker mirrors.world _

theorem checkInactive_ends (mirrors : s.Mirrors a c origin next) (relays : a.node.Relays c)
    (isOpen : origin.closed = false) (h : Holding) (claimedAt : Int) :
    (a.checkInactive h claimedAt).Ends s
      (fun _ => Session.Checked World.Abortable Counter.passing s) (fun _ _ => False) :=
  Auditor.checkInactive_passes relays.serves mirrors.world (mirrors.mode.closed.trans isOpen)
    (fun _ _ => mirrors.snapshot) claimedAt

/-- **A sweep meets no failure.** The induction is on its fuel; every check keeps the
invariant for the next one. -/
theorem sweep_ends (relays : a.node.Relays c) (isOpen : origin.closed = false) :
    ∀ (fuel : Nat) (s : Session σ), s.Mirrors a c origin next →
      (a.sweep fuel).Ends s (fun _ => Session.Checked World.Abortable Counter.passing s)
        (fun stop t => stop = .overflow .distance ∧
          Session.Checked World.Abortable Counter.passing s t ∧ t.Untold) := by
  intro fuel
  induction fuel with
  | zero =>
    intro s mirrors
    exact .refl mirrors.world
  | succ fuel ih =>
    intro s mirrors
    unfold Auditor.sweep
    rw [Step.ends_bind, Step.ends_get]
    by_cases quit : s.world.isCanceled = true
    · rw [if_pos quit]
      exact .refl mirrors.world
    · rw [if_neg quit]
      show Step.Ends (a.claim >>= _) s _ _
      rw [Step.ends_bind]
      refine (mirrors.claim_ends isOpen).mono ?_ ?_
      · intro claimed t checked
        cases claimed with
        | none => exact checked
        | some claimed =>
          obtain ⟨h, head⟩ := claimed
          -- A claim moves no balance, so the sweep goes on from a mirror.
          have mirrors := mirrors.checked checked
          show Step.Ends (a.checkInactive h head >>= fun _ => a.sweep fuel) t _ _
          rw [Step.ends_bind]
          refine (mirrors.checkInactive_ends relays isOpen h head).mono ?_ fun _ _ h => h.elim
          intro _ u checked'
          have before := checked.trans checked'
          refine (ih u (mirrors.checked checked')).mono (fun _ _ h => before.trans h) ?_
          rintro _ v ⟨rfl, checked'', untold⟩
          exact ⟨rfl, before.trans checked'', untold⟩
      · rintro _ _ ⟨rfl, rfl, untold⟩
        exact ⟨rfl, .refl mirrors.world, untold⟩

theorem sweepDue_ends (mirrors : s.Mirrors a c origin next) (relays : a.node.Relays c)
    (isOpen : origin.closed = false) :
    a.sweepDue.Ends s (fun _ => Session.Checked World.Abortable Counter.passing s)
      (fun stop t => stop = .overflow .distance ∧
        Session.Checked World.Abortable Counter.passing s t ∧ t.Untold) := by
  unfold Auditor.sweepDue
  rw [Step.ends_bind, Step.ends_get]
  exact sweep_ends relays isOpen _ s mirrors

/-- As long as a distance overflows, a worker that comes by changes nothing. -/
theorem sweepDue_of_untold (untold : s.Untold) (isOpen : s.store.closed = false) :
    a.sweepDue.Ends s (fun _ t => t = s)
      (fun stop t => stop = .overflow .distance ∧ t = s) := by
  obtain ⟨head, found, far⟩ := untold
  unfold Auditor.sweepDue Auditor.sweep
  rw [Step.ends_bind, Step.ends_get, Step.ends_bind, Step.ends_get]
  by_cases quit : s.world.isCanceled = true
  · rw [if_pos quit]
    exact rfl
  · rw [if_neg quit]
    show Step.Ends (a.claim >>= _) s _ _
    rw [Step.ends_bind]
    unfold Step.Ends
    rw [Auditor.eval_claim isOpen found, Tracker.claim?_eq_none_iff.mpr far]
    exact ⟨rfl, rfl⟩

/-- Every worker comes through its sweep, or they all stop at the same distance. -/
theorem sweepRound_ends (relays : a.node.Relays c) (isOpen : origin.closed = false) :
    ∀ (n : Nat) (w : Sweepers) (s : Session σ), s.Mirrors a c origin next →
      { s with sweepers := w }.SweepsPass →
      (a.sweepRound n w : Step (Session σ) ε Sweepers).Ends s
        (fun w' t => t.Mirrors a c origin next ∧ { t with sweepers := w' }.SweepsPass)
        (fun _ _ => False) := by
  intro n
  induction n with
  | zero =>
    intro w s mirrors pass
    exact ⟨mirrors, pass⟩
  | succ n ih =>
    intro w s mirrors pass
    unfold Auditor.sweepRound
    rw [Step.ends_bind, Step.ends_attempt]
    rcases pass with calm | ⟨broke, untold⟩
    · refine (mirrors.sweepDue_ends relays isOpen).mono ?_ ?_
      · intro _ t checked
        exact ih _ t (mirrors.checked checked) (.inl calm)
      · rintro _ t ⟨rfl, checked, untold⟩
        refine ih _ t (mirrors.checked checked) (.inr ⟨?_, untold⟩)
        show (w.failure <|> _) = _
        rw [show w.failure = none from calm]
        rfl
    · -- Whoever comes behind the first one finds what that one found.
      have here : s.Untold := untold
      refine (sweepDue_of_untold here (mirrors.mode.closed.trans isOpen)).mono ?_ ?_
      · rintro _ _ rfl
        exact ih _ _ mirrors (.inr ⟨broke, untold⟩)
      · rintro _ _ ⟨rfl, rfl⟩
        refine ih _ _ mirrors (.inr ⟨?_, untold⟩)
        show (w.failure <|> _) = _
        rw [show w.failure = _ from broke]
        rfl

theorem wake_ends (mirrors : s.Mirrors a c origin next) (calm : s.sweepers.failure = none)
    (relays : a.node.Relays c) (isOpen : origin.closed = false) :
    (a.wake : Step (Session σ) ε Unit).Ends s
      (fun _ t => t.Mirrors a c origin next ∧ t.SweepsPass) (fun _ _ => False) := by
  unfold Auditor.wake
  rw [Step.ends_bind, Step.ends_get, Step.ends_bind]
  refine (sweepRound_ends relays isOpen _ { s.sweepers with asleep := 0 } s mirrors
    (.inl calm)).mono ?_ fun _ _ h => h
  rintro w t ⟨mirrors, pass⟩
  rw [Step.ends_modify]
  exact ⟨mirrors.setSweepers _, pass⟩

/-- The first sweeps of a run come through as well. -/
theorem startReconciler_ends (mirrors : s.Mirrors a c origin next) (relays : a.node.Relays c)
    (isOpen : origin.closed = false) :
    a.startReconciler.Ends s (fun _ t => t.Mirrors a c origin next ∧ t.SweepsPass)
      (fun _ _ => False) := by
  unfold Auditor.startReconciler
  rw [Step.ends_bind]
  refine Step.ends_of_ok (a.eval_trackKnown (mirrors.mode.closed.trans isOpen)) ?_
  rw [Step.ends_bind, Step.ends_modify]
  have tracked := mirrors.checked (.of_tracker mirrors.world
    (s.tracker.track (s.store.ledger.holdings ++ a.settings.interesting)))
  exact (tracked.setSweepers _).wake_ends rfl relays isOpen

/-- **Waiting keeps the invariant**, with all sweeps that fall into it. -/
theorem waits (relays : a.node.Relays c) (isOpen : origin.closed = false) :
    a.Waits fun s => s.Mirrors a c origin next ∧ s.SweepsPass where
  elapse := fun _ _ ⟨mirrors, pass⟩ =>
    ⟨mirrors.setWorld (mirrors.world.of_sameRun ⟨rfl, rfl, rfl⟩), pass⟩
  wake := fun _ ⟨mirrors, _⟩ calm _ => mirrors.wake_ends calm relays isOpen
  giveUp := by
    rintro s ⟨mirrors, pass⟩ _
    have world := mirrors.world.abort
    have quit := (mirrors.world.1.reach.obey .abort).2
    rw [← mirrors.world.2] at world quit
    exact ⟨⟨mirrors.setWorld world, pass⟩, quit⟩

end Session.Mirrors

end BalanceAudit
