import BalanceAudit.Proofs.Audit
import BalanceAudit.Proofs.Chain.TwoBlocks
import BalanceAudit.Proofs.Replay
import BalanceAudit.Proofs.Sweep.Abreast

/-!
# Audits without alarm

On a recorded history of which nothing was left out no audit finds anything wrong,
even where its sums are rounded, and whatever else is checked between two commits. But an
audit that is to go on behind the block of the greatest index overflows, and has no verdict.

- `Probe`, `Auditor.probes`: checks that are made between two commits.
- `Auditor.runProbed`: a run with such checks in front of it and behind every block;
  `Session.Mirrors.runProbed_ends`: it raises no alarm.
- `Session.Settled.told`, `Auditor.runProbed_abreast`: distances between indices do not
  overflow in it, unless there are more blocks than words from zero on.
- `Audit.FromScratch`: an audit that starts at any block of a history, or at genesis
  if the node knows no past balances.
- `Audit.run_quiet`: neither such an audit nor such a run ever reports a failure;
  `Audit.run_quiet_brim`: behind the greatest index there is no verdict.
-/

namespace BalanceAudit

/-- A check that is made between two commits. -/
inductive Probe where
  /-- All changes of the block, as many at once as the settings allow. -/
  | changes
  /-- One change of the block. -/
  | change (n : Nat)
  /-- A holding that was claimed when the head had an index. -/
  | holding (h : Holding) (claimedAt : Int)
  /-- Every holding that is due. -/
  | due

/-- The claim, if there is one, was made at one of these indices. -/
def Probe.ClaimedIn (p : Probe) (q : Int → Prop) : Prop :=
  match p with
  | .holding _ claimedAt => q claimedAt
  | _ => True

/-- No comparison is the reason for the verdict. -/
def Verdict.Quiet (v : Verdict) : Prop := v = .passed ∨ v = .passedUnchecked ∨ v = .halted

/-- Without an alarm a run passes, unless somebody aborted it. -/
theorem Session.verdict_quiet {σ : Type} {t : Session σ} {error : Option PipelineError}
    (cause : error ≠ none → t.world.cancellation.aborted = true) :
    (t.verdict error).Quiet := by
  unfold Session.verdict
  by_cases aborted : t.world.cancellation.aborted = true
  · rw [if_pos aborted]
    exact .inr (.inr rfl)
  · rw [if_neg aborted]
    cases error with
    | some e => exact absurd (cause nofun) aborted
    | none =>
      show Verdict.Quiet (if t.store.ledger.reconciliations.value = 0 then .passedUnchecked
        else .passed)
      by_cases unchecked : t.store.ledger.reconciliations.value = 0
      · rw [if_pos unchecked]
        exact .inr (.inl rfl)
      · rw [if_neg unchecked]
        exact .inl rfl

/-- A run that is about to start on an empty store. -/
structure Session.Blank {σ : Type} (s : Session σ) : Prop where
  world : s.world.Abortable
  ledger : s.store.ledger = {}
  isOpen : s.store.closed = false
  works : s.store.canWrite = true
  recorder : s.recorder = {}
  calm : s.sweepers.failure = none

/-- What keeps a run with further checks from its end: an abort, no index behind the last
block, or a distance that overflows. -/
inductive Session.Barred {σ : Type} (tip : Int) (last : Option Int) :
    Stop PipelineError → Session σ → Prop
  | aborted {t : Session σ} (cause : PipelineError) (halted : t.verdict (some cause) = .halted) :
      Barred tip last (.failed cause) t
  | brim {t : Session σ} (top : tip = Index.greatest)
      (inside : last.all (Index.greatest ≤ ·) = true) : Barred tip last (.overflow .next) t
  | untold {t : Session σ} (untold : t.Untold) : Barred tip last (.overflow .distance) t
  | broke {t : Session σ} (untold : t.Untold) :
      Barred tip last (.failed (.reconcile (Auditor.broken .distance))) t

/-! ## Checks between commits

A probe is a check at any moment between two commits. At all of them the session mirrors the
chain, so a probe passes. -/

namespace Auditor

variable {σ : Type}

/-- Makes one check, of the changes `cs` or of any holding. -/
def probe (a : Auditor σ) (cs : List Change) : Probe → Step (Session σ) ReconcileError Unit
  | .changes => a.checkChanges cs
  | .change n =>
    match cs[n]? with
    | some change => a.checkActive change
    | none => pure ()
  | .holding h claimedAt => a.checkInactive h claimedAt
  | .due => a.sweepDue

/-- Makes checks in turn. -/
def probes (a : Auditor σ) (cs : List Change) :
    List Probe → Step (Session σ) ReconcileError Unit
  | [] => pure ()
  | p :: rest => do
    a.probe cs p
    a.probes cs rest

/-- Checks that follow a schedule, behind every block. -/
def prober (a : Auditor σ) (schedule : Block → List Probe) : Observer σ :=
  fun b cs => a.probes cs (schedule b)

/-- A run from `first` to `last`, with checks in front of it and those of a schedule
behind every block, besides the sweeps. -/
def runProbed (a : Auditor σ) (before : List Probe) (schedule : Block → List Probe)
    (first : Int) (last : Option Int) : Step (Session σ) PipelineError Unit := do
  Step.mapError .reconcile (a.probes [] before)
  a.runPipeline first last (some (a.prober schedule))

end Auditor

namespace Session.Mirrors

variable {σ : Type} {a : Auditor σ} {c : Chain} {origin : Store} {genesis tip first next : Int}
  {s : Session σ} {cs : List Change}

theorem probe_ends (mirrors : s.Mirrors a c origin next) (relays : a.node.Relays c)
    (isOpen : origin.closed = false) (agree : ∀ change ∈ cs, c.Has change.block ∧ c.Agrees change)
    (p : Probe) :
    (a.probe cs p).Ends s (fun _ => Session.Checked World.Abortable Counter.passing s)
      (fun stop t => stop = .overflow .distance ∧
        Session.Checked World.Abortable Counter.passing s t ∧ t.Untold) := by
  have isOpen' := mirrors.mode.closed.trans isOpen
  cases p with
  | changes =>
    exact (Auditor.checkChanges_passes relays.serves mirrors.world isOpen' agree).mono
      (fun _ _ h => h) fun _ _ h => h.elim
  | change n =>
    show Step.Ends (match cs[n]? with
      | some change => a.checkActive change
      | none => pure ()) s _ _
    cases found : cs[n]? with
    | none => exact .refl mirrors.world
    | some change =>
      obtain ⟨has, agrees⟩ := agree change (List.mem_of_getElem? found)
      exact (Auditor.checkActive_passes relays.serves mirrors.world isOpen' has agrees).mono
        (fun _ _ h => h) fun _ _ h => h.elim
  | holding h claimedAt =>
    exact (mirrors.checkInactive_ends relays isOpen h claimedAt).mono (fun _ _ h => h)
      fun _ _ h => h.elim
  | due => exact mirrors.sweepDue_ends relays isOpen

/-- Checks in any order keep the invariant. -/
theorem probes_ends (relays : a.node.Relays c) (isOpen : origin.closed = false)
    (agree : ∀ change ∈ cs, c.Has change.block ∧ c.Agrees change) (ps : List Probe) :
    ∀ s : Session σ, s.Mirrors a c origin next → s.sweepers.failure = none →
      (a.probes cs ps).Ends s (fun _ t => t.Mirrors a c origin next ∧ t.sweepers.failure = none)
        (fun stop t => stop = .overflow .distance ∧ t.Settled c origin ∧ t.Untold) := by
  induction ps with
  | nil => exact fun _ mirrors calm => ⟨mirrors, calm⟩
  | cons p rest ih =>
    intro s mirrors calm
    unfold Auditor.probes
    rw [Step.ends_bind]
    refine (mirrors.probe_ends relays isOpen agree p).mono ?_ ?_
    · intro _ t checked
      exact ih t (mirrors.checked checked) (checked.sweepers ▸ calm)
    · rintro _ t ⟨rfl, checked, untold⟩
      exact ⟨rfl, (mirrors.checked checked).settled, untold⟩

/-- **No check between two commits raises an alarm**, whatever is checked and when. -/
theorem runProbed_ends (mirrors : s.Mirrors a c origin first) (calm : s.sweepers.failure = none)
    (relays : a.node.Relays c) (adds : c.AddsUp genesis tip) (isOpen : origin.closed = false)
    (works : origin.canWrite = true) (ge : genesis ≤ first) (le : first ≤ tip)
    (before : List Probe) (schedule : Block → List Probe) (last : Option Int) :
    (a.runProbed before schedule first last).Ends s (fun _ t => t.Settled c origin)
      (Session.CutShort c origin last sweepBroke) := by
  have harmless : a.Harmless c origin (some (a.prober schedule)) := by
    intro next b cs s agree mirrors calm
    exact probes_ends relays isOpen
      (fun change mem => agree change (List.mem_of_mem_filter mem)) (schedule b) s mirrors calm
  unfold Auditor.runProbed
  rw [Step.ends_bind, Step.ends_mapError]
  refine (probes_ends relays isOpen (fun _ mem => absurd mem List.not_mem_nil) before s
    mirrors calm).mono ?_ ?_
  · rintro _ t ⟨mirrors, calm⟩
    exact mirrors.runPipeline_ends relays adds isOpen works harmless (.inl calm) ge le last
  · rintro _ t ⟨rfl, settled, untold⟩
    exact .untold settled untold

end Session.Mirrors

/-! ## Distances

A probe that is said to come from an index that the chain has is as good as a check at a
head. -/

/-- **No distance to the head overflows** if all checks were made at blocks of the chain, and
there are no more of them than words from zero on. -/
theorem Session.Settled.told {σ : Type} {c : Chain} {origin : Store} {genesis tip : Int}
    {p : Int → Prop} {t : Session σ} (settled : t.Settled c origin) (spans : c.Spans genesis tip)
    (abreast : t.Abreast (fun i => genesis ≤ i ∧ i ≤ tip) p)
    (few : tip - genesis ≤ Index.greatest) : ¬t.Untold := by
  rintro ⟨head, found, far⟩
  have within : ∀ {i}, t.store.ledger.blocks.contains i = true → genesis ≤ i ∧ i ≤ tip := by
    intro i stored
    obtain ⟨b, here⟩ := settled.inside i stored
    exact spans.only i b here
  have top := within (Ledger.contains_of_head? found)
  refine far fun h x held _ last checked => ?_
  have low : -Index.greatest - 1 = Index.least := rfl
  have between : genesis ≤ last ∧ last ≤ tip := by
    rcases abreast.checked h x last held checked with elsewhere | ⟨⟨k, stored, le⟩, unbroken⟩
    · exact elsewhere
    · exact within (unbroken last k (le_refl _) le stored)
  exact ⟨by omega, by omega⟩

namespace Auditor

variable {σ : Type} {a : Auditor σ} {q p : Int → Prop} {cs : List Change}

theorem probe_abreast (known : ∀ i, q i → p i) (reached : ∀ c ∈ cs, p c.block.index) {r : Probe}
    (claimed : r.ClaimedIn q) : KeepsAbreast q p (a.probe cs r) := by
  cases r with
  | changes => exact checkChanges_abreast reached
  | change n =>
    show KeepsAbreast q p (match cs[n]? with
      | some change => a.checkActive change
      | none => pure ())
    split
    · next change found => exact checkActive_abreast (reached _ (List.mem_of_getElem? found))
    · exact .pure _
  | holding h claimedAt => exact checkInactive_abreast (known _ claimed) h
  | due => exact Step.Along.get.bind fun _ => sweep_abreast _

theorem probes_abreast (known : ∀ i, q i → p i) (reached : ∀ c ∈ cs, p c.block.index)
    {ps : List Probe} (claimed : ∀ r ∈ ps, r.ClaimedIn q) : KeepsAbreast q p (a.probes cs ps) := by
  induction ps with
  | nil => exact .pure _
  | cons r rest ih =>
    rw [List.forall_mem_cons] at claimed
    exact (probe_abreast known reached claimed.1).bind fun _ => ih claimed.2

/-- A run keeps its checks abreast of the chain, apart from claims that come from elsewhere. -/
theorem runProbed_abreast {before : List Probe} {schedule : Block → List Probe}
    (early : ∀ r ∈ before, r.ClaimedIn q) (later : ∀ b, ∀ r ∈ schedule b, r.ClaimedIn q)
    (first : Int) (last : Option Int) :
    KeepsAbreast q q (a.runProbed before schedule first last) := by
  have attentive : a.Attentive q q (some (a.prober schedule)) := fun b cs _ known reached =>
    probes_abreast known (fun c mem => reached c (List.mem_of_mem_filter mem)) (later b)
  exact ((probes_abreast (fun _ => id) nofun early).mapError _).bind fun _ =>
    runPipeline_abreast attentive first last

end Auditor

/-! ## Whole audits

An audit starts from nothing, so its first session mirrors the chain in front of the first
block. -/

namespace Audit

variable {σ : Type}

/-- The audit starts on an empty store that can be written, at a block of a history
from `genesis` to `tip`; without past balances that block is genesis. Nothing is
seeded, and whoever gives up aborts. -/
structure FromScratch (u : Audit σ) (site : Site σ) (network : Network) (genesis tip : Int) :
    Prop where
  ge : genesis ≤ u.config.startIndex.getD genesis
  le : u.config.startIndex.getD genesis ≤ tip
  opens : u.config.historicalBalanceDisabled = false ∨ u.config.startIndex.getD genesis = genesis
  listed : ∃ hs, loadHoldings (site.files.read? u.config.interestingAccounts) = .ok hs
  spared : ∃ hs, loadHoldings (site.files.read? u.config.exemptAccounts) = .ok hs
  unseeded : u.config.bootstrapBalances = none
  empty : ∃ disk store, site.files.disk (u.directory network) = .ok disk ∧
    disk.writable = true ∧ Store.openAt disk = .ok store ∧ store.ledger = {}
  surrender : site.world.surrender = .abort
  sound : site.world.cancellation.Sound

/-- What keeps an audit of a history up to `tip` from its verdict, if no comparison fails:
there is no index behind the last block, and the range does not end in front of it; or there
are more blocks than words from zero on. -/
inductive Unfinished (genesis tip : Int) (last : Option Int) : Overflow → Prop
  | brim (top : tip = Index.greatest) (inside : last.all (Index.greatest ≤ ·) = true) :
      Unfinished genesis tip last .next
  | far (many : Index.greatest < tip - genesis) : Unfinished genesis tip last .distance

/-- An audit from scratch starts its run on a session that mirrors the chain in front of the
first block. -/
theorem entered_mirrors {c : Chain} {genesis tip : Int} (adds : c.AddsUp genesis tip)
    (node : Node σ) {config : Config} (site : Site σ) {store : Store}
    (world : site.world.enter.Abortable) (empty : store.ledger = {})
    (opens : config.historicalBalanceDisabled = false ∨
      config.startIndex.getD genesis = genesis) (interesting exempt : List Holding) :
    Session.Mirrors ⟨node, Settings.ofConfig config interesting exempt⟩ c
      (session ⟨node, config⟩ site store).store (config.startIndex.getD genesis)
      (entered ⟨node, config⟩ site store) := by
  refine .start adds world ⟨?_, rfl⟩ (.refl _) empty (opens.imp_left fun enabled => ?_)
  · show (store.ledger.counted Counter.failedReconciliations.name).value = 0
    rw [empty]
    rfl
  · show (!config.historicalBalanceDisabled) = true
    rw [enabled]
    rfl

/-- A run that was cut short was aborted, met a sweep that broke down, or overflowed. Without
more blocks than words from zero on no sweep breaks down, so that it has a quiet verdict. -/
theorem quiet_of_cutShort {c : Chain} {genesis tip : Int} (adds : c.AddsUp genesis tip)
    {origin : Store} {last : Option Int} {stop : Stop PipelineError} {t : Session σ}
    (cut : t.CutShort c origin last Session.Mirrors.sweepBroke stop)
    (abreast : t.Abreast (fun i => genesis ≤ i ∧ i ≤ tip) fun _ => False) :
    (∃ cause, stop = .failed cause ∧
      (tip - genesis ≤ Index.greatest → (t.verdict (some cause)).Quiet)) ∨
      ∃ what, stop = .overflow what ∧ Unfinished genesis tip last what := by
  have near : t.Settled c origin → t.Untold → Index.greatest < tip - genesis :=
    fun settled untold => not_le.mp fun few => settled.told adds.spans abreast few untold
  cases cut with
  | aborted _ cause aborted =>
    exact .inl ⟨cause, rfl, fun _ => Session.verdict_quiet fun _ => aborted⟩
  | broke settled untold _ =>
    exact .inl ⟨_, rfl, fun few => absurd few (not_le.mpr (near settled untold))⟩
  | brim _ found inside =>
    have top := (adds.spans.only _ _ found).2
    exact .inr ⟨_, rfl, .brim (le_antisymm adds.spans.high top) inside⟩
  | untold settled untold => exact .inr ⟨_, rfl, .far (near settled untold)⟩

/-- What a whole audit comes to that finds nothing wrong. -/
theorem run_quiet_of_scratch {c : Chain} {genesis tip : Int} {network : Network}
    (adds : c.AddsUp genesis tip) (named : c.network = network) {node : Node σ}
    (relays : node.Relays c) {config : Config} {site : Site σ}
    (scratch : FromScratch ⟨node, config⟩ site network genesis tip) :
    (run ⟨node, config⟩).Ends site
      (fun v site' => (tip - genesis ≤ Index.greatest → v.Quiet) ∧
        ∃ l, site'.Stores (directory ⟨node, config⟩ network) l ∧
          (l.counted Counter.failedReconciliations.name).value = 0)
      (fun stop site' => ∃ what t, stop = .overflow what ∧
        Unfinished genesis tip config.endIndex what ∧ t.Quiet ∧
        site.Dropped site' (directory ⟨node, config⟩ network) t) := by
  obtain ⟨st, status, named', start⟩ := adds.spans.status (scratch.ge.trans scratch.le)
  rw [named] at named'
  obtain ⟨interesting, listed⟩ := scratch.listed
  obtain ⟨exempt, spared⟩ := scratch.spared
  obtain ⟨disk, store, placed, writable, opened, empty⟩ := scratch.empty
  obtain ⟨reply, signal⟩ := relays.status site.world.node
  rw [← named'] at placed ⊢
  -- The operator may abort while the node is asked for its status.
  have call : site.world.call node.status =
      (some (.ok st), (site.world.call node.status).2) :=
    Prod.ext (reply.trans (congrArg some status)) rfl
  have world := World.Abortable.enter_call scratch.surrender scratch.sound node.status signal
  generalize (site.world.call node.status).2 = w at call world
  obtain ⟨isOpen, _, works⟩ :=
    session_open ⟨node, config⟩ { site with world := w } opened writable
  have mirrors := entered_mirrors adds node { site with world := w } world empty scratch.opens
    interesting exempt
  have begins : firstIndex? ⟨node, config⟩ st.genesis store.ledger =
      some (config.startIndex.getD genesis) := by
    rw [empty, ← start]
    rfl
  have ends := mirrors.runPipeline_ends relays adds isOpen works
    (Auditor.harmless_checks relays isOpen) (.inl rfl) scratch.ge scratch.le config.endIndex
  -- No distance overflows in a run, since its checks do not run ahead of the chain.
  have abreast := (Auditor.runPipeline_abreast (q := fun i => genesis ≤ i ∧ i ≤ tip)
      (p := fun _ => False) (a := ⟨node, Settings.ofConfig config interesting exempt⟩)
      Auditor.attentive_observer (config.startIndex.getD genesis) config.endIndex).ends
    (fun _ _ keeps => keeps) (s := entered ⟨node, config⟩ { site with world := w } store)
    (.start ⟨rfl, rfl⟩ fun _ => False.elim)
  have quiets := run_ends (u := ⟨node, config⟩) call listed spared scratch.unseeded placed opened
    writable begins
    (Q := fun e t => t.Quiet ∧ (tip - genesis ≤ Index.greatest → (t.verdict e).Quiet))
    (O := fun what t => Unfinished genesis tip config.endIndex what ∧ t.Quiet)
    ((ends.and abreast).mono ?_ ?_) fun _ t ⟨quiet, _⟩ => by rw [quiet.recorder]
  · refine quiets.mono ?_ ?_
    · rintro _ site' ⟨e, t, rfl, ⟨quiet, few⟩, wrote⟩
      exact ⟨few, _, wrote.stores, quiet.unfailed⟩
    · rintro _ site' ⟨what, t, rfl, ⟨unfinished, quiet⟩, dropped⟩
      exact ⟨what, t, rfl, unfinished, quiet, dropped⟩
  · rintro _ t ⟨settled, _⟩
    exact ⟨⟨settled.quiet, fun _ => Session.verdict_quiet fun some => absurd rfl some⟩,
      settled.mode⟩
  · rintro stop t ⟨cut, abreast⟩
    have settled := cut.settled
    rcases quiet_of_cutShort adds cut abreast with ⟨cause, rfl, few⟩ | ⟨what, rfl, unfinished⟩
    · exact .inl ⟨cause, rfl, ⟨settled.quiet, few⟩, settled.mode⟩
    · exact .inr ⟨what, rfl, unfinished, settled.quiet⟩

/-- **No false alarm.** If all operations of a history are reported, no audit of it counts a
failure, whatever is left out of it by an abort or an overflow. It passes unless somebody
aborts it or it is to go on behind the greatest index, where it overflows; for the rest,
only more blocks than words from zero on could keep it from that. The same holds of every run,
whatever is checked between its commits, and it keeps no failure either. There a distance
may overflow as well, if holdings are taken to have been claimed outside the history. -/
theorem run_quiet {bs : List Block} {genesis : Int} {network : Network} {r : Recording}
    {c : Chain} (consecutive : Block.Consecutive bs genesis)
    (recorded : Recording.ofHistory? network bs = some r) (served : r.chain = .ok c)
    {node : Node σ} (relays : node.Relays c) {tip : Int} (ends : tip = genesis + bs.length - 1) :
    (∀ config site, FromScratch ⟨node, config⟩ site network genesis tip →
      (run ⟨node, config⟩).Ends site
        (fun v site' => (tip - genesis ≤ Index.greatest → v.Quiet) ∧
          ∃ l, site'.Stores (directory ⟨node, config⟩ network) l ∧
            (l.counted Counter.failedReconciliations.name).value = 0)
        (fun stop site' => ∃ what t, stop = .overflow what ∧
          Unfinished genesis tip config.endIndex what ∧ t.Quiet ∧
          site.Dropped site' (directory ⟨node, config⟩ network) t)) ∧
    ∀ settings first last before schedule s, Session.Blank s → genesis ≤ first → first ≤ tip →
      settings.lookup = true ∨ first = genesis →
      let x := Auditor.runProbed ⟨node, settings⟩ before schedule first last
      x.Ends s (fun _ t => t.Quiet ∧ (t.verdict none).Quiet)
        (fun stop t => t.Quiet ∧ t.Barred tip last stop) ∧
      (s.tracker = ∅ → tip - genesis ≤ Index.greatest →
        (∀ p ∈ before, p.ClaimedIn fun i => genesis ≤ i ∧ i ≤ tip) →
        (∀ b, ∀ p ∈ schedule b, p.ClaimedIn fun i => genesis ≤ i ∧ i ≤ tip) →
        ¬(x.eval s).2.Untold) := by
  have adds := Recording.addsUp_of_ofHistory? recorded consecutive served
  have named := (Recording.network_of_chain served).trans (Recording.ofHistory?_eq recorded).1
  rw [← ends] at adds
  refine ⟨fun config site scratch => run_quiet_of_scratch adds named relays scratch, ?_⟩
  intro settings first last before schedule s blank ge le opens x
  have quiet : s.Quiet := by
    refine ⟨?_, blank.recorder⟩
    unfold Session.counted
    rw [blank.ledger]
    rfl
  have mirrors : s.Mirrors ⟨node, settings⟩ c s.store first :=
    .start adds blank.world quiet (.refl _) blank.ledger opens
  -- Both parts on the probed run follow from its ends: quiet is carried by the mirror, told by
  -- the tracker.
  have probed := mirrors.runProbed_ends blank.calm relays adds blank.isOpen blank.works ge le before
    schedule last
  constructor
  · refine probed.mono ?_ ?_
    · intro _ t settled
      exact ⟨settled.quiet, Session.verdict_quiet fun some => absurd rfl some⟩
    · intro stop t cut
      -- Four ways to be cut off: aborted, at the last index, by a claim too far off, by broken
      -- sweeps.
      cases cut with
      | aborted settled cause aborted => exact ⟨settled.quiet, .aborted cause (if_pos aborted)⟩
      | brim settled found inside =>
        have top := (adds.spans.only _ _ found).2
        exact ⟨settled.quiet, .brim (le_antisymm adds.spans.high top) inside⟩
      | untold settled untold => exact ⟨settled.quiet, .untold untold⟩
      | broke settled untold failed => exact ⟨settled.quiet, .broke untold⟩
  · intro untracked few early later untold
    have abreast := (Auditor.runProbed_abreast (a := ⟨node, settings⟩) early later first last).keeps
      (.start ⟨untracked, blank.calm⟩ fun _ => .inl)
    have settled : (x.eval s).2.Settled c s.store := by
      rcases probed.outcome rfl with ⟨_, _, settled⟩ | ⟨_, _, cut⟩
      · exact settled
      · exact cut.settled
    exact settled.told adds.spans abreast few untold

/-- Beside this amount a whole one can be added by rounding only. -/
def brimful : Decimal := ⟨79228162514264337593543950335, 1, by decide, by decide⟩

/-- The sum, rounded to a whole amount. -/
def rounded : Decimal := .whole 7922816251426433759354395034

/-- A holding gets that amount, and then one more. -/
def rounding : List Block :=
  [.changing .alice ⟨0, "a"⟩ ⟨0, "a"⟩ [brimful], .changing .alice ⟨1, "b"⟩ ⟨0, "a"⟩ [.whole 1]]

/-- The chain of that history. -/
def rounds : Chain := .pair .alice 0 [brimful] [.whole 1] brimful rounded

/-- A rounded balance, checked before, between and behind the blocks. -/
theorem run_quiet_rounded :
    (∃ v site', (run ⟨rounds.node, { endIndex := some 1 }⟩).eval { world := { node := () } } =
      (.ok v, site') ∧ v.Quiet ∧ ∃ l,
        site'.Stores (directory ⟨rounds.node, { endIndex := some 1 }⟩ ⟨"bitcoin", "regtest"⟩) l ∧
        (l.counted Counter.failedReconciliations.name).value = 0) ∧
    ∃ t, (Auditor.runProbed ⟨rounds.node, {}⟩ [.due] (fun _ => [.holding .alice 0, .changes, .due])
        0 (some 1)).eval { world := World.enter { node := () }, store := .scratch } = (.ok (), t) ∧
      t.Quiet ∧ (t.verdict none).Quiet ∧ ¬t.Untold := by
  have consecutive : Block.Consecutive rounding 0 := by decide +kernel
  have recorded : Recording.ofHistory? ⟨"bitcoin", "regtest"⟩ rounding =
      some ⟨⟨"bitcoin", "regtest"⟩, rounding, [⟨.alice, 0, brimful⟩, ⟨.alice, 1, rounded⟩]⟩ := by
    decide +kernel
  have sound : Cancellation.Sound {} := fun _ mem => absurd mem List.not_mem_nil
  have served : Recording.chain
      ⟨⟨"bitcoin", "regtest"⟩, rounding, [⟨.alice, 0, brimful⟩, ⟨.alice, 1, rounded⟩]⟩ =
        .ok rounds := rfl
  have tip : (1 : Int) = 0 + rounding.length - 1 := rfl
  have quiet := run_quiet consecutive recorded served rounds.relays tip
  constructor
  · have scratch : FromScratch ⟨rounds.node, { endIndex := some 1 }⟩ { world := { node := () } }
        ⟨"bitcoin", "regtest"⟩ 0 1 := by
      refine ⟨by decide, by decide, .inl rfl, ⟨[], rfl⟩, ⟨[], rfl⟩, rfl, ?_, rfl, sound⟩
      exact ⟨_, _, Files.disk_of_empty rfl _, rfl, rfl, rfl⟩
    generalize ({ world := { node := () } } : Site Unit) = site at scratch ⊢
    rcases (quiet.1 _ _ scratch).outcome rfl with ⟨v, ran, few, stores⟩ | ⟨_, _, _, _, _, short, _⟩
    · exact ⟨v, _, Prod.ext ran rfl, few (by decide), stores⟩
    · cases short with
      | brim top => exact absurd top (by decide)
      | far many => exact absurd many (by decide)
  · have finished : ((Auditor.runProbed ⟨rounds.node, {}⟩ [.due]
        (fun _ => [.holding .alice 0, .changes, .due]) 0 (some 1)).eval
          { world := World.enter { node := () }, store := .scratch }).1 = .ok () := by
      decide +kernel
    have blank : Session.Blank { world := World.enter { node := () }, store := .scratch } :=
      ⟨⟨World.Orderly.enter (.inr sound), rfl⟩, rfl, rfl, rfl, rfl, rfl⟩
    have untracked :
        Session.tracker { world := World.enter { node := () }, store := .scratch } = ∅ := rfl
    generalize ({ world := World.enter { node := () }, store := .scratch } : Session Unit) = s
      at blank finished untracked ⊢
    obtain ⟨ends, told⟩ := quiet.2 {} 0 (some 1) [.due]
      (fun _ => [.holding .alice 0, .changes, .due]) s blank (by decide) (by decide) (.inl rfl)
    obtain ⟨silent, verdict⟩ := ends.of_ok (Prod.ext finished rfl)
    exact ⟨_, Prod.ext finished rfl, silent, verdict, told untracked (by decide)
      (by simp [Probe.ClaimedIn]) fun _ => by simp [Probe.ClaimedIn]⟩

/-- The last two blocks that a chain can have are recorded as any others. But an audit up to
the second one has no verdict. -/
theorem run_quiet_brim :
    let bs : List Block :=
      [.changing .alice ⟨Index.greatest - 1, "a"⟩ ⟨Index.greatest - 1, "a"⟩ [.whole 1],
        .changing .alice ⟨Index.greatest - 1 + 1, "b"⟩ ⟨Index.greatest - 1, "a"⟩ [.whole 1]]
    let u : Audit Unit :=
      ⟨Chain.brim.node, { endIndex := some Index.greatest, inactiveConcurrency := 0 }⟩
    Block.Consecutive bs (Index.greatest - 1) ∧
      (∃ r, Recording.ofHistory? ⟨"bitcoin", "regtest"⟩ bs = some r ∧ r.chain = .ok Chain.brim) ∧
      u.FromScratch { world := { node := () } } ⟨"bitcoin", "regtest"⟩ (Index.greatest - 1)
        Index.greatest ∧
      (u.run.eval { world := { node := () } }).1 = .error (.overflow .next) := by
  intro bs u
  refine ⟨by decide +kernel, ?_, ?_, by decide +kernel⟩
  · exact ⟨⟨⟨"bitcoin", "regtest"⟩, bs, [⟨.alice, Index.greatest - 1, .whole 1⟩,
      ⟨.alice, Index.greatest - 1 + 1, .whole 2⟩]⟩, by decide +kernel, rfl⟩
  · exact ⟨by decide, by decide, .inl rfl, ⟨[], rfl⟩, ⟨[], rfl⟩, rfl,
      ⟨_, _, Files.disk_of_empty rfl _, rfl, rfl, rfl⟩, rfl,
      fun _ mem => absurd mem List.not_mem_nil⟩

end Audit

end BalanceAudit
