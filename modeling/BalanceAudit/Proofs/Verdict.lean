import BalanceAudit.Proofs.Audit
import BalanceAudit.Proofs.Chain.TwoBlocks
import BalanceAudit.Proofs.Pipeline

/-!
# The verdict on a range

An audit of a bounded range says exactly what the blocks of the range call for,
and the store ends at the first block that is bad. Only a clean range up to the greatest
index gets no verdict, because the index behind it overflows.

- `Chain.Clean`: no block of a range is bad; `Chain.Calls`: the verdict for it.
- `Audit.Bounded`: an audit of a range, from an empty store, that checks all of it.
- `Audit.run_cases`: what it comes to.
- `Audit.run_calls`: **the verdict is the one that the range calls for**, and when there is
  none; `Audit.run_brim`: a range without one.
-/

namespace BalanceAudit

/-! ## What a range calls for

The verdict is read off the chain: a failure where it has a bad block, success where some
operation was checked, and nothing checked where there is none. -/

namespace Chain

/-- No block of the range has a holding whose balance is not the one that the
operations of the range lead to. -/
def Clean (c : Chain) (first last : Int) : Prop := c.Faultless (fun _ => True) first last

/-- The verdict that the blocks of a range call for. -/
structure Calls (c : Chain) (first last : Int) (v : Verdict) : Prop where
  passed : v = .passed ↔
    c.Clean first last ∧ ∃ b ∈ c.segment first last, b.operations ≠ []
  unchecked : v = .passedUnchecked ↔ ∀ b ∈ c.segment first last, b.operations = []
  failed : (∃ reason, v = .failed reason) ↔ ¬c.Clean first last

variable {c : Chain} {first last : Int}

/-- Without operations there is nothing to be wrong about. -/
theorem clean_of_silent (silent : ∀ b ∈ c.segment first last, b.operations = []) :
    c.Clean first last := by
  rintro b mem ⟨h, _, reports, _⟩
  rw [Block.reports_iff, silent b mem] at reports
  cases reports

theorem calls_of_clean (clean : c.Clean first last) :
    c.Calls first last .passed ∧ (∃ b ∈ c.segment first last, b.operations ≠ []) ∨
      c.Calls first last .passedUnchecked ∧ ∀ b ∈ c.segment first last, b.operations = [] := by
  by_cases some : ∃ b ∈ c.segment first last, b.operations ≠ []
  · refine .inl ⟨⟨?_, ?_, ?_⟩, some⟩
    · simp [clean, some]
    · constructor
      · exact nofun
      · intro silent
        obtain ⟨b, mem, operations⟩ := some
        exact absurd (silent b mem) operations
    · simp [clean]
  · have silent : ∀ b ∈ c.segment first last, b.operations = [] := by
      intro b mem
      by_contra operations
      exact some ⟨b, mem, operations⟩
    refine .inr ⟨⟨?_, ?_, ?_⟩, silent⟩
    · simp [some]
    · simpa using silent
    · simp [clean]

theorem calls_failed (bad : ¬c.Clean first last) (reason : String) :
    c.Calls first last (.failed reason) := by
  refine ⟨?_, ?_, ?_⟩
  · simp [bad]
  · constructor
    · exact nofun
    · intro silent
      exact absurd (clean_of_silent silent) bad
  · simp [bad]

end Chain

namespace Audit

/-- The audit covers the range from `first` to `last` on an empty store that can be
written. It checks every change against past balances and sweeps nothing, the
first failure ends it, and nobody has aborted. -/
structure Bounded (u : Audit Unit) (site : Site Unit) (st : NetworkStatus) (first last : Int) :
    Prop where
  start : u.config.startIndex.getD st.genesis.index = first
  stop : u.config.endIndex = some last
  enabled : u.config.reconciliationDisabled = false
  active : u.config.activeConcurrency ≠ 0
  inactive : u.config.inactiveConcurrency = 0
  lookup : u.config.historicalBalanceDisabled = false
  halting : u.config.ignoreReconciliationError = false
  listed : ∃ hs, loadHoldings (site.files.read? u.config.interestingAccounts) = .ok hs
  spared : loadHoldings (site.files.read? u.config.exemptAccounts) = .ok []
  unseeded : u.config.bootstrapBalances = none
  empty : ∃ disk store, site.files.disk (u.directory st.network) = .ok disk ∧
    disk.writable = true ∧ Store.openAt disk = .ok store ∧ store.ledger = {}
  running : site.world.cancellation.aborted = false
  sound : site.world.cancellation.Sound

section Range

variable {c : Chain} {config : Config} {site : Site Unit} {st : NetworkStatus} {first last : Int}
  {interesting : List Holding} {store : Store}

/-- The settings check everything. -/
theorem Bounded.watchful (bounded : Bounded ⟨c.node, config⟩ site st first last) :
    (Settings.ofConfig config interesting []).Watchful := by
  have enabled : config.reconciliationDisabled = false := bounded.enabled
  have lookup : config.historicalBalanceDisabled = false := bounded.lookup
  have halting : config.ignoreReconciliationError = false := bounded.halting
  refine ⟨?_, bounded.active, bounded.inactive, fun h => rfl, ?_, ?_⟩
  · show (!config.reconciliationDisabled) = true
    rw [enabled]
    rfl
  · show (!config.historicalBalanceDisabled) = true
    rw [lookup]
    rfl
  · show (!config.ignoreReconciliationError) = true
    rw [halting]
    rfl

/-- How the run over the range ended: it is done and clean, or failed with the
first bad block as the head. -/
def Followed (c : Chain) (first last : Int) (error : Option PipelineError) (t : Session Unit) :
    Prop :=
  t.recorder.inactive = none ∧ t.world.cancellation.aborted = false ∧
    ((last < first ∨ last < Index.greatest) ∧ c.Clean first last ∧ error = none ∧
        (t.store.ledger.reconciliations.value ≠ 0 ↔
          ∃ b ∈ c.segment first last, b.operations ≠ []) ∨
      ∃ b cause, c.FirstFaulty (fun _ => True) first last b ∧ error = some cause ∧
        t.store.ledger.head? = some b.id)

/-- The range is clean, but there is no index behind it. -/
def Exhausted (c : Chain) (first last : Int) : Prop :=
  first ≤ last ∧ last = Index.greatest ∧ c.Clean first last

/-- Without sweeps the active checks are all. -/
theorem reconciliations_ne_zero {t : Session Unit}
    (swept : t.counted .inactiveReconciliations = 0) :
    t.store.ledger.reconciliations.value ≠ 0 ↔ t.counted .activeReconciliations ≠ 0 := by
  have value : t.store.ledger.reconciliations.value =
      min (t.counted .activeReconciliations + t.counted .inactiveReconciliations)
        Count.greatest := rfl
  have positive : 0 < Count.greatest := by decide
  rw [value, swept]
  omega

theorem reports_iff_operations {bs : List Block} :
    (∃ b ∈ bs, ∃ h : Holding, True ∧ b.reports h = true) ↔ ∃ b ∈ bs, b.operations ≠ [] := by
  constructor
  · rintro ⟨b, mem, h, _, reports⟩
    refine ⟨b, mem, fun none => ?_⟩
    rw [Block.reports_iff, none] at reports
    cases reports
  · rintro ⟨b, mem, some⟩
    obtain ⟨op, here⟩ := List.exists_mem_of_ne_nil _ some
    exact ⟨b, mem, op.holding, trivial, Block.reports_iff.mpr (List.mem_map.mpr ⟨op, here, rfl⟩)⟩

section

variable {a : Auditor Unit} {s t : Session Unit} {b : Block}

/-- A run over an empty range has checked nothing. -/
theorem Followed.of_lt (lt : last < first) (clear : t.recorder.inactive = none)
    (running : t.world.cancellation.aborted = false)
    (unchecked : ∀ counter, t.counted counter = 0) : Followed c first last none t := by
  have nothing : c.segment first last = [] := Chain.segment_of_lt lt
  refine ⟨clear, running, .inl ⟨.inl lt, fun b mem => ?_, rfl, ?_⟩⟩
  · rw [nothing] at mem
    cases mem
  · rw [reconciliations_ne_zero (unchecked _), nothing, unchecked]
    simp

/-- A run that is done has checked whatever the blocks of the range report. -/
theorem Followed.of_finished (everything : a.Watches = fun _ => True)
    (fin : a.Finished c first last s t) (below : last < Index.greatest)
    (clear : s.recorder.inactive = none) (running : s.world.cancellation.aborted = false)
    (unswept : s.counted .inactiveReconciliations = 0) : Followed c first last none t := by
  have clean := fin.clean
  have checked := fin.checked
  rw [everything] at clean checked
  refine ⟨by rw [fin.recorder]; exact clear, fin.after.aborted.trans running,
    .inl ⟨.inr below, clean, rfl, ?_⟩⟩
  rw [reconciliations_ne_zero (fin.swept.trans unswept), ← reports_iff_operations]
  exact checked

/-- A run that failed has the first bad block as its head. -/
theorem Followed.of_stopped (everything : a.Watches = fun _ => True)
    (stopped : a.Stopped c first last s b t) (clear : s.recorder.inactive = none)
    (running : s.world.cancellation.aborted = false) (cause : PipelineError) :
    Followed c first last (some cause) t := by
  obtain ⟨f, _, _, recorder⟩ := stopped.recorder
  have fault := stopped.fault
  rw [everything] at fault
  exact ⟨by rw [recorder]; exact clear, stopped.after.aborted.trans running,
    .inr ⟨b, cause, fault, rfl, stopped.head⟩⟩

end

/-- **The run over the range**, under a token of its own. -/
theorem Bounded.runPipeline_ends (bounded : Bounded ⟨c.node, config⟩ site st first last)
    (interesting : List Holding) (linked : c.Linked first last) (exact_ : c.ExactSums first last)
    (low : Index.least ≤ first) (high : last ≤ Index.greatest)
    (isOpen : (session ⟨c.node, config⟩ site store).store.closed = false)
    (works : (session ⟨c.node, config⟩ site store).store.canWrite = true)
    (empty : store.ledger = {}) :
    (Auditor.runPipeline ⟨c.node, Settings.ofConfig config interesting []⟩ first (some last)).Ends
      (entered ⟨c.node, config⟩ site store)
      (fun _ t => Followed c first last none t ∧
        (session ⟨c.node, config⟩ site store).store.SameMode t.store)
      (fun stop t =>
        (∃ cause, stop = .failed cause ∧ Followed c first last (some cause) t ∧
          (session ⟨c.node, config⟩ site store).store.SameMode t.store) ∨
        ∃ what, stop = .overflow what ∧ what = .next ∧ Exhausted c first last) := by
  have everything :
      Auditor.Watches (⟨c.node, Settings.ofConfig config interesting []⟩ : Auditor Unit)
        = fun _ => True := by
    funext h
    exact eq_true rfl
  obtain ⟨calm, running, _⟩ := World.enter_fresh bounded.running bounded.sound
  have start : ∀ counter, (entered ⟨c.node, config⟩ site store).counted counter = 0 := by
    intro counter
    show (store.ledger.counted counter.name).value = 0
    rw [empty]
    rfl
  have clear : (entered ⟨c.node, config⟩ site store).recorder.inactive = none := rfl
  -- An empty range checks nothing and ends; any other starts from a fresh session.
  by_cases lt : last < first
  · refine (Auditor.runPipeline_ends_of_lt (s := entered ⟨c.node, config⟩ site store)
      (a := ⟨c.node, Settings.ofConfig config interesting []⟩) bounded.watchful.enabled isOpen
      lt).mono ?_ fun _ _ h => h.elim
    rintro _ t ⟨same, recorder, after⟩
    refine ⟨.of_lt lt (by rw [recorder]; exact clear) (after.aborted.trans running) ?_, after.mode⟩
    intro counter
    rw [← start counter]
    unfold Session.counted
    rw [same]
  · have fresh : (entered ⟨c.node, config⟩ site store).Fresh :=
      ⟨empty, isOpen, works, rfl, rfl, rfl, calm⟩
    refine (Auditor.runPipeline_ends bounded.watchful c.recites fresh linked exact_ low high
      (by omega)).mono ?_ ?_
    · rintro _ t ⟨below, fin⟩
      exact ⟨.of_finished everything fin below clear running (start _), fin.after.mode⟩
    · rintro _ t (⟨b, cause, rfl, stopped⟩ | ⟨full, rfl, fin⟩)
      · exact .inl ⟨cause, rfl, .of_stopped everything stopped clear running cause,
          stopped.after.mode⟩
      · have clean := fin.clean
        rw [everything] at clean
        exact .inr ⟨.next, rfl, rfl, by omega, full, clean⟩

/-- What the audit comes to: a clean range passes, a bad one fails with its first
bad block as the stored head, and behind the greatest index the audit overflows. -/
theorem run_cases (status : c.status = .ok st)
    (bounded : Bounded ⟨c.node, config⟩ site st first last) (linked : c.Linked first last)
    (exact_ : c.ExactSums first last) (low : Index.least ≤ first) (high : last ≤ Index.greatest) :
    (run ⟨c.node, config⟩).Ends site
      (fun v site' =>
        (last < first ∨ last < Index.greatest) ∧ c.Clean first last ∧ c.Calls first last v ∨
        ∃ b l reason, v = .failed reason ∧ c.FirstFaulty (fun _ => True) first last b ∧
          site'.Stores (directory ⟨c.node, config⟩ st.network) l ∧ l.head? = some b.id)
      (fun stop _ => stop = .overflow .next ∧ Exhausted c first last) := by
  obtain ⟨disk, store, placed, writable, opened, empty⟩ := bounded.empty
  obtain ⟨interesting, listed⟩ := bounded.listed
  obtain ⟨isOpen, _, works⟩ := session_open ⟨c.node, config⟩ site opened writable
  have begins : firstIndex? ⟨c.node, config⟩ st.genesis store.ledger = some first := by
    rw [empty]
    exact congrArg some bounded.start
  have stop : config.endIndex = some last := bounded.stop
  have run := bounded.runPipeline_ends interesting linked exact_ low high isOpen works empty
  rw [← stop] at run
  refine (run_ends (O := fun what _ => what = .next ∧ Exhausted c first last)
    (Chain.call_status status site.world) listed bounded.spared bounded.unseeded placed opened
    writable begins run fun _ _ followed => followed.1).mono ?_ ?_
  · rintro _ site' ⟨e, t, rfl, ⟨_, running, ends⟩, wrote⟩
    unfold Session.verdict
    rw [running, if_neg Bool.false_ne_true]
    rcases ends with ⟨small, clean, rfl, checked⟩ | ⟨b, cause, fault, rfl, head⟩
    · refine .inl ⟨small, clean, ?_⟩
      show c.Calls first last t.store.ledger.verdict
      unfold Ledger.verdict
      rcases Chain.calls_of_clean clean with ⟨calls, some⟩ | ⟨calls, silent⟩
      · rw [if_neg (checked.mpr some)]
        exact calls
      -- A clean range without operations has nothing to reconcile, which is what the verdict
      -- counts.
      · have zero : t.store.ledger.reconciliations.value = 0 := by
          by_contra some
          obtain ⟨b, mem, operations⟩ := checked.mp some
          exact operations (silent b mem)
        rw [if_pos zero]
        exact calls
    · exact .inr ⟨b, _, cause.message, rfl, fault, wrote.stores, head⟩
  · rintro _ site' ⟨_, t, rfl, ⟨rfl, exhausted⟩, _⟩
    exact ⟨rfl, exhausted⟩

/-- **The verdict is the one that the range calls for**, and if a block is bad the first
one that is becomes the stored head. Only a range without a bad block that ends at the
greatest index has no verdict: the index behind it overflows. -/
theorem run_calls (status : c.status = .ok st)
    (bounded : Bounded ⟨c.node, config⟩ site st first last) (linked : c.Linked first last)
    (exact_ : c.ExactSums first last) (low : Index.least ≤ first) (high : last ≤ Index.greatest) :
    (last < first ∨ last < Index.greatest ∨ ¬c.Clean first last →
      ∃ v site', (run ⟨c.node, config⟩).eval site = (.ok v, site') ∧ c.Calls first last v ∧
        (¬c.Clean first last → ∃ b l, c.FirstFaulty (fun _ => True) first last b ∧
          site'.Stores (directory ⟨c.node, config⟩ st.network) l ∧ l.head? = some b.id)) ∧
    (first ≤ last → last = Index.greatest → c.Clean first last →
      ((run ⟨c.node, config⟩).eval site).1 = .error (.overflow .next)) := by
  have cases := run_cases status bounded linked exact_ low high
  rcases eq : (run ⟨c.node, config⟩).eval site with ⟨stop | v, site'⟩
  · obtain ⟨rfl, le, full, clean⟩ := cases.of_error eq
    refine ⟨?_, fun _ _ _ => rfl⟩
    rintro (lt | below | bad)
    · exact absurd lt (not_lt.mpr le)
    · exact absurd full below.ne
    · exact absurd clean bad
  · rcases cases.of_ok eq with ⟨small, clean, calls⟩ | ⟨b, l, reason, rfl, fault, stores, head⟩
    · refine ⟨fun _ => ⟨v, site', rfl, calls, fun bad => absurd clean bad⟩, fun le full _ => ?_⟩
      rcases small with lt | below
      · exact absurd lt (not_lt.mpr le)
      · exact absurd full below.ne
    -- A first faulty block contradicts a clean range, so this is the verdict of failure.
    · have bad := fault.not_faultless
      exact ⟨fun _ => ⟨_, site', rfl, Chain.calls_failed bad reason, fun _ =>
        ⟨b, l, fault, stores, head⟩⟩, fun _ _ clean => absurd clean bad⟩

/-- An audit with the default settings and without sweeps. -/
theorem bounded_default (c : Chain) (st : NetworkStatus) (last : Int) :
    Bounded ⟨c.node, { endIndex := some last, inactiveConcurrency := 0 }⟩
      { world := { node := () } } st st.genesis.index last where
  start := rfl
  stop := rfl
  enabled := rfl
  active := Nat.succ_ne_zero 7
  inactive := rfl
  lookup := rfl
  halting := rfl
  listed := ⟨[], rfl⟩
  spared := rfl
  unseeded := rfl
  empty := ⟨_, _, Files.disk_of_empty rfl _, rfl, rfl, rfl⟩
  running := rfl
  sound := fun _ mem => absurd mem List.not_mem_nil

/-- An audit of two blocks of which the second one lacks an operation. -/
theorem run_calls_gap :
    ∃ v site', (run ⟨Chain.gap.node, { endIndex := some 1, inactiveConcurrency := 0 }⟩).eval
        { world := { node := () } } = (.ok v, site') ∧ Chain.gap.Calls 0 1 v ∧
      (¬Chain.gap.Clean 0 1 → ∃ b l, Chain.gap.FirstFaulty (fun _ => True) 0 1 b ∧
        site'.Stores (directory ⟨Chain.gap.node,
          { endIndex := some 1, inactiveConcurrency := 0 }⟩ ⟨"bitcoin", "regtest"⟩) l ∧
        l.head? = some b.id) := by
  have bounded : Bounded ⟨Chain.gap.node, { endIndex := some 1, inactiveConcurrency := 0 }⟩
      { world := { node := () } } ⟨⟨"bitcoin", "regtest"⟩, ⟨0, "a"⟩, ⟨0 + 1, "b"⟩⟩ 0 1 :=
    bounded_default _ _ 1
  have status : Chain.gap.status =
      .ok ⟨⟨"bitcoin", "regtest"⟩, ⟨0, "a"⟩, ⟨0 + 1, "b"⟩⟩ := rfl
  have linked : Chain.gap.Linked 0 1 := Chain.gap_spans.linked
  have sums : Chain.gap.ExactSums 0 1 := Chain.gap_exactSums 0 1
  exact (run_calls status bounded linked sums (by decide) (by decide)).1 (.inr (.inl (by decide)))

/-- At the greatest index an audit that finds nothing wrong has no verdict. -/
theorem run_brim :
    Chain.brim.Clean (Index.greatest - 1) Index.greatest ∧
      (∃ b ∈ Chain.brim.segment (Index.greatest - 1) Index.greatest, b.operations ≠ []) ∧
      ((run ⟨Chain.brim.node,
          { endIndex := some Index.greatest, inactiveConcurrency := 0 }⟩).eval
        { world := { node := () } }).1 = .error (.overflow .next) := by
  have clean : Chain.brim.Faultless (fun _ => True) (Index.greatest - 1) Index.greatest := by
    decide +kernel
  exact ⟨clean, by decide +kernel, by decide +kernel⟩

end Range

end Audit

end BalanceAudit
