import BalanceAudit.Proofs.Audit
import BalanceAudit.Proofs.Continued
import BalanceAudit.Proofs.Extent
import BalanceAudit.Proofs.Release
import BalanceAudit.Proofs.Sweep.Abreast

/-!
# Indices as words

Indices are words. The windows of a search stop at the limits of words, and are what they
would be among all integers. Everything else adds one to an index, or takes the difference
of two, and overflows where the result is no word: there is no index behind the greatest
one, and a check is too far behind the head only if there are more blocks than words from
zero on.

- `SearchWindow.Unlimited`: the windows that there would be among all integers;
  `SearchWindow.Sequence.unlimited`: those of a search are the same.
- `Store.InOrder`, `Store.commit_inOrder`: what a commit makes of a block behind a head.
- `Auditor.sync_within`: a run asks for no block outside its range.
- `Auditor.sync_inside`: one in front of the greatest index overflows no index;
  `Auditor.syncFrom_greatest`: one up to the greatest index never completes.
- `Audit.Calculates`, `Audit.indices_exact`: **where indices are right, and where they
  overflow**; `Audit.indices_run_over`: a run that does.
-/

namespace BalanceAudit

variable {σ : Type}

/-! ## Windows

The limits cut off nothing that a window between genesis and a word would have. -/

namespace SearchWindow

variable {observed step genesis : Int} {w : SearchWindow} {ws : List SearchWindow}

/-- The windows from `observed` back to genesis that there would be among all integers:
each reaches `step` blocks back, and ends where the one after it begins. All their ends are
words. -/
structure Unlimited (observed step genesis : Int) (ws : List SearchWindow) : Prop where
  begins : ws.head?.map (·.last) = some observed
  reaches : ∀ v ∈ ws, v.first = max (v.last - step) genesis
  meets : ws.IsChain fun later earlier => earlier.last = later.first
  ends : ws.getLast?.map (·.first) = some genesis
  words : ∀ v ∈ ws, Index.InRange v.first ∧ Index.InRange v.last

theorem Regular.words (regular : w.Regular step genesis) :
    Index.InRange w.first ∧ Index.InRange w.last := by
  have := regular.genesis_le
  have := w.first_le_last
  obtain ⟨_, low, high⟩ := regular
  exact ⟨⟨by omega, by omega⟩, by omega, high⟩

theorem Unlimited.cons {v : SearchWindow} {vs : List SearchWindow}
    (regular : w.Regular step genesis) (meets : v.last = w.first)
    (later : Unlimited v.last step genesis (v :: vs)) :
    Unlimited w.last step genesis (w :: v :: vs) where
  begins := rfl
  reaches := List.forall_mem_cons.mpr ⟨regular.reach, later.reaches⟩
  meets := .cons_cons meets later.meets
  ends := later.ends
  words := List.forall_mem_cons.mpr ⟨regular.words, later.words⟩

/-- The windows of a search are what they would be without limits. -/
theorem Sequence.unlimited (pos : 0 < step) (sequence : Sequence step genesis w ws)
    (regular : w.Regular step genesis) : Unlimited w.last step genesis ws := by
  induction sequence with
  | @last w nothing =>
    -- Nothing is left in front of the window only if it begins at genesis.
    have first : w.first = genesis := by
      rw [preceding?_eq regular pos] at nothing
      split at nothing
      · cases nothing
      · next beyond => exact le_antisymm (not_lt.mp beyond) regular.genesis_le
    exact ⟨rfl, List.forall_mem_singleton.mpr regular.reach, .singleton w, congrArg some first,
      List.forall_mem_singleton.mpr regular.words⟩
  | @earlier w w' ws before rest ih =>
    rw [preceding?_eq regular pos] at before
    split at before
    · next later =>
      cases before
      have unlimited := ih (regular.before_regular pos later)
      cases rest with
      | last _ => exact unlimited.cons regular rfl
      | earlier _ _ => exact unlimited.cons regular rfl
    · cases before

/-- There is a first window exactly if the step is positive and genesis is not ahead. -/
theorem exists_initial_iff (high : Index.InRange observed) (low : Index.InRange genesis) :
    (∃ w, initial observed step genesis = .ok w) ↔ 0 < step ∧ genesis ≤ observed := by
  constructor
  · rintro ⟨w, eq⟩
    rcases initial_cases step low.1 high.2 with ⟨e, invalid⟩ | ⟨pos, w', valid, last, regular⟩
    · cases invalid.symm.trans eq
    · refine ⟨pos, ?_⟩
      rw [← last]
      exact regular.genesis_le.trans w'.first_le_last
  · rintro ⟨pos, le⟩
    obtain ⟨w, eq, _⟩ := initial_eq pos low.1 high.2 le
    exact ⟨w, eq⟩

end SearchWindow

/-! ## Commits

A block behind the head has the next index, which the head of greatest index lacks. -/

namespace Store

variable {s : Store} {head : BlockId} {b : Batch}

/-- What a commit makes of a block behind a head, by its index. -/
structure InOrder (s : Store) (head : BlockId) (b : Batch) : Prop where
  /-- The successor is taken over and becomes the head. -/
  successor : head.index < Index.greatest → b.block.index = head.index + 1 →
    s.commit b =
        ({ s with ledger := s.ledger.apply b }.committed.1.mapError .failed,
          { s with ledger := s.ledger.apply b }.committed.2) ∧
      (s.commit b).2.ledger.head? = some b.block
  /-- Any other block is refused, and nothing changes. -/
  refused : head.index < Index.greatest → b.block.index ≠ head.index + 1 →
    s.commit b = (.error (.failed (.outOfOrder head b.block)), s)
  /-- Behind the greatest index every block overflows, and nothing changes. -/
  overflows : head.index = Index.greatest → s.commit b = (.error (.overflow .next), s)

theorem commit_inOrder (isOpen : s.closed = false) (within : s.ledger.InLimits)
    (found : s.ledger.head? = some head) : s.InOrder head b := by
  have word := within.head found
  refine ⟨fun below successor => ?_, fun below other => ?_, fun full => ?_⟩
  · have extends_ : ∀ head', s.ledger.head? = some head' →
        Index.next? head'.index = some b.block.index := by
      intro head' found'
      cases found.symm.trans found'
      rw [Index.next?_of_lt word below, successor]
    have eq := commit_eq_of_extends isOpen (extends?_eq_ok_iff.mpr extends_)
    refine ⟨eq, ?_⟩
    rw [eq, committed_ledger]
    refine Ledger.head?_apply fun head' found' => ?_
    cases found.symm.trans found'
    omega
  · refine commit_of_refused isOpen ?_
    rw [extends?, found]
    simp only [Index.next?_of_lt word below, if_neg other]
  · refine commit_of_refused isOpen ?_
    rw [extends?, found]
    simp only [(Index.next?_eq_none_iff word).mpr full]

end Store

namespace Auditor

variable {first last : Int}

/-! ## Runs

Up to the greatest index a run adds one to the index of each block it applied, and overflows
only there. -/

/-- A run up to a block asks for no block outside its range. -/
theorem sync_within (n : Node σ) (settings : Settings) {s : Session (σ × Trace)}
    (within : s.world.node.2.Within first last) :
    let a : Auditor (σ × Trace) := ⟨n.traced, settings⟩
    ((a.sync a.workers first (some last)).eval s).2.world.node.2.Within first last := by
  intro a
  refine (a.syncFrom_moves (p := { Scope.all with asks := fun i => first ≤ i ∧ i ≤ last })
    trivial trivial (fun _ _ => a.observer_moves trivial _ _) trivial trivial
    (fun i j asked next due => ⟨?_, Index.le_of_due due⟩) _ first
    fun due => ⟨le_refl first, Index.le_of_due due⟩).keeps
    (P := fun s => s.world.node.2.Within first last)
    (fun _ _ move => move.within fun _ allowed => allowed) within
  -- Behind an index comes a greater one.
  have := (Index.word?_eq_some_iff.mp next).2
  omega

/-- Whatever breaks a run off in front of the greatest index, no index overflows. -/
theorem BreaksOff.ne_overflow {a : Auditor σ} {s t : Session σ} {stop : Stop SyncError}
    (off : a.BreaksOff first s stop t) : stop ≠ .overflow .next := by
  cases off with
  | left cause => rcases cause with rfl | rfl | rfl <;> exact nofun
  | _ => exact nofun

/-- A run in front of the greatest index, behind the head of its store, stores the blocks of
its range and comes to its end, or stops for another cause than an index. -/
theorem sync_inside {a : Auditor σ} {s : Session σ} (indexed : a.node.Indexed)
    (word : Index.InRange first) (below : last < Index.greatest)
    (precedes : s.store.ledger.Precedes first) (works : s.store.canWrite = true)
    (still : s.sweepers.asleep = 0) :
    (a.sync a.workers first (some last)).Ends s
      (fun _ t => ∃ bs v, a.StoresUpTo first (max first (last + 1)) s v bs ∧ t = v.finish)
      (fun stop _ => stop ≠ .overflow .next) :=
  (syncFrom_extent indexed below _ first s word precedes works still).mono
    (fun _ _ ⟨bs, v, stores, same, _⟩ => ⟨bs, v, stores, same⟩) fun _ _ off => off.ne_overflow

/-- No word comes behind the greatest index, so that a run up to there never completes. -/
theorem syncFrom_greatest (a : Auditor σ) (workers : List (Worker σ)) (fuel : Nat) :
    ∀ (next : Int) (s : Session σ), next ≤ Index.greatest →
    (a.syncFrom workers (some Index.greatest) fuel next).Ends s (fun _ _ => False)
      (fun _ _ => True) := by
  induction fuel with
  | zero => exact fun _ _ _ => trivial
  | succ fuel ih =>
    intro next s le
    rw [syncFrom, if_neg (by simpa using le), Step.ends_bind, Step.ends_attempt]
    refine (Step.Ends.any _ s).mono (fun _ t _ => ?_) fun stop t _ => ?_
    · show Step.Ends (Step.within .next (Index.next? next) >>= _) t _ _
      rw [Step.ends_bind, Step.ends_within]
      refine ⟨fun after eq => ih after t ?_, fun _ => trivial⟩
      obtain ⟨word, rfl⟩ := Index.word?_eq_some_iff.mp eq
      exact word.2
    · cases stop with
      | idle => exact (a.canceledBefore_names next t).mono (fun _ _ h => h) fun _ _ _ => trivial
      | failed cause => trivial
      | overflow => trivial

end Auditor

/-! ## All places

The facts of the other modules, one field for each place where an index is calculated. -/

/-- What becomes of indices wherever an audit calculates with them. -/
structure Audit.Calculates (u : Audit σ) : Prop where
  /-- A search has windows exactly if its step is positive and genesis is not ahead. -/
  searches {observed step genesis : Int} (high : Index.InRange observed)
    (low : Index.InRange genesis) :
    (∃ w, SearchWindow.initial observed step genesis = .ok w) ↔ 0 < step ∧ genesis ≤ observed
  /-- They are those that there would be among all integers, up to both limits. -/
  windows {observed step genesis : Int} {w : SearchWindow} {ws : List SearchWindow}
    (high : Index.InRange observed) (low : Index.InRange genesis)
    (initial : SearchWindow.initial observed step genesis = .ok w)
    (sequence : SearchWindow.Sequence step genesis w ws) :
    SearchWindow.Unlimited observed step genesis ws
  /-- Behind a block that was applied a run goes on with the next integer, or overflows if
  that is no word. -/
  advances {settings : Settings} {workers : List (Worker σ)} {last : Option Int} {fuel : Nat}
    {next : Int} {s t : Session σ} (word : Index.InRange next) (due : ¬last.any (· < next) = true)
    (applied : (Auditor.applyBlock ⟨u.node, settings⟩ workers next).eval s = (.ok (), t)) :
    let a : Auditor σ := ⟨u.node, settings⟩
    (a.syncFrom workers last (fuel + 1) next).eval s =
      if next < Index.greatest then (a.syncFrom workers last fuel (next + 1)).eval t
      else (.error (.overflow .next), t)
  /-- Behind a head a commit accepts its successor and nothing else, and overflows if there
  is none. -/
  commits {s : Store} {head : BlockId} {b : Batch} (isOpen : s.closed = false)
    (within : s.ledger.InLimits) (found : s.ledger.head? = some head) : s.InOrder head b
  /-- A run resumes with the successor of the head, if there is one. -/
  resumes {genesis head : BlockId} {l : Ledger} (within : l.InLimits)
    (found : l.head? = some head) :
    u.firstIndex? genesis l = if head.index < Index.greatest then some (head.index + 1) else none
  /-- If there is none an audit overflows before its run. -/
  strands {settings : Settings} {genesis : BlockId} {site : Site σ} {store : Store}
    {head : BlockId} (isOpen : store.closed = false) (found : store.ledger.head? = some head)
    (full : head.index = Index.greatest) :
    (u.follow settings genesis none).eval (u.session site store) =
      (.error (.overflow .next), u.session site store)
  /-- However a run ends, no holding was checked ahead of the head, nor further behind it
  than there are blocks. The distance overflows exactly beyond the greatest word. -/
  due {settings : Settings} {first : Int} {last : Option Int} {s t : Session σ}
    {head : BlockId} {h : Holding} {tracked : Tracked} {checked : Int} (untried : s.Untried)
    (ran : ((Auditor.runPipeline ⟨u.node, settings⟩ first last).eval s).2 = t)
    (found : t.store.ledger.head? = some head)
    (held : t.tracker.find? h = some tracked) (noted : tracked.lastChecked = some checked) :
    checked ≤ head.index ∧ head.index - checked < t.store.ledger.blocks.entries.length ∧
      (Index.distance? head.index checked = some (head.index - checked) ↔
        head.index - checked ≤ Index.greatest)
  /-- So no claim overflows unless there are more blocks than words from zero on, -/
  claims {settings : Settings} {first frequency : Int} {last : Option Int} {s t : Session σ}
    {head : BlockId} (untried : s.Untried)
    (ran : ((Auditor.runPipeline ⟨u.node, settings⟩ first last).eval s).2 = t)
    (found : t.store.ledger.head? = some head)
    (overflows : t.tracker.claim? head.index frequency = none) :
    Index.greatest + 1 < (t.store.ledger.blocks.entries.length : Int)
  /-- and no sweep of a run breaks down over one. -/
  sweeps {settings : Settings} {first : Int} {last : Option Int} {s t : Session σ}
    (untried : s.Untried)
    (ran : ((Auditor.runPipeline ⟨u.node, settings⟩ first last).eval s).2 = t)
    (broke : t.sweepers.failure = some (Auditor.broken .distance)) :
    Index.greatest + 1 < (t.store.ledger.blocks.entries.length : Int)
  /-- A run up to a block asks for no block outside its range, whatever the node answers. -/
  stops {settings : Settings} {first last : Int} {s : Session (σ × Trace)}
    (untraced : s.world.node.2 = {}) :
    let a : Auditor (σ × Trace) := ⟨u.node.traced, settings⟩
    ((a.sync a.workers first (some last)).eval s).2.world.node.2.Within first last
  /-- If it ends in front of the greatest index and starts behind the head of its store, no
  index overflows, and if it completes, the blocks of the range are stored. -/
  completes {settings : Settings} {first last : Int} {s : Session σ} (indexed : u.node.Indexed)
    (word : Index.InRange first) (below : last < Index.greatest)
    (precedes : s.store.ledger.Precedes first) (works : s.store.canWrite = true)
    (still : s.sweepers.asleep = 0) :
    let a : Auditor σ := ⟨u.node, settings⟩
    (a.sync a.workers first (some last)).Ends s
      (fun _ t => ∃ bs v, a.StoresUpTo first (max first (last + 1)) s v bs ∧ t = v.finish)
      (fun stop _ => stop ≠ .overflow .next)
  /-- A run up to the greatest index never completes. -/
  overruns {settings : Settings} {workers : List (Worker σ)} {first : Int} {s : Session σ}
    (word : Index.InRange first) :
    ((Auditor.sync ⟨u.node, settings⟩ workers first (some Index.greatest)).eval s).1 ≠ .ok ()

namespace Audit

/-- **Where indices are right, and where they overflow.** Windows are right everywhere. A
run that ends in front of the greatest index keeps to its range, and no index overflows. Behind
the greatest index a run cannot go on or resume, and a commit accepts no block: the next index
overflows. The distance from a check to the head does so only over more blocks than that. -/
theorem indices_exact (u : Audit σ) : u.Calculates where
  searches := SearchWindow.exists_initial_iff
  windows {observed step genesis w ws} high low initial sequence := by
    rcases SearchWindow.initial_cases step low.1 high.2 with
      ⟨e, invalid⟩ | ⟨pos, w', valid, rfl, regular⟩
    · cases invalid.symm.trans initial
    · cases valid.symm.trans initial
      exact sequence.unlimited pos regular
  advances {settings workers last fuel next s t} word due applied := by
    intro a
    rw [Auditor.syncFrom_of_applyBlock workers due applied]
    by_cases below : next < Index.greatest
    · rw [if_pos below, Index.next?_of_lt word below]
      rfl
    · have full : next = Index.greatest := le_antisymm word.2 (not_lt.mp below)
      rw [if_neg below, (Index.next?_eq_none_iff word).mpr full]
      rfl
  commits := Store.commit_inOrder
  resumes {genesis head l} within found := by
    rw [firstIndex?, found]
    have word := within.head found
    by_cases below : head.index < Index.greatest
    · rw [if_pos below]
      exact Index.next?_of_lt word below
    · rw [if_neg below]
      exact (Index.next?_eq_none_iff word).mpr (le_antisymm word.2 (not_lt.mp below))
  strands {settings genesis site store head} isOpen found full := by
    refine follow_of_astray isOpen ?_
    rw [firstIndex?, found]
    show Index.next? head.index = none
    rw [full]
    exact Index.next?_greatest
  due {settings first last s t head h tracked checked} untried ran found held noted := by
    have abreast := Auditor.abreast_of_untried ⟨u.node, settings⟩ first last untried ran
    have attains := (abreast.checked h tracked checked held noted).resolve_left id
    -- A noted index was a head of this run: the difference is not negative, and less than the
    -- number of stored blocks.
    obtain ⟨behind, near⟩ := attains.near found
    refine ⟨behind, near, ?_⟩
    rw [Index.distance?, Index.word?_eq_some_iff, and_iff_left rfl]
    exact ⟨And.right, fun high => ⟨(by decide : Index.least ≤ 0).trans (by omega), high⟩⟩
  claims {settings first frequency last s t head} untried ran found overflows := by
    by_contra few
    have abreast := Auditor.abreast_of_untried ⟨u.node, settings⟩ first last untried ran
    exact Tracker.claim?_eq_none_iff.mp overflows
      (abreast.told found (fun _ => False.elim) (not_lt.mp few))
  sweeps {settings first last s t} untried ran broke := by
    have abreast := Auditor.abreast_of_untried ⟨u.node, settings⟩ first last untried ran
    rcases abreast.broke broke with ⟨_, impossible⟩ | many
    · exact impossible.elim
    · exact many
  stops {settings first last s} untraced := by
    refine Auditor.sync_within u.node settings ?_
    rw [untraced]
    intro run mem
    cases mem
  completes indexed word below precedes works still :=
    Auditor.sync_inside indexed word below precedes works still
  overruns {settings workers first s} word := by
    intro completes
    exact (Auditor.syncFrom_greatest ⟨u.node, settings⟩ workers (Index.count + 1) first s
      word.2).of_ok (Prod.ext completes rfl)

/-- A search through all indices in steps of the greatest one, the last head that has a
successor and the one that has none, a run that completes with its one check at the head, and
one that fails within its range. -/
theorem indices_exact_limits :
    let u : Audit Unit := ⟨Chain.gap.node, {}⟩
    let below : Store := { ledger := { blocks := Table.ofList [(Index.greatest - 1, "below")] } }
    let full : Store := { ledger := { blocks := Table.ofList [(Index.greatest, "top")] } }
    let top : Batch := { block := ⟨Index.greatest, "top"⟩ }
    let a : Auditor Unit := ⟨u.node, {}⟩
    let s : Session Unit := { world := World.enter { node := () }, store := {} }
    let t := ((a.runPipeline 0 (some 0)).eval s).2
    let v := ((a.sync a.workers 0 (some 0)).eval s).2
    let a' : Auditor (Unit × Trace) := ⟨u.node.traced, {}⟩
    let s' : Session (Unit × Trace) := { world := World.enter { node := ((), {}) }, store := {} }
    (∃ w w' w'', SearchWindow.initial Index.greatest Index.greatest Index.least = .ok w ∧
      [w, w', w''].map (·.first) = [0, -Index.greatest, Index.least] ∧
      SearchWindow.Unlimited Index.greatest Index.greatest Index.least [w, w', w'']) ∧
    (below.commit top).2.ledger.head? = some top.block ∧
    full.commit top = (.error (.overflow .next), full) ∧
    u.firstIndex? ⟨0, "a"⟩ below.ledger = some Index.greatest ∧
    (u.follow {} ⟨0, "a"⟩ none).eval (u.session { world := { node := () } } full) =
      (.error (.overflow .next), u.session { world := { node := () } } full) ∧
    ((t.tracker.find? .alice).bind (·.lastChecked) = some 0 ∧
      Index.distance? 0 0 = some (0 - 0) ∧ (0 : Int) < t.store.ledger.blocks.entries.length) ∧
    (∃ bs w, a.StoresUpTo 0 1 s w bs ∧ v = w.finish) ∧
    ((a'.sync a'.workers 0 (some 1)).eval s').2.world.node.2.Within 0 1 ∧
    ((a.sync a.workers 0 (some Index.greatest)).eval s).1 ≠ .ok () := by
  intro u below full top a s t v a' s'
  have facts := indices_exact u
  have within : below.ledger.InLimits := ⟨by decide, nofun⟩
  have within' : full.ledger.InLimits := ⟨by decide, nofun⟩
  have head : below.ledger.head? = some ⟨Index.greatest - 1, "below"⟩ := by decide +kernel
  have head' : full.ledger.head? = some ⟨Index.greatest, "top"⟩ := by decide +kernel
  refine ⟨?_, ?_, ?_, ?_, ?_, ?_, ?_, facts.stops rfl, facts.overruns (by decide)⟩
  · let w : SearchWindow := ⟨0, Index.greatest, by decide⟩
    let w' : SearchWindow := ⟨-Index.greatest, 0, by decide⟩
    let w'' : SearchWindow := ⟨Index.least, -Index.greatest, by decide⟩
    have initial : SearchWindow.initial Index.greatest Index.greatest Index.least = .ok w := rfl
    have middle : w.preceding? Index.greatest Index.least = some w' := rfl
    have earliest : w'.preceding? Index.greatest Index.least = some w'' := rfl
    exact ⟨w, w', w'', initial, rfl, facts.windows (by decide) (by decide) initial
      (.earlier middle (.earlier earliest (.last rfl)))⟩
  · exact ((facts.commits rfl within head).successor (by decide) rfl).2
  · exact (facts.commits rfl within' head').overflows rfl
  · exact facts.resumes within head
  · exact facts.strands rfl head' rfl
  · have checked : (t.tracker.find? .alice).bind (·.lastChecked) = some 0 := by decide +kernel
    obtain ⟨tracked, held, noted⟩ := Option.bind_eq_some_iff.mp checked
    have tip : t.store.ledger.head? = some ⟨0, "a"⟩ := by decide +kernel
    obtain ⟨_, near, told⟩ := facts.due (s := s) (t := t) ⟨rfl, rfl⟩ rfl tip held noted
    exact ⟨checked, told.mpr (by decide), near⟩
  · have indexed : u.node.Indexed := Chain.gap_spans.keyed.indexed
    have ran : (a.sync a.workers 0 (some 0)).eval s = (.ok (), v) :=
      Prod.ext (by decide +kernel) rfl
    exact (facts.completes (s := s) indexed (by decide) (by decide) nofun rfl rfl).of_ok ran

/-- The last two blocks that a chain can have. A run up to the second one stores both, but
neither completes nor cancels its shutdown token: the index behind it overflows. So does any
commit on the store then, and there is no index for the next run to resume with. -/
theorem indices_run_over :
    let u : Audit Unit := ⟨Chain.brim.node, {}⟩
    let a : Auditor (Unit × Trace) := ⟨u.node.traced, {}⟩
    let s : Session (Unit × Trace) := { world := World.enter { node := ((), {}) }, store := {} }
    let b : Batch := { block := ⟨Index.least, "c"⟩ }
    let run := (a.sync [] (Index.greatest - 1) (some Index.greatest)).eval s
    let store := run.2.store
    run.1 = .error (.overflow .next) ∧
      run.2.world.cancellation.isCanceled run.2.shutdown = false ∧
      run.2.world.node.2.runs = [(Index.greatest - 1, Index.greatest)] ∧
      store.ledger.head? = some ⟨Index.greatest, "b"⟩ ∧
      (store.commit b).1 = .error (.overflow .next) ∧
      u.firstIndex? b.block store.ledger = none := by
  intro u a s b run store
  refine ⟨?_, ?_, ?_, ?_, ?_, ?_⟩
  all_goals decide +kernel

end Audit

end BalanceAudit
