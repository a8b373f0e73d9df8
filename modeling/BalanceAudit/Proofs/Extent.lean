import BalanceAudit.Proofs.Applied
import BalanceAudit.Proofs.Chain.TwoBlocks
import BalanceAudit.Proofs.Glance
import BalanceAudit.Proofs.Index
import BalanceAudit.Proofs.Outward
import BalanceAudit.Proofs.Store.Commit

/-!
# How far a run got

A run over a range stores its blocks one behind the other, and the error that ends it
tells which of them: an error of fetching or staging names the first block that is not
stored, and an error of a check the last one that is.

- `Node.Indexed`: the node answers for an index with blocks of that index only.
- `Session.Stays`, `Session.ByChecks`: what a run leaves alone, and what checks do.
- `Ledger.Precedes`: the block of an index may be committed, and comes behind all others.
- `Auditor.Enters`, `Auditor.Unentered`: a block that was stored with its whole batch, and
  one that was not.
- `Auditor.Stores`, `Auditor.StoresUpTo`: one block is new, or exactly those from one index
  up to another one.
- `Auditor.Partway`, `Auditor.BreaksOff`: where a run was left, and where it stops, by its
  error.
- `Auditor.applyBlock_extent`, `Auditor.syncFrom_extent`: that is how a block, and a run by
  induction on its blocks, ends.
- `Auditor.syncFrom_astray`: a run that does not continue the store leaves it alone.
- `Auditor.sync_extent`: **the error alone tells how far the store got**.
-/

namespace BalanceAudit

variable {σ : Type}

/-- Asked for an index the node answers with no block but the one of that index. -/
def Node.Indexed (n : Node σ) : Prop :=
  ∀ index v b, (n.block index v).1.reply = some (.ok (some b)) → b.id.index = index

theorem Chain.Keyed.indexed {c : Chain} (keyed : c.Keyed) : c.node.Indexed :=
  fun index v b reply => keyed.index index b (c.honest.block index v b reply)

/-! ## What a run leaves alone -/

/-- The store is used in the same way, and so are the sweepers and the shutdown token. -/
structure Session.Stays (s t : Session σ) : Prop where
  mode : s.store.SameMode t.store
  sweepers : t.sweepers = s.sweepers
  shutdown : t.shutdown = s.shutdown

theorem Session.Stays.trans {s t u : Session σ} (first : s.Stays t) (second : t.Stays u) :
    s.Stays u where
  mode := first.mode.trans second.mode
  sweepers := second.sweepers.trans first.sweepers
  shutdown := second.shutdown.trans first.shutdown

/-- The sessions differ at most in what checks do: the blocks and balances are the same,
and so are all counters but their own. -/
structure Session.ByChecks (s t : Session σ) : Prop where
  books : t.books = s.books
  counters : ∀ name, name ∉ Counter.ofChecks.map (·.name) →
    t.store.ledger.counted name = s.store.ledger.counted name
  stays : s.Stays t

namespace Session.ByChecks

variable {s t u : Session σ}

theorem refl (s : Session σ) : s.ByChecks s := ⟨rfl, fun _ _ => rfl, .refl _, rfl, rfl⟩

theorem trans (first : s.ByChecks t) (second : t.ByChecks u) : s.ByChecks u where
  books := second.books.trans first.books
  counters name other := (second.counters name other).trans (first.counters name other)
  stays := first.stays.trans second.stays

/-- When only the world moved on, less than that was done. -/
theorem of_later (later : s.Later t) : s.ByChecks t := by
  obtain ⟨_, _, rfl⟩ := later
  exact ⟨rfl, fun _ _ => rfl, .refl _, rfl, rfl⟩

theorem blocks (h : s.ByChecks t) : t.store.ledger.blocks = s.store.ledger.blocks :=
  (Prod.mk.inj h.books).1

theorem head? (h : s.ByChecks t) : t.store.ledger.head? = s.store.ledger.head? := by
  rw [Ledger.head?, h.blocks, Ledger.head?]

end Session.ByChecks

/-- Raising a counter of checks leaves the others. -/
theorem Session.counted_raise_of_ofChecks {s : Session σ} {c : Counter} (mem : c ∈ Counter.ofChecks)
    {name : String} (other : name ∉ Counter.ofChecks.map (·.name)) :
    (s.raise c).store.ledger.counted name = s.store.ledger.counted name := by
  show (s.store.ledger.increment c.name 1).counted name = _
  rw [Ledger.counted_increment, if_neg]
  rintro rfl
  exact other (List.mem_map_of_mem mem)

/-! ## Behind the head

As long as the first block stands right behind the head, or there is no head, the store
accepts each block of the run. -/

/-- The ledger is empty, or its head is the one before an index. -/
def Ledger.Precedes (l : Ledger) (index : Int) : Prop :=
  ∀ head, l.head? = some head → Index.InRange head.index ∧ head.index + 1 = index

namespace Ledger.Precedes

variable {l : Ledger} {index : Int}

theorem behind (precedes : l.Precedes index) :
    ∀ head, l.head? = some head → head.index < index := by
  intro head found
  have := (precedes head found).2
  omega

/-- The block of that index may be committed. -/
theorem next_eq (precedes : l.Precedes index) (range : Index.InRange index) :
    ∀ head, l.head? = some head → Index.next? head.index = some index := by
  intro head found
  have next := (precedes head found).2
  exact Index.word?_eq_some_iff.mpr ⟨by rwa [next], next⟩

end Ledger.Precedes

/-! ## Telling of a block -/

namespace Auditor

variable {a : Auditor σ} {p : Scope} {s t u : Session σ} {index first next last : Int}

/-- A move that neither commits nor waits does no more than checks do. -/
theorem Move.byChecks (move : a.Move p s t) (busy : ¬p.waits) (idle : ¬p.commits) :
    s.ByChecks t where
  books := move.books idle
  counters name other := by
    cases move with
    | count c passing =>
      exact Session.counted_raise_of_ofChecks (List.mem_cons_of_mem _ passing) other
    | report f => exact Session.counted_raise_of_ofChecks (s := s) List.mem_cons_self other
    | commit b commits => exact absurd commits idle
    | _ => rfl
  stays := ⟨move.mode, move.sweepers busy, by cases move <;> rfl⟩

/-- Telling of a block does no more than its checks do, and stops with an error of one. -/
theorem announceBlock_byChecks (a : Auditor σ) (b : Block) (batch : Batch) (s : Session σ)
    (isOpen : s.store.closed = false) :
    (a.announceBlock a.observer b batch).Ends s (fun _ t => s.ByChecks t)
      (fun stop t => s.ByChecks t ∧
        (stop = .idle ∨ ∃ e, stop = .failed (.worker b.id (.reconcile e)))) := by
  -- Its moves say what it leaves alone, and its glances for which causes it stops.
  have moved := (a.announceBlock_moves (p := .checks) b batch (a.observer_moves trivial _ _)).ends
    (P := fun t => s.ByChecks t)
    (fun _ _ move h => h.trans (move.byChecks id id)) (Session.ByChecks.refl s)
  refine ((announceBlock_glances isOpen b batch).and moved).mono (fun _ _ h => h.2) ?_
  rintro stop t ⟨⟨_, idle | ⟨e, failed, _⟩⟩, checks⟩
  · exact ⟨checks, .inl idle⟩
  · exact ⟨checks, .inr ⟨e, failed⟩⟩

/-! ## Entering a block

A block enters whole or not at all. If not, it is told why. -/

/-- The block was fetched, staged and committed, and its whole batch taken over. -/
structure Enters (a : Auditor σ) (s : Session σ) (b : Block) (batch : Batch) (t : Session σ) :
    Prop where
  entered : (a.enterBlock b.id.index).eval s = (.ok (b, batch), t)
  block : batch.block = b.id
  takesOver : s.store.ledger.TakesOver batch t.store.ledger
  stored : t.store.ledger.blocks.entries =
    s.store.ledger.blocks.entries ++ [(b.id.index, b.id.hash)]
  isOpen : s.store.closed = false
  stays : s.Stays t

/-- The ways in which a block is not fetched, not staged, or not committed. -/
inductive Unentered (index : Int) (s : Session σ) : Stop SyncError → Session σ → Prop
  | idle {t : Session σ} (later : s.Later t) : Unentered index s .idle t
  | overflow {t : Session σ} (later : s.Later t) : Unentered index s (.overflow .sum) t
  | overrun {t : Session σ} {head : BlockId} (found : s.store.ledger.head? = some head)
      (full : Index.next? head.index = none) (later : s.Later t) :
      Unentered index s (.overflow .next) t
  | unfetched {t : Session σ} (cause : FetchError) (later : s.Later t) :
      Unentered index s (.failed (.fetch index cause)) t
  | unstaged {t : Session σ} {id : BlockId} {cause : WorkerError} (here : id.index = index)
      (unchecked : ∀ e, cause ≠ .reconcile e) (later : s.Later t) :
      Unentered index s (.failed (.worker id cause)) t
  | refused {t : Session σ} {e : StoreError} {batch : Batch} (here : batch.block.index = index)
      (refused : (s.store.commit batch).1 = .error (.failed e))
      (store : t.store = (s.store.commit batch).2)
      (sweepers : t.sweepers = s.sweepers) : Unentered index s (.failed (.store e)) t

theorem Unentered.sweepers {stop : Stop SyncError} (unentered : Unentered index s stop t) :
    t.sweepers = s.sweepers := by
  cases unentered with
  | refused _ _ _ sweepers => exact sweepers
  | idle later | overflow later | overrun _ _ later | unfetched _ later | unstaged _ _ later =>
    exact later.sweepers

/-- **A block is entered as its commit is**, or is not fetched or staged before that. -/
theorem enterBlock_commits (indexed : a.node.Indexed) (still : s.sweepers.asleep = 0) :
    (a.enterBlock index).Ends s
      (fun r t => r.1.id.index = index ∧ r.2.block = r.1.id ∧
        (s.store.commit r.2).1 = .ok () ∧
        ∃ w, t = { s with world := w, store := (s.store.commit r.2).2 })
      (Unentered index s) := by
  rw [enterBlock, Step.ends_bind]
  refine ((fetchBlock_replies (indexed index)).and (a.fetchBlock_outward index s still)).mono ?_ ?_
  · rintro b t ⟨here, fetched⟩
    rw [Step.ends_bind, Step.ends_mapError]
    have still' : t.sweepers.asleep = 0 := by rw [fetched.sweepers]; exact still
    refine ((a.stageBalances_block b _ t).and (a.stageBalances_outward b _ t still')).mono ?_ ?_
    · rintro batch u ⟨block, staged⟩
      -- Only the world moved on, so that the commit meets the store of `s`.
      obtain ⟨w, _, rfl⟩ := fetched.trans staged
      rw [Step.ends_bind]
      have here' : batch.block.index = index := by rw [block]; exact here
      refine Step.ends_commit (fun accepted => ⟨here, block, accepted, w, rfl⟩)
        fun stop refused => ?_
      cases stop with
      | failed e => exact .refused here' refused rfl rfl
      | idle => exact absurd refused (Store.commit_ne_idle _ _)
      | overflow what =>
        -- A commit that overflows changes nothing.
        obtain ⟨rfl, same, _, head, found, full⟩ := Store.commit_overflow refused
        exact .overrun found full ⟨w, trivial, by rw [same]⟩
    · rintro stop u ⟨_, unchecked, staged⟩
      have later := fetched.trans staged
      cases stop with
      | failed cause => exact .unstaged here unchecked later
      | idle => exact .idle later
      | overflow what =>
        cases unchecked
        exact .overflow later
  · rintro stop t ⟨_, rfl | ⟨cause, rfl⟩, later⟩
    · exact .idle later
    · exact .unfetched cause later

/-- The block behind the head is entered with its whole batch, if the file can be
written. -/
theorem enterBlock_enters (indexed : a.node.Indexed) (still : s.sweepers.asleep = 0)
    (range : Index.InRange index) (precedes : s.store.ledger.Precedes index)
    (works : s.store.canWrite = true) :
    (a.enterBlock index).Ends s (fun r t => a.Enters s r.1 r.2 t ∧ r.1.id.index = index)
      (fun stop t => t.store = s.store ∧ Unentered index s stop t ∧
        ∀ e, stop = .failed (.store e) → e = .closed ∧ s.store.closed = true) := by
  refine ((enterBlock_commits indexed still).and (Step.Ends.self _ s)).mono ?_ ?_
  · rintro ⟨b, batch⟩ t ⟨⟨rfl, block, accepted, w, rfl⟩, entered⟩
    obtain ⟨_, refused⟩ | ⟨isOpen, _, eq⟩ := Store.commit_cases s.store batch
    · exact absurd accepted refused
    · have ledger : (s.store.commit batch).2.ledger = s.store.ledger.apply batch := by
        rw [eq, Store.committed_ledger]
      have behind : ∀ head, s.store.ledger.head? = some head → head.index < batch.block.index := by
        rw [block]
        exact precedes.behind
      refine ⟨⟨entered, block, ?_, ?_, isOpen, ⟨Store.commit_mode _ _, rfl, rfl⟩⟩, rfl⟩
      · show s.store.ledger.TakesOver batch (s.store.commit batch).2.ledger
        rw [ledger]
        exact Ledger.apply_takesOver behind
      · show (s.store.commit batch).2.ledger.blocks.entries = _
        rw [ledger, Ledger.blocks_apply, block]
        refine Table.entries_insert_of_lt _ fun e mem => Table.compare_int_lt.mpr ?_
        exact Ledger.lt_of_head?_lt precedes.behind e mem
  · rintro stop t ⟨unentered, _⟩
    cases unentered with
    | idle later => exact ⟨later.store, .idle later, fun _ => nofun⟩
    | overflow later => exact ⟨later.store, .overflow later, fun _ => nofun⟩
    | overrun found full => cases full.symm.trans (precedes.next_eq range _ found)
    | unfetched cause later => exact ⟨later.store, .unfetched cause later, fun _ => nofun⟩
    | unstaged here unchecked later =>
      exact ⟨later.store, .unstaged here unchecked later, fun _ => nofun⟩
    | @refused _ e batch here refused store sweepers =>
      -- An open store would have taken the block over.
      have extends_ : ∀ head, s.store.ledger.head? = some head →
          Index.next? head.index = some batch.block.index := by
        rw [here]
        exact precedes.next_eq range
      have closed : s.store.closed = true := by
        by_contra isOpen
        obtain ok | ⟨_, broken⟩ := Store.commit_result (Bool.eq_false_iff.mpr isOpen) extends_
        · rw [ok] at refused
          cases refused
        · rw [works] at broken
          cases broken
      have eq := Store.commit_of_closed (b := batch) closed
      have store' : t.store = s.store := by rw [store, eq]
      refine ⟨store', .refused here refused store sweepers, ?_⟩
      rintro e' failed
      cases failed
      rw [eq] at refused
      cases refused
      exact ⟨rfl, closed⟩

/-! ## Storing one block

Blocks that are stored with all their checks, then one that breaks the run off. -/

/-- The block of that index was entered and all its checks passed. -/
structure Stores (a : Auditor σ) (index : Int) (s : Session σ) (b : Block) (t : Session σ) :
    Prop where
  applied : a.Applied index s b t
  here : b.id.index = index
  stored : t.store.ledger.blocks.entries =
    s.store.ledger.blocks.entries ++ [(b.id.index, b.id.hash)]
  head : t.store.ledger.head? = some b.id
  isOpen : s.store.closed = false
  stays : s.Stays t

/-- From `s` to `u` exactly the blocks from `first` on up to the one before `next` were
stored, in their order, each with all its checks. -/
structure StoresUpTo (a : Auditor σ) (first next : Int) (s u : Session σ) (bs : List Block) :
    Prop where
  le : first ≤ next
  applies : a.Applies first s bs u next
  indices : bs.map (·.id.index) = Index.upTo first next
  stored : u.store.ledger.blocks.entries =
    s.store.ledger.blocks.entries ++ bs.map fun b => (b.id.index, b.id.hash)

theorem StoresUpTo.nil (here : next = first) : a.StoresUpTo first next s s [] where
  le := here.ge
  applies := here ▸ .none
  indices := by rw [here, Index.upTo_self]; rfl
  stored := (List.append_nil _).symm

theorem StoresUpTo.cons {b : Block} {bs : List Block} (here : a.Stores first s b t)
    (following : Index.next? first = some (first + 1))
    (later : a.StoresUpTo (first + 1) next t u bs) :
    a.StoresUpTo first next s u (b :: bs) where
  le := by
    have := later.le
    omega
  applies := .cons here.applied following later.applies
  indices := by
    have := later.le
    rw [List.map_cons, later.indices, here.here, ← Index.upTo_cons (by omega)]
  stored := by rw [later.stored, here.stored, List.append_assoc]; rfl

/-- A run was left at the block of an index: nothing of it is stored, or its whole batch. -/
def Partway (a : Auditor σ) (k : Int) (s t : Session σ) : Prop :=
  t.store = s.store ∨ ∃ b batch u, b.id.index = k ∧ a.Enters s b batch u ∧ u.ByChecks t

theorem Partway.later (partway : a.Partway index s t) (later : t.Later u) :
    a.Partway index s u := by
  obtain store | ⟨b, batch, v, here, entered, checks⟩ := partway
  · exact .inl (later.store.trans store)
  · exact .inr ⟨b, batch, v, here, entered, checks.trans (.of_later later)⟩

/-- Where a run stops. An error of fetching or staging names the first block that is not
stored; an error of a check names the last one that is, with its whole batch; the store
gives none but that it is closed. A run that is canceled or waits for good was left at one
block, with all others before it stored. -/
inductive BreaksOff (a : Auditor σ) (first : Int) (s : Session σ) :
    Stop SyncError → Session σ → Prop
  | unfetched {t u : Session σ} {bs : List Block} {k : Int} {cause : FetchError}
      (before : a.StoresUpTo first k s u bs) (store : t.store = u.store) :
      BreaksOff a first s (.failed (.fetch k cause)) t
  | unstaged {t u : Session σ} {bs : List Block} {id : BlockId} {cause : WorkerError}
      (unchecked : ∀ e, cause ≠ .reconcile e) (before : a.StoresUpTo first id.index s u bs)
      (store : t.store = u.store) :
      BreaksOff a first s (.failed (.worker id cause)) t
  | unchecked {t u v : Session σ} {bs : List Block} {b : Block} {batch : Batch}
      {e : ReconcileError} (before : a.StoresUpTo first b.id.index s u bs)
      (entered : a.Enters u b batch v) (checks : v.ByChecks t) :
      BreaksOff a first s (.failed (.worker b.id (.reconcile e))) t
  | closed {t : Session σ} (closed : s.store.closed = true) (store : t.store = s.store) :
      BreaksOff a first s (.failed (.store .closed)) t
  | left {t u : Session σ} {bs : List Block} {k : Int} {stop : Stop SyncError}
      (cause : stop = .failed (.canceled k) ∨ stop = .idle ∨ stop = .overflow .sum)
      (before : a.StoresUpTo first k s u bs) (partway : a.Partway k u t) :
      BreaksOff a first s stop t

/-- Behind a stored block a run breaks off as it does from there. -/
theorem BreaksOff.cons {b : Block} {stop : Stop SyncError} (here : a.Stores first s b t)
    (following : Index.next? first = some (first + 1))
    (later : a.BreaksOff (first + 1) t stop u) : a.BreaksOff first s stop u := by
  cases later with
  | unfetched before store => exact .unfetched (.cons here following before) store
  | unstaged unchecked before store =>
    exact .unstaged unchecked (.cons here following before) store
  | unchecked before entered checks =>
    exact .unchecked (.cons here following before) entered checks
  | closed closed store =>
    rw [here.stays.mode.closed, here.isOpen] at closed
    cases closed
  | left cause before partway => exact .left cause (.cons here following before) partway

/-- **One block is stored with all its checks, or the run breaks off at it.** -/
theorem applyBlock_extent (indexed : a.node.Indexed) (still : s.sweepers.asleep = 0)
    (range : Index.InRange index) (precedes : s.store.ledger.Precedes index)
    (works : s.store.canWrite = true) :
    (a.applyBlock a.workers index).Ends s (fun _ t => ∃ b, a.Stores index s b t)
      (fun stop t => a.BreaksOff index s stop t ∧ t.sweepers = s.sweepers ∧
        (stop = .idle → a.Partway index s t)) := by
  rw [applyBlock_eq, Step.ends_bind]
  refine (enterBlock_enters indexed still range precedes works).mono ?_ ?_
  · rintro ⟨b, batch⟩ v ⟨entered, here⟩
    have isOpen : v.store.closed = false := entered.stays.mode.closed.trans entered.isOpen
    refine ((a.announceBlock_ends b batch v).and
      (a.announceBlock_byChecks b batch v isOpen)).mono ?_ ?_
    · rintro _ t ⟨⟨w, heard, completed⟩, checks⟩
      -- The blocks are those that the commit left.
      refine ⟨b, ⟨⟨batch, v, w, here ▸ entered.entered, heard, completed⟩, here, ?_, ?_,
        entered.isOpen, entered.stays.trans checks.stays⟩⟩
      · rw [checks.blocks]
        exact entered.stored
      · rw [checks.head?, entered.takesOver.head, entered.block]
    · rintro stop t ⟨_, checks, cause⟩
      have partway : a.Partway index s t := .inr ⟨b, batch, v, here, entered, checks⟩
      refine ⟨?_, (entered.stays.trans checks.stays).sweepers, fun _ => partway⟩
      obtain rfl | ⟨e, rfl⟩ := cause
      · exact .left (.inr (.inl rfl)) (.nil rfl) partway
      · exact .unchecked (.nil here) entered checks
  · rintro stop t ⟨store, unentered, closes⟩
    refine ⟨?_, unentered.sweepers, fun _ => .inl store⟩
    cases unentered with
    | idle => exact .left (.inr (.inl rfl)) (.nil rfl) (.inl store)
    | overflow => exact .left (.inr (.inr rfl)) (.nil rfl) (.inl store)
    | overrun found full => cases full.symm.trans (precedes.next_eq range _ found)
    | unfetched => exact .unfetched (.nil rfl) store
    | unstaged here unchecked => exact .unstaged unchecked (.nil here) store
    | refused =>
      obtain ⟨rfl, closed⟩ := closes _ rfl
      exact .closed closed store

/-! ## Whole runs

By induction on the fuel, with the blocks stored so far collected in front. -/

/-- What waits for the end breaks off, and wakes no sweep until then. -/
theorem canceledBefore_breaksOff (partway : a.Partway first s t) (still : t.sweepers.asleep = 0) :
    (a.canceledBefore first).Ends t (fun _ _ => False) (a.BreaksOff first s) := by
  refine ((a.canceledBefore_names first t).and (a.canceledBefore_outward first t still)).mono
    (fun _ _ h => h.1) ?_
  rintro stop u ⟨_, cause, later⟩
  have left := partway.later later
  obtain rfl | rfl := cause
  · exact .left (.inr (.inl rfl)) (.nil rfl) left
  · exact .left (.inl rfl) (.nil rfl) left

/-- **A run over a range stores all of its blocks, or breaks off.** The induction is on
the blocks that may still come; each of them leaves its index behind the head, so that
the next one may be committed. -/
theorem syncFrom_extent (indexed : a.node.Indexed) (below : last < Index.greatest) (fuel : Nat) :
    ∀ (first : Int) (s : Session σ), Index.InRange first → s.store.ledger.Precedes first →
    s.store.canWrite = true → s.sweepers.asleep = 0 →
    (a.syncFrom a.workers (some last) fuel first).Ends s
      (fun _ t => ∃ bs u, a.StoresUpTo first (max first (last + 1)) s u bs ∧ t = u.finish ∧
        u.shutdown = s.shutdown)
      (a.BreaksOff first s) := by
  induction fuel with
  | zero => exact fun _ _ _ _ _ _ => .left (.inr (.inl rfl)) (.nil rfl) (.inl rfl)
  | succ fuel ih =>
    intro first s range precedes works still
    rw [syncFrom]
    by_cases done : last < first
    · rw [if_pos (by simpa using done)]
      exact ⟨[], s, .nil (max_eq_left (by omega)), rfl, rfl⟩
    · rw [if_neg (by simpa using done), Step.ends_bind, Step.ends_attempt]
      have following : Index.next? first = some (first + 1) :=
        Index.next?_of_lt range (by omega)
      refine (applyBlock_extent indexed still range precedes works).mono ?_ ?_
      · rintro _ t ⟨b, here⟩
        -- The block is the head now, and the next index still a word below the limit.
        have range' : Index.InRange (first + 1) := (Index.word?_eq_some_iff.mp following).1
        have precedes' : t.store.ledger.Precedes (first + 1) := by
          intro head found
          rw [here.head] at found
          cases found
          rw [here.here]
          exact ⟨range, rfl⟩
        have later := ih (first + 1) t range' precedes' (here.stays.mode.canWrite.trans works)
          (by rw [here.stays.sweepers]; exact still)
        dsimp only
        rw [following]
        refine later.mono ?_ ?_
        · rintro _ u ⟨bs, v, stores, rfl, shutdown⟩
          have last' : max (first + 1) (last + 1) = max first (last + 1) := by omega
          exact ⟨b :: bs, v, .cons here following (last' ▸ stores), rfl,
            shutdown.trans here.stays.shutdown⟩
        · exact fun _ _ off => off.cons here following
      · rintro stop t ⟨off, sweepers, partway⟩
        cases stop with
        | failed cause => exact off
        | overflow => exact off
        | idle =>
          have still' : t.sweepers.asleep = 0 := by rw [sweepers]; exact still
          exact (canceledBefore_breaksOff (partway rfl) still').mono (fun _ _ h => h.elim)
            fun _ _ h => h

/-! ## Runs that do not continue the store

The first block is refused, because it does not follow the head; no other one is fetched. -/

/-- **A run that does not start behind the head stores nothing.** It ends with its first
block, or before that because there is none to store. -/
theorem syncFrom_astray (indexed : a.node.Indexed) (still : s.sweepers.asleep = 0)
    {head : BlockId} (found : s.store.ledger.head? = some head)
    (astray : Index.next? head.index ≠ some first) (fuel : Nat) :
    (a.syncFrom a.workers (some last) fuel first).Ends s
      (fun _ t => last < first ∧ t.store = s.store)
      (fun stop t => t.store = s.store ∧ ∀ e, stop = .failed (.store e) →
        e = .closed ∨ ∃ got, got.index = first ∧ e = .outOfOrder head got) := by
  cases fuel with
  | zero => exact ⟨rfl, fun _ => nofun⟩
  | succ fuel =>
    rw [syncFrom]
    by_cases done : last < first
    · rw [if_pos (by simpa using done)]
      exact ⟨done, rfl⟩
    · rw [if_neg (by simpa using done), Step.ends_bind, Step.ends_attempt, applyBlock_eq,
        Step.ends_bind]
      refine (enterBlock_commits indexed still).mono ?_ ?_
      · rintro ⟨b, batch⟩ t ⟨rfl, block, accepted, _⟩
        obtain ⟨stop, refused, _⟩ :=
          Store.commit_of_astray (b := batch) found (by rw [block]; exact astray)
        rw [refused] at accepted
        cases accepted
      · intro stop t unentered
        cases unentered with
        | idle later =>
          -- What waits for the end wakes nobody.
          have still' : t.sweepers.asleep = 0 := by rw [later.sweepers]; exact still
          refine ((a.canceledBefore_names first t).and
            (a.canceledBefore_outward first t still')).mono (fun _ _ h => h.1.elim) ?_
          rintro stop u ⟨_, rfl | rfl, waited⟩
          all_goals exact ⟨waited.store.trans later.store, fun _ => nofun⟩
        | overflow later | overrun _ _ later => exact ⟨later.store, fun _ => nofun⟩
        | unfetched cause later => exact ⟨later.store, fun _ => nofun⟩
        | unstaged here unchecked later => exact ⟨later.store, fun _ => nofun⟩
        | @refused _ e batch here refused store _ =>
          obtain ⟨stop, same, cause⟩ :=
            Store.commit_of_astray (b := batch) found (by rw [here]; exact astray)
          rw [same] at refused store
          refine ⟨store, fun e' failed => ?_⟩
          cases failed
          cases refused
          obtain ⟨_, closed⟩ | ⟨_, _, overflows⟩ | ⟨_, order⟩ := cause
          · cases closed
            exact .inl rfl
          · cases overflows
          · cases order
            exact .inr ⟨_, here, rfl⟩

/-! ## How far a run got -/

/-- **The error alone tells how far the store got.** On a store that is empty or ends
before `first`, a run up to `last` stores exactly its blocks and cancels the shutdown
token, or breaks off. On any other store it stores nothing. -/
theorem sync_extent (indexed : a.node.Indexed) (within : s.store.ledger.InLimits)
    (range : Index.InRange first) (below : last < Index.greatest)
    (works : s.store.canWrite = true) (still : s.sweepers.asleep = 0) :
    ((∀ head, s.store.ledger.head? = some head → head.index = first - 1) →
      (a.sync a.workers first (some last)).Ends s
        (fun _ t => ∃ bs u, a.StoresUpTo first (max first (last + 1)) s u bs ∧ t = u.finish ∧
          t.world.cancellation.isCanceled s.shutdown = true)
        (a.BreaksOff first s)) ∧
    ∀ head, s.store.ledger.head? = some head → head.index ≠ first - 1 →
      (a.sync a.workers first (some last)).Ends s
        (fun _ t => last < first ∧ t.store = s.store)
        (fun stop t => t.store = s.store ∧ ∀ e, stop = .failed (.store e) →
          e = .closed ∨ ∃ got, got.index = first ∧ e = .outOfOrder head got) := by
  constructor
  · intro before
    have precedes : s.store.ledger.Precedes first := by
      intro head found
      have := before head found
      exact ⟨within.head found, by omega⟩
    refine (syncFrom_extent indexed below _ first s range precedes works still).mono ?_
      fun _ _ off => off
    rintro _ t ⟨bs, u, stores, rfl, shutdown⟩
    refine ⟨bs, u, stores, rfl, ?_⟩
    rw [← shutdown]
    exact Cancellation.isCanceled_cancel _ _
  · intro head found apart
    -- A first block that extends this head would stand right behind it.
    refine syncFrom_astray indexed still found (fun next => ?_) _
    have := ((Index.next?_eq_some_iff (within.head found)).mp next).2
    exact apart (by omega)

/-- A run over two blocks, of which the second one fails its check: both are stored. -/
theorem sync_extent_gap :
    let a : Auditor Unit := ⟨Chain.gap.node, {}⟩
    let s : Session Unit := { world := World.enter { node := () }, store := {} }
    let failure : Failure := ⟨.active, .alice, ⟨1, "b"⟩, .whole 2, .whole 3⟩
    let stop : Stop SyncError := .failed (.worker ⟨1, "b"⟩ (.reconcile (.mismatch failure)))
    a.node.Indexed ∧ s.store.ledger.InLimits ∧ Index.InRange 0 ∧ 1 < Index.greatest ∧
      s.store.canWrite = true ∧ s.sweepers.asleep = 0 ∧
      (∀ head, s.store.ledger.head? = some head → head.index = 0 - 1) ∧
      ∃ t, (a.sync a.workers 0 (some 1)).eval s = (.error stop, t) ∧ a.BreaksOff 0 s stop t := by
  intro a s failure stop
  have keyed : Chain.gap.Keyed := Chain.gap_spans.keyed
  have fresh : ∀ head, s.store.ledger.head? = some head → head.index = 0 - 1 := nofun
  have run : (a.sync a.workers 0 (some 1)).eval s =
      (.error stop, ((a.sync a.workers 0 (some 1)).eval s).2) :=
    Prod.ext (by decide +kernel) rfl
  exact ⟨keyed.indexed, Ledger.inLimits_empty, by decide, by decide, rfl, rfl, fresh, _, run,
    ((sync_extent keyed.indexed Ledger.inLimits_empty (by decide) (by decide) rfl rfl).1
      fresh).of_error run⟩

end Auditor

end BalanceAudit
