import BalanceAudit.Proofs.Check
import BalanceAudit.Proofs.Moves

/-!
# What a check does, one thing after another

A check first looks: it reads what was computed and asks the node. What it does
after that to the things that all checks share is a short list of deeds, and
between two of them other checks may have their turn.

- `Deed`, `Deed.run`: one thing a check does, and what it makes of a session.
- `Auditor.lookActive`, `Auditor.lookInactive`: what a check does after its look.
- `Auditor.checkActive_eval`, `Auditor.checkInactive_eval`: **a check is its look
  and then its deeds**.
- `Session.store_runAll`, `Session.tracker_runAll`, `Session.recorder_runAll`: what deeds
  come to, in the counters, the tracked holdings and the failures kept.
- `Session.Came`: a session after deeds, whatever became of its world.
- `Ledger.raised_of_perm`, `Tracker.noted_of_perm`: their order does not matter.
-/

namespace BalanceAudit

variable {σ : Type}

/-! ## Counters, raised one by one

Raising commutes, so the counters after a number of deeds are told by how often each was
raised. -/

namespace Ledger

/-- The ledger with counters raised by one each time they are listed. -/
def raised (l : Ledger) (ks : List Counter) : Ledger :=
  ks.foldl (fun l k => l.increment k.name 1) l

theorem raised_append (l : Ledger) (ks ks' : List Counter) :
    l.raised (ks ++ ks') = (l.raised ks).raised ks' := List.foldl_append

@[simp] theorem balances_raised (l : Ledger) (ks : List Counter) :
    (l.raised ks).balances = l.balances := by
  induction ks generalizing l with
  | nil => rfl
  | cons k ks ih => exact ih _

@[simp] theorem blocks_raised (l : Ledger) (ks : List Counter) :
    (l.raised ks).blocks = l.blocks := by
  induction ks generalizing l with
  | nil => rfl
  | cons k ks ih => exact ih _

/-- A counter is greater by the times it is listed, up to the greatest count there is. -/
theorem value_counted_raised (l : Ledger) (ks : List Counter) (k : Counter) :
    ((l.raised ks).counted k.name).value =
      min ((l.counted k.name).value + ks.count k) Count.greatest := by
  induction ks generalizing l with
  | nil =>
    have := (l.counted k.name).value_lt
    simp [raised, Count.greatest]
    omega
  | cons k' ks ih =>
    rw [raised, List.foldl_cons, ← raised, ih, counted_increment]
    -- The counter at the front is the one that is asked for, or another one with another name.
    by_cases same : k' = k
    · have one : (1 : Count).value = 1 := rfl
      simp [same, Count.value_add, one]
      omega
    · have names : k.name ≠ k'.name := fun h => same (Counter.name_injective h).symm
      simp [same, names]

/-- In which order counters are raised does not matter. -/
theorem raised_of_perm {ks ks' : List Counter} (perm : ks.Perm ks') (l : Ledger) :
    l.raised ks = l.raised ks' :=
  perm.foldl_eq' (fun k _ k' _ l => increment_right_comm l k.name k'.name 1 1) l

end Ledger

/-! ## Outcomes, noted one by one

Outcomes of different holdings commute, and no holding is checked twice at a time. -/

/-- The outcome of the check of a holding at an index. -/
abbrev Note := Holding × Int × CheckStatus

namespace Tracker

/-- The tracker after outcomes were noted. -/
def noted (t : Tracker) (ns : List Note) : Tracker :=
  ns.foldl (fun t n => t.finish n.1 n.2.1 n.2.2) t

/-- A check that is noted for one holding leaves the others as they are. -/
theorem find?_finish (t : Tracker) (h h' : Holding) (index : Int) (status : CheckStatus) :
    (t.finish h index status).find? h' =
      if h' = h then (t.find? h).map (·.finish index status) else t.find? h' := by
  unfold finish
  cases found : t.find? h with
  | none =>
    by_cases same : h' = h
    · simp [same, found]
    · simp [same]
  | some tracked => simp [Table.find?_insert]

/-- A holding of which nothing was noted is tracked as before. -/
theorem find?_noted_of_notMem {ns : List Note} {h : Holding} (t : Tracker)
    (other : h ∉ ns.map (·.1)) : (t.noted ns).find? h = t.find? h := by
  induction ns generalizing t with
  | nil => rfl
  | cons n ns ih =>
    rw [List.map_cons, List.mem_cons, not_or] at other
    rw [noted, List.foldl_cons, ← noted, ih _ other.2, find?_finish, if_neg other.1]

/-- A holding of which one outcome was noted has it. -/
theorem find?_noted {ns : List Note} {h : Holding} {index : Int} {status : CheckStatus}
    (t : Tracker) (distinct : (ns.map (·.1)).Nodup) (mem : (h, index, status) ∈ ns) :
    (t.noted ns).find? h = (t.find? h).map (·.finish index status) := by
  induction ns generalizing t with
  | nil => cases mem
  | cons n ns ih =>
    rw [List.map_cons, List.nodup_cons] at distinct
    rw [noted, List.foldl_cons, ← noted]
    rcases List.mem_cons.mp mem with rfl | mem
    · rw [find?_noted_of_notMem _ distinct.1, find?_finish, if_pos rfl]
    · have other : h ≠ n.1 := by
        rintro rfl
        exact distinct.1 (List.mem_map.mpr ⟨_, mem, rfl⟩)
      rw [ih _ distinct.2 mem, find?_finish, if_neg other]

/-- In which order outcomes of different holdings are noted does not matter. -/
theorem noted_of_perm {ns ns' : List Note} (perm : ns.Perm ns')
    (distinct : (ns.map (·.1)).Nodup) (t : Tracker) : t.noted ns = t.noted ns' := by
  refine Table.ext_find? fun h => ?_
  have distinct' : (ns'.map (·.1)).Nodup := (perm.map _).nodup_iff.mp distinct
  by_cases mem : h ∈ ns.map (·.1)
  · obtain ⟨⟨_, index, status⟩, here, rfl⟩ := List.mem_map.mp mem
    rw [find?_noted t distinct here, find?_noted t distinct' (perm.mem_iff.mp here)]
  · have mem' : h ∉ ns'.map (·.1) := fun h' => mem ((perm.map _).mem_iff.mpr h')
    rw [find?_noted_of_notMem t mem, find?_noted_of_notMem t mem']

end Tracker

/-! ## Deeds -/

/-- One thing that a check does once it knows what to compare. -/
inductive Deed where
  /-- The outcome of the check of a holding is noted. -/
  | note (h : Holding) (index : Int) (status : CheckStatus)
  | tell (es : List Event)
  | count (k : Counter)
  /-- A failure is kept, and the check ends with it. -/
  | keep (f : Failure)
  deriving DecidableEq

namespace Deed

/-- The counter that is raised. -/
def counter? : Deed → Option Counter
  | count k => some k
  | _ => none

/-- The holding whose check is noted, with the index and the outcome. -/
def noted? : Deed → Option Note
  | note h index status => some (h, index, status)
  | _ => none

/-- The failure that is kept. -/
def failure? : Deed → Option Failure
  | keep f => some f
  | _ => none

/-- The counters that deeds raise. -/
def counters (ds : List Deed) : List Counter := ds.filterMap counter?

/-- The outcomes that deeds note. -/
def notes (ds : List Deed) : List Note := ds.filterMap noted?

/-- The failures that deeds keep. -/
def failures (ds : List Deed) : List Failure := ds.filterMap failure?

/-- What deeds raise, note and keep is read off one after another. -/
theorem counters_append (ds es : List Deed) :
    counters (ds ++ es) = counters ds ++ counters es := List.filterMap_append

theorem notes_append (ds es : List Deed) : notes (ds ++ es) = notes ds ++ notes es :=
  List.filterMap_append

/-- And their order only permutes it. -/
theorem counters_perm {ds es : List Deed} (perm : ds.Perm es) :
    (counters ds).Perm (counters es) := perm.filterMap _

theorem notes_perm {ds es : List Deed} (perm : ds.Perm es) : (notes ds).Perm (notes es) :=
  perm.filterMap _

theorem failures_perm {ds es : List Deed} (perm : ds.Perm es) :
    (failures ds).Perm (failures es) := perm.filterMap _

/-- A failure among the deeds of several checks is one of some check. -/
theorem mem_failures_flatMap {α : Type} {g : α → List Deed} {l : List α} {f : Failure} :
    f ∈ failures (l.flatMap g) ↔ ∃ x ∈ l, f ∈ failures (g x) := by
  simp only [failures, List.filterMap_flatMap, List.mem_flatMap]

/-- What a deed makes of a session. -/
def run (s : Session σ) : Deed → Session σ
  | note h index status => { s with tracker := s.tracker.finish h index status }
  | tell es => { s with world := s.world.tell es }
  | count k => s.raise k
  | keep f => { s with recorder := s.recorder.keep f }

/-- Only a note touches what is tracked. -/
theorem tracker_run_of_other {d : Deed} (other : d.noted? = none) (s : Session σ) :
    (d.run s).tracker = s.tracker := by
  cases d with
  | note => cases other
  | _ => rfl

/-- What deeds make of a session. -/
def runAll (s : Session σ) (ds : List Deed) : Session σ := ds.foldl run s

/-- How a check ends whose deeds these are. -/
def outcome (ds : List Deed) : Except (Stop ReconcileError) Unit :=
  match (failures ds).head? with
  | some f => .error (.failed (.mismatch f))
  | none => .ok ()

@[simp] theorem runAll_nil (s : Session σ) : runAll s [] = s := rfl

@[simp] theorem runAll_cons (s : Session σ) (d : Deed) (ds : List Deed) :
    runAll s (d :: ds) = runAll (run s d) ds := rfl

/-- Deeds after deeds. -/
theorem runAll_append (s : Session σ) (ds es : List Deed) :
    runAll s (ds ++ es) = runAll (runAll s ds) es := List.foldl_append

end Deed

/-! ## What deeds come to

Each part of a session depends on its own kind of deeds. The inductions are on the deeds. -/

namespace Session

/-- The store has its counters raised. -/
theorem store_runAll (s : Session σ) (ds : List Deed) :
    (Deed.runAll s ds).store =
      { s.store with ledger := s.store.ledger.raised (Deed.counters ds) } := by
  induction ds generalizing s with
  | nil => rfl
  | cons d ds ih =>
    rw [Deed.runAll_cons, ih]
    cases d <;> rfl

/-- The tracker has its outcomes noted. -/
theorem tracker_runAll (s : Session σ) (ds : List Deed) :
    (Deed.runAll s ds).tracker = s.tracker.noted (Deed.notes ds) := by
  induction ds generalizing s with
  | nil => rfl
  | cons d ds ih =>
    rw [Deed.runAll_cons, ih]
    cases d <;> rfl

/-- The recorder has been given the failures. -/
theorem recorder_runAll (s : Session σ) (ds : List Deed) :
    (Deed.runAll s ds).recorder = (Deed.failures ds).foldl Recorder.keep s.recorder := by
  induction ds generalizing s with
  | nil => rfl
  | cons d ds ih =>
    rw [Deed.runAll_cons, ih]
    cases d <;> rfl

/-- The later session is the earlier one after deeds, whatever became of the world. -/
def Came (ds : List Deed) (s t : Session σ) : Prop :=
  ∃ w, t = { Deed.runAll s ds with world := w }

/-- Deeds on another world come to the same, up to a world. -/
theorem runAll_setWorld (s : Session σ) (ds : List Deed) (w : World σ) :
    Session.Came ds s (Deed.runAll { s with world := w } ds) := by
  induction ds generalizing s w with
  | nil => exact ⟨w, rfl⟩
  | cons d ds ih =>
    -- Nothing that a deed does depends on the world.
    obtain ⟨w', eq⟩ :
        ∃ w', Deed.run { s with world := w } d = { Deed.run s d with world := w' } := by
      cases d with
      | tell es => exact ⟨w.tell es, rfl⟩
      | _ => exact ⟨w, rfl⟩
    rw [Deed.runAll_cons, eq]
    exact ih (Deed.run s d) w'

namespace Came

variable {ds es : List Deed} {s t u : Session σ}

/-- Without a deed nothing came. -/
theorem refl (s : Session σ) : Session.Came [] s s := ⟨s.world, rfl⟩

/-- Deeds after deeds, with worlds that may change in between. -/
theorem trans (h : Session.Came ds s t) (h' : Session.Came es t u) :
    Session.Came (ds ++ es) s u := by
  obtain ⟨w, rfl⟩ := h
  obtain ⟨w', rfl⟩ := h'
  obtain ⟨w'', eq⟩ := runAll_setWorld (Deed.runAll s ds) es w
  exact ⟨w', by rw [eq, Deed.runAll_append]⟩

/-- A single deed. -/
theorem run (s : Session σ) (d : Deed) : Session.Came [d] s (d.run s) := ⟨(d.run s).world, rfl⟩

theorem store (h : Session.Came ds s t) :
    t.store = { s.store with ledger := s.store.ledger.raised (Deed.counters ds) } := by
  obtain ⟨w, rfl⟩ := h
  exact store_runAll s ds

theorem tracker (h : Session.Came ds s t) : t.tracker = s.tracker.noted (Deed.notes ds) := by
  obtain ⟨w, rfl⟩ := h
  exact tracker_runAll s ds

theorem recorder (h : Session.Came ds s t) :
    t.recorder = (Deed.failures ds).foldl Recorder.keep s.recorder := by
  obtain ⟨w, rfl⟩ := h
  exact recorder_runAll s ds

/-- Deeds leave the store open. -/
theorem isOpen (h : Session.Came ds s t) (isOpen : s.store.closed = false) :
    t.store.closed = false := by
  rw [h.store]
  exact isOpen

end Came

end Session

/-- Of active failures the first one is kept. -/
theorem Recorder.active_foldl_keep {fs : List Failure} (active : ∀ f ∈ fs, f.kind = .active)
    (r : Recorder) : (fs.foldl keep r).active = (r.active <|> fs.head?) := by
  induction fs generalizing r with
  | nil => simp
  | cons f fs ih =>
    rw [List.foldl_cons, ih fun f' mem => active f' (List.mem_cons_of_mem _ mem), keep,
      active f List.mem_cons_self]
    cases r.active <;> rfl

/-- A snapshot is the record of the holding and the head, if there are both. -/
theorem Ledger.snapshot?_eq_some_iff {l : Ledger} {h : Holding} {r : Record} {head : BlockId} :
    l.snapshot? h = some (r, head) ↔
      l.head? = some head ∧ ∃ b, l.balances.find? h = some b ∧ r = ⟨h, b⟩ := by
  simp only [snapshot?, record?, Option.bind_eq_bind, Option.bind_eq_some_iff,
    Option.map_eq_some_iff, Option.pure_def, Option.some.injEq, Prod.mk.injEq]
  constructor
  · rintro ⟨head', found, _, ⟨b, record, rfl⟩, rfl, rfl⟩
    exact ⟨found, b, record, rfl⟩
  · rintro ⟨found, b, record, rfl⟩
    exact ⟨head, found, _, ⟨b, record, rfl⟩, rfl, rfl⟩

namespace Auditor

variable {a : Auditor σ} {s t : Session σ}

/-! ## Looking -/

/-- Asks for the balance of a holding to compare with one computed at `block`. -/
def inquire (a : Auditor σ) (h : Holding) (block : BlockId) :
    Step (Session σ) ReconcileError (BlockId × Decimal) := do
  let reply ← Step.ask (a.node.balance h (if a.settings.lookup then some block else none))
  Step.ofExcept .fetch reply

/-- What follows from a comparison. -/
def compared (a : Auditor σ) (kind : Kind) (h : Holding) (block : BlockId)
    (computed live : Decimal) : List Deed :=
  if computed.Same live then
    [.note h block.index .inSync, .tell (a.settings.log.reconciled kind h block.index live),
      .count kind.counter]
  else
    let f : Failure := ⟨kind, h, block, computed, live⟩
    [.note h block.index .failed, .count .failedReconciliations,
      .tell [.mismatch f a.settings.halt]] ++ if a.settings.halt then [.keep f] else []

/-- What an active check does after it was answered. -/
def activeDeeds (a : Auditor σ) (c : Change) (answer : BlockId × Decimal) : List Deed :=
  if answer.1 = c.block then a.compared .active c.holding c.block c.value answer.2
  else [.count .skippedReconciliations]

/-- What the check of a claimed holding with a record does after it was answered. -/
def inactiveDeeds (a : Auditor σ) (r : Record) (head : BlockId) (answer : BlockId × Decimal) :
    List Deed :=
  if answer.1 = head then a.compared .inactive r.holding head r.balance.value answer.2
  else [.count .skippedReconciliations, .note r.holding head.index .inSync]

/-- The look of an active check. -/
def lookActive (a : Auditor σ) (c : Change) : Step (Session σ) ReconcileError (List Deed) := do
  if a.settings.isExempt c.holding then return [.count .exemptReconciliations]
  else return a.activeDeeds c (← a.inquire c.holding c.block)

/-- The look of the check of a holding claimed when the head had index `claimedAt`. -/
def lookInactive (a : Auditor σ) (h : Holding) (claimedAt : Int) :
    Step (Session σ) ReconcileError (List Deed) := do
  if a.settings.isExempt h then
    return [.note h claimedAt .inSync, .count .exemptReconciliations]
  else
    match (← Step.read .store).snapshot? h with
    | none => return [.note h claimedAt .pending]
    | some (r, head) => return a.inactiveDeeds r head (← a.inquire h head)

/-- An answer is asked for and nothing else happens. -/
theorem eval_inquire (a : Auditor σ) (h : Holding) (block : BlockId) (s : Session σ) :
    (a.inquire h block).eval s =
      ((match (s.world.call (a.node.balance h (if a.settings.lookup then some block else none))).1
        with
        | some reply => reply.mapError fun e => .failed (.fetch e)
        | none => .error .idle),
      { s with world := (s.world.call
        (a.node.balance h (if a.settings.lookup then some block else none))).2 }) := by
  simp only [inquire, Step.eval_bind, Step.eval_ask]
  cases (s.world.call (a.node.balance h (if a.settings.lookup then some block else none))).1 with
  | none => rfl
  | some reply => exact Step.eval_ofExcept _ _ _

/-! ## A check is its look and then its deeds

The check as it is written goes back and forth between node, store and tracker. Pulled
apart, all that depends on the node is in front. -/

/-- A comparison is its deeds, with no look. -/
theorem conclude_eval (isOpen : s.store.closed = false) (kind : Kind) (h : Holding)
    (block : BlockId) (computed live : Decimal) :
    (a.conclude kind h block computed live).eval s =
      (Deed.outcome (a.compared kind h block computed live),
        Deed.runAll s (a.compared kind h block computed live)) := by
  unfold conclude compared
  -- Both outcomes are told and counted in another order, so that they are taken apart.
  by_cases same : computed.Same live
  · simp only [if_pos same, succeeded, Step.eval_bind, Step.eval_onTracker, Step.eval_tell]
    exact Step.eval_count (by exact isOpen) _
  · simp only [if_neg same, Step.eval_bind, Step.eval_onTracker]
    rw [a.eval_failed (by exact isOpen)]
    cases a.settings.halt <;> rfl

/-- The outcome of a look followed by the deeds it comes to. -/
def performed (looked : Except (Stop ReconcileError) (List Deed) × Session σ) :
    Except (Stop ReconcileError) Unit × Session σ :=
  match looked with
  | (.ok ds, t) => (Deed.outcome ds, Deed.runAll t ds)
  | (.error stop, t) => (.error stop, t)

/-- To ask for the balance of the node is a look, and a skip if the answer is for another
block. -/
theorem liveBalance_eq (h : Holding) (block : BlockId) :
    a.liveBalance h block = a.inquire h block >>= fun answer =>
      if answer.1 = block then pure (some answer.2) else skipped >>= fun _ => pure none := by
  simp only [liveBalance, inquire, bind_assoc]

/-- The look finds an answer, and it counts as skipped if it is for another block. -/
theorem liveBalance_of_ok {h : Holding} {block : BlockId} {answer : BlockId × Decimal}
    (looked : (a.inquire h block).eval s = (.ok answer, t)) (isOpen : t.store.closed = false) :
    (a.liveBalance h block).eval s =
      if answer.1 = block then (.ok (some answer.2), t)
      else (.ok none, t.raise .skippedReconciliations) := by
  rw [liveBalance_eq, Step.eval_bind, looked]
  dsimp only
  split
  · rfl
  · rw [Step.eval_bind, skipped, Step.eval_count isOpen]
    rfl

/-- A look that stops is as far as it goes. -/
theorem liveBalance_of_error {h : Holding} {block : BlockId} {stop : Stop ReconcileError}
    (looked : (a.inquire h block).eval s = (.error stop, t)) :
    (a.liveBalance h block).eval s = (.error stop, t) := by
  rw [liveBalance_eq, Step.eval_bind, looked]

/-- Asking leaves the store alone. -/
theorem store_inquire (h : Holding) (block : BlockId) :
    ((a.inquire h block).eval s).2.store = s.store := by
  rw [eval_inquire]

/-- To ask for the balance of the node and go on with it is a look and then its deeds, if it
is so for a balance at the block, and without one once the skip was counted. -/
theorem liveBalance_bind_eval {h : Holding} {block : BlockId}
    {next : Option Decimal → Step (Session σ) ReconcileError Unit}
    {deeds : BlockId × Decimal → List Deed} (isOpen : s.store.closed = false)
    (here : ∀ (t : Session σ) live, t.store.closed = false → (next (some live)).eval t =
      (Deed.outcome (deeds (block, live)), Deed.runAll t (deeds (block, live))))
    (elsewhere : ∀ (t : Session σ) answer, answer.1 ≠ block →
      (next none).eval (t.raise .skippedReconciliations) =
        (Deed.outcome (deeds answer), Deed.runAll t (deeds answer))) :
    (a.liveBalance h block >>= next).eval s =
      performed ((a.inquire h block >>= fun answer => pure (deeds answer)).eval s) := by
  rw [Step.eval_bind, Step.eval_bind]
  have store := store_inquire (a := a) (s := s) h block
  rcases looked : (a.inquire h block).eval s with ⟨stop | answer, t⟩
  · rw [liveBalance_of_error looked]
    rfl
  · rw [looked] at store
    -- The answer leaves the store open, so that the deeds find it as the look did.
    have open' : t.store.closed = false := by rw [store]; exact isOpen
    rw [liveBalance_of_ok looked open']
    by_cases same : answer.1 = block
    · obtain ⟨_, live⟩ := answer
      cases same
      rw [if_pos rfl]
      exact here t live open'
    · rw [if_neg same]
      exact elsewhere t answer same

/-- **An active check is its look and then its deeds.** -/
theorem checkActive_eval (isOpen : s.store.closed = false) (c : Change) :
    (a.checkActive c).eval s = performed ((a.lookActive c).eval s) := by
  unfold checkActive lookActive
  by_cases exempt : a.settings.isExempt c.holding = true
  · rw [if_pos exempt, if_pos exempt, exempted, Step.eval_count isOpen]
    rfl
  · rw [if_neg exempt, if_neg exempt]
    refine liveBalance_bind_eval isOpen (fun t live open' => ?_) fun t answer other => ?_
    · rw [activeDeeds, if_pos rfl]
      exact conclude_eval open' _ _ _ _ _
    · rw [activeDeeds, if_neg other]
      rfl

/-- **The check of a claimed holding is its look and then its deeds.** -/
theorem checkInactive_eval (isOpen : s.store.closed = false) (h : Holding) (claimedAt : Int) :
    (a.checkInactive h claimedAt).eval s = performed ((a.lookInactive h claimedAt).eval s) := by
  unfold checkInactive lookInactive
  by_cases exempt : a.settings.isExempt h = true
  · rw [if_pos exempt, if_pos exempt, exempted, Step.eval_bind, Step.eval_onTracker]
    exact Step.eval_count (by exact isOpen) _
  · rw [if_neg exempt, if_neg exempt, Step.eval_bind, Step.eval_bind,
      Step.eval_read_of_open isOpen]
    cases found : s.store.ledger.snapshot? h with
    | none => simp only [found]; rfl
    | some snapshot =>
      obtain ⟨r, head⟩ := snapshot
      simp only [found]
      obtain ⟨_, b, _, rfl⟩ := Ledger.snapshot?_eq_some_iff.mp found
      refine liveBalance_bind_eval isOpen (fun t live open' => ?_) fun t answer other => ?_
      · rw [inactiveDeeds, if_pos rfl]
        exact conclude_eval open' _ _ _ _ _
      · rw [inactiveDeeds, if_neg other]
        rfl

end Auditor

end BalanceAudit
