import BalanceAudit.Proofs.Chain.TwoBlocks
import BalanceAudit.Proofs.Sweep.Workers

/-!
# Interesting holdings

A reconciler that starts tracks the interesting holdings along with the stored ones, so
its first sweep claims each of them. It compares those that have a balance record; the
others are marked as visited, and whatever the node may hold for them goes unnoticed.

- `Auditor.begun`: what a reconciler starts its first sweep from.
- `Auditor.InterestingOnce`: what a sweep that has become idle did for a holding.
- `Auditor.sweeps_interesting`: **each interesting holding is visited once, and compared
  iff it has a record**; so it is in the first round of a run.
- `Auditor.startReconciler_unseen`: a balance that no block explains is not reported.
-/

namespace BalanceAudit

variable {σ : Type}

namespace Tracker

variable {t : Tracker} {h : Holding}

theorem find?_add (t : Tracker) (h h' : Holding) :
    (t.add h').find? h = (t.find? h).or (if h = h' then some {} else none) := by
  unfold add Table.contains
  by_cases same : h = h'
  · subst same
    cases found : t.find? h with
    | none => simp [Table.find?_insert]
    | some tracked => simp [found]
  · cases found : t.find? h' with
    | none => simp [Table.find?_insert, same]
    | some tracked => simp [same]

/-- What was tracked stays as it is, and the rest of the list was never checked. -/
theorem find?_track (hs : List Holding) (h : Holding) : ∀ t : Tracker,
    (t.track hs).find? h = (t.find? h).or (if h ∈ hs then some {} else none) := by
  induction hs with
  | nil => simp [track]
  | cons h' hs ih =>
    intro t
    show ((t.add h').track hs).find? h = _
    rw [ih, find?_add, Option.or_assoc]
    by_cases same : h = h'
    · simp [same]
    · simp [same]

/-- From the start all that is tracked is due, whatever the frequency. -/
theorem mem_due_track {hs : List Holding} {head frequency : Int} :
    h ∈ ((∅ : Tracker).track hs).due head frequency ↔ h ∈ hs := by
  rw [mem_due, find?_track, Table.find?_empty, Option.none_or]
  by_cases mem : h ∈ hs
  · simp [mem, Tracked.isDue?]
  · simp [mem]

/-- Nothing was checked yet, so that no distance is asked for. -/
theorem told_track {hs : List Holding} {head : Int} : ((∅ : Tracker).track hs).Told head := by
  intro h x held _ last checked
  rw [find?_track, Table.find?_empty, Option.none_or] at held
  split at held
  · cases held
    cases checked
  · cases held

end Tracker

/-- A holding that was claimed has one check. -/
theorem Crew.filter_eq_singleton {u : Crew σ (Holding × Int)} {h : Holding}
    (distinct : u.claimed.Nodup) (mem : h ∈ u.claimed) :
    ∃ errand ∈ u.errands, errand.subject.1 = h ∧
      u.errands.filter (·.subject.1 = h) = [errand] := by
  obtain ⟨errand, here, rfl⟩ := List.mem_map.mp mem
  obtain ⟨before, after, split⟩ := List.append_of_mem here
  refine ⟨errand, here, rfl, ?_⟩
  rw [Crew.claimed, split, List.map_append, List.map_cons, List.nodup_middle,
    List.nodup_cons, List.mem_append, not_or] at distinct
  have others : ∀ es : List (Errand (Holding × Int)), errand.subject.1 ∉ es.map (·.subject.1) →
      es.filter (·.subject.1 = errand.subject.1) = [] := by
    intro es apart
    refine List.filter_eq_nil_iff.mpr fun e mem same => apart ?_
    exact of_decide_eq_true same ▸ List.mem_map_of_mem mem
  rw [split, List.filter_append, others before distinct.1.1, List.filter_cons_of_pos (by simp),
    others after distinct.1.2, List.nil_append]

namespace Auditor

variable {a : Auditor σ} {s t : Session σ} {head : BlockId} {k : Nat}
  {u : Crew σ (Holding × Int)} {h : Holding}

/-- A new reconciler at its first sweep: it tracks what is stored and what is
interesting, and all of its workers are there. -/
def begun (a : Auditor σ) (s : Session σ) : Session σ :=
  { s with
    tracker := (∅ : Tracker).track (s.store.ledger.holdings ++ a.settings.interesting)
    sweepers := { asleep := a.settings.inactive } }

/-- The workers that are asleep sweep in turn, and go back to sleep for a while. -/
theorem eval_wake {ε : Type} (a : Auditor σ) (s : Session σ) :
    (a.wake : Step (Session σ) ε Unit).eval s =
      match (a.sweepRound s.sweepers.asleep { s.sweepers with asleep := 0 } :
        Step (Session σ) ε Sweepers).eval s with
      | (.ok w, t) =>
        (.ok (), { t with sweepers := { w with wakeMs := t.world.clock.nowMs + a.sleepMs } })
      | (.error stop, t) => (.error stop, t) := by
  rw [wake, Step.eval_bind, Step.eval_get]
  dsimp only
  rw [Step.eval_bind]
  split
  · next w t eq => rw [eq]; rfl
  · next stop t eq => rw [eq]

/-- The first round of a reconciler. -/
theorem eval_startReconciler (a : Auditor σ) (isOpen : s.store.closed = false)
    (fresh : s.tracker = ∅) : a.startReconciler.eval s = a.wake.eval (a.begun s) := by
  rw [startReconciler, Step.eval_bind, a.eval_trackKnown isOpen]
  show a.wake.eval { s with
    tracker := s.tracker.track (s.store.ledger.holdings ++ a.settings.interesting)
    sweepers := { asleep := a.settings.inactive } } = _
  rw [fresh, begun]

/-- What workers that have become idle did for a holding that is not exempt: there was one
check, which compared the balance record with an answer of the node and raised one
counter, or found no record and raised none. -/
def InterestingOnce (a : Auditor σ) (l : Ledger) (head : BlockId) (u : Crew σ (Holding × Int))
    (h : Holding) : Prop :=
  ∃ errand, u.errands.filter (·.subject.1 = h) = [errand] ∧
    match l.balances.find? h with
    | some b =>
      (∃ answer, errand.done = a.inactiveDeeds ⟨h, b⟩ head answer) ∧
        ∃ k ∈ Counter.ofSweeps, Deed.counters errand.done = [k]
    | none => errand.done = [.note h head.index .pending] ∧ Deed.counters errand.done = []

/-- **Every interesting holding is visited once**, when the workers of a new reconciler
have become idle for the first time, and it is compared iff it has a balance record. A
round of a run from which all workers go back to sleep is such a sweep. -/
theorem sweeps_interesting (some_worker : 0 < a.settings.inactive)
    (isOpen : s.store.closed = false) (found : s.store.ledger.head? = some head)
    (fresh : s.tracker = ∅) :
    (∀ k u, a.Sweeps a.settings.inactive k ⟨a.begun s, []⟩ u → u.isOver = true →
      (a.claim.eval u.session).1 = .ok none →
        u.session.store.ledger = s.store.ledger.raised (Deed.counters u.deeds) ∧
        ∀ h ∈ a.settings.interesting, a.settings.isExempt h = false →
          a.InterestingOnce s.store.ledger head u h) ∧
      ∀ t, a.startReconciler.eval s = (.ok (), t) → t.sweepers.asleep = a.settings.inactive →
        t.world.isCanceled = false →
        ∃ k u sweepers, a.Sweeps a.settings.inactive k ⟨a.begun s, []⟩ u ∧ u.isOver = true ∧
          (a.claim.eval u.session).1 = .ok none ∧ t = { u.session with sweepers } := by
  have told : (a.begun s).tracker.Told head.index := Tracker.told_track
  constructor
  · intro k u sweeps finished idle
    have shift := (Shift.start a (a.begun s) head).sweeps isOpen found sweeps
    refine ⟨by rw [shift.store]; rfl, fun h interesting checks => ?_⟩
    -- All that was tracked was due, and workers are idle once all that was due is claimed.
    have claimed : h ∈ u.claimed :=
      ((shift.claim_eq_none_iff isOpen found told).mp idle).mem_iff.mpr
        (Tracker.mem_due_track.mpr (List.mem_append_right _ interesting))
    obtain ⟨errand, here, rfl, only⟩ := Crew.filter_eq_singleton shift.distinct claimed
    have visits : a.Visits s.store.ledger head errand.subject errand.done :=
      (shift.proper errand here).done (List.all_eq_true.mp finished errand here)
    refine ⟨errand, only, ?_⟩
    cases seen : s.store.ledger.balances.find? errand.subject.1 with
    | none =>
      have done := visits.unseen checks seen
      exact ⟨done, by rw [done]; rfl⟩
    | some b =>
      obtain ⟨answer, done⟩ := visits.seen checks b seen
      exact ⟨⟨answer, done⟩, done ▸ a.counters_inactiveDeeds _ _ _⟩
  · intro t eq asleep going
    have sleepers : (a.begun s).sweepers = { asleep := a.settings.inactive } := rfl
    rw [eval_startReconciler a isOpen fresh, eval_wake, sleepers] at eq
    rcases round : (a.sweepRound a.settings.inactive { asleep := 0 } :
      Step (Session σ) ReconcileError Sweepers).eval (a.begun s) with ⟨stop | w, u⟩
    · rw [round] at eq
      cases eq
    · rw [round] at eq
      cases eq
      have all : w.asleep = 0 + a.settings.inactive := by simpa using asleep
      obtain ⟨k, v, sweeps, rfl, finished, idle⟩ :=
        sweepRound_sweeps (s := a.begun s) some_worker isOpen found a.settings.inactive
          (Shift.start a _ head) rfl (fun none_ => absurd none_ some_worker.ne') round all going
      exact ⟨k, v, _, sweeps, finished, idle, rfl⟩

/-- Of two interesting holdings one has a balance record. -/
theorem sweeps_interesting_gap :
    let tip : BlockId := ⟨1, "b"⟩
    let bob : Holding := ⟨⟨"bob", none⟩, ⟨"BTC", 8⟩⟩
    let a : Auditor Unit := ⟨Chain.gap.node, { halt := false, interesting := [.alice, bob] }⟩
    let s : Session Unit :=
      { world := World.enter { node := () }
        store := { ledger :=
          { blocks := Table.ofList [(1, "b")],
            balances := Table.ofList [(.alice, ⟨.whole 1, tip⟩)] } } }
    ∃ k u, a.Sweeps 4 k ⟨a.begun s, []⟩ u ∧ u.isOver = true ∧
      (a.claim.eval u.session).1 = .ok none ∧
      a.InterestingOnce s.store.ledger tip u .alice ∧
      a.InterestingOnce s.store.ledger tip u bob := by
  intro tip bob a s
  have found : s.store.ledger.head? = some tip := by decide +kernel
  obtain ⟨visits, rounds⟩ := sweeps_interesting (a := a) (s := s) (by decide) rfl found rfl
  have round : a.startReconciler.eval s = (.ok (), (a.startReconciler.eval s).2) :=
    Prod.ext (by decide +kernel) rfl
  obtain ⟨k, u, _, sweeps, finished, idle, -⟩ :=
    rounds _ round (by decide +kernel) (by decide +kernel)
  have visited := (visits k u sweeps finished idle).2
  exact ⟨k, u, sweeps, finished, idle, visited .alice List.mem_cons_self (by decide +kernel),
    visited bob (List.mem_cons_of_mem _ List.mem_cons_self) (by decide +kernel)⟩

/-- The node holds something for an interesting holding that no block has named. All
workers come to be idle, and nothing was compared. -/
theorem startReconciler_unseen :
    let tip : BlockId := ⟨1, "b"⟩
    let a : Auditor Unit := ⟨Chain.gap.node, { halt := false, interesting := [.alice] }⟩
    let s : Session Unit :=
      { world := World.enter { node := () }
        store := { ledger := { blocks := Table.ofList [(1, "b")] } } }
    s.store.ledger.head? = some tip ∧
      (a.node.balance .alice (some tip) ()).1 = .replied (.ok (tip, .whole 3)) ∧
      a.settings.isExempt .alice = false ∧
      ∃ t, a.startReconciler.eval s = (.ok (), t) ∧
        t.sweepers.asleep = a.settings.inactive ∧ (a.claim.eval t).1 = .ok none ∧
        t.tracker.entries = [(.alice, ⟨some 1, .pending⟩)] ∧
        Counter.ofSweeps.map t.counted = [0, 0, 0] := by
  intro tip a s
  have round : a.startReconciler.eval s = (.ok (), (a.startReconciler.eval s).2) :=
    Prod.ext (by decide +kernel) rfl
  refine ⟨by decide +kernel, rfl, by decide +kernel, _, round, ?_⟩
  decide +kernel

end Auditor

end BalanceAudit
