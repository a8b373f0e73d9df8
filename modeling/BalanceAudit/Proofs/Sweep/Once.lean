import BalanceAudit.Proofs.Chain.TwoBlocks
import BalanceAudit.Proofs.Sweep.Abreast
import BalanceAudit.Proofs.Sweep.Workers

/-!
# A sweep comes by once

While the head stays where it is, workers claim every holding that is due once and no
other one, check it, and then they are idle. Where a distance to the head overflows, the
first claim already does, and nothing happens at all.

- `Auditor.weighs`: the holdings whose check raises a counter.
- `Auditor.SweepsOnce`: what there is to say of workers after a number of steps.
- `Auditor.sweeps_of_untold`: what there is to say where a distance overflows.
- `Auditor.sweeps_once`: **so it is after any number of steps**, in any order, and the
  sweeps of a run are such steps, until the workers are idle.
-/

namespace BalanceAudit

variable {σ : Type}

/-- The counters of the results that a check of a sweep may have. -/
def Counter.ofVisits : List Counter := .exemptReconciliations :: ofSweeps

namespace Auditor

variable {a : Auditor σ} {n k : Nat} {s : Session σ} {head : BlockId}
  {u v : Crew σ (Holding × Int)}

/-- The check of the holding raises a counter: it is exempt or has a balance record. -/
def weighs (a : Auditor σ) (l : Ledger) (h : Holding) : Bool :=
  a.settings.isExempt h || l.balances.contains h

/-- What `n` workers that started in `s` have come to after `k` steps, when `head` was
the head all the time. -/
structure SweepsOnce (a : Auditor σ) (n : Nat) (s : Session σ) (head : BlockId) (k : Nat)
    (u : Crew σ (Holding × Int)) : Prop where
  /-- What was claimed was due when the sweep started, and nothing was claimed twice. -/
  once : u.claimed.Nodup ∧
    ∀ h ∈ u.claimed, h ∈ s.tracker.due head.index a.settings.inactiveFrequency
  /-- Each holding that was due takes no more than six steps. -/
  ends : k ≤ (s.tracker.due head.index a.settings.inactiveFrequency).length * 6
  /-- The workers are idle, or one of them has the next step, or a look that is due finds
  no answer. -/
  goes : (u.isOver = true ∧ (a.claim.eval u.session).1 = .ok none) ∨
    (∃ v, a.Sweeping n u v) ∨
    ∃ errand ∈ u.errands, errand.left = none ∧
      ∀ ds t, (a.lookClaimed errand.subject).eval u.session ≠ (.ok ds, t)
  /-- There is nothing to claim iff everything that was due has been claimed. -/
  idle_iff : (a.claim.eval u.session).1 = .ok none ↔
    u.claimed.Perm (s.tracker.due head.index a.settings.inactiveFrequency)
  /-- Then there never is again. -/
  idle : (a.claim.eval u.session).1 = .ok none → ∀ m v, a.Sweeps n m u v →
    (a.claim.eval v.session).1 = .ok none ∧ v.claimed = u.claimed
  /-- A check that is over raised one counter once, if the holding is exempt or has a
  record, and otherwise none. -/
  each : ∀ errand ∈ u.errands, errand.isOver = true →
    if a.weighs s.store.ledger errand.subject.1 then
      ∃ k ∈ Counter.ofVisits, Deed.counters errand.done = [k]
    else Deed.counters errand.done = []
  /-- Every counter was raised as often as the checks did. -/
  counted : ∀ k : Counter, u.session.counted k =
    min (s.counted k + (Deed.counters u.deeds).count k) Count.greatest
  /-- When all checks are over, these add up to one for each holding that was claimed and
  is exempt or has a record. -/
  total : u.isOver = true →
    (Counter.ofVisits.map fun k => (Deed.counters u.deeds).count k).sum =
        u.claimed.countP (a.weighs s.store.ledger) ∧
      ∀ k ∉ Counter.ofVisits, (Deed.counters u.deeds).count k = 0

/-- What a check that is over raised. -/
theorem Visits.weighs {l : Ledger} {x : Holding × Int} {ds : List Deed}
    (visits : a.Visits l head x ds) :
    if a.weighs l x.1 then ∃ k ∈ Counter.ofVisits, Deed.counters ds = [k]
    else Deed.counters ds = [] := by
  unfold Auditor.weighs
  cases exempt : a.settings.isExempt x.1 with
  | true =>
    rw [visits.exempt exempt]
    exact ⟨.exemptReconciliations, by decide, rfl⟩
  | false =>
    rw [Bool.false_or, Table.contains]
    cases seen : l.balances.find? x.1 with
    | none =>
      rw [visits.unseen exempt seen]
      rfl
    | some b =>
      obtain ⟨answer, rfl⟩ := visits.seen exempt b seen
      obtain ⟨k, mem, counters⟩ := a.counters_inactiveDeeds ⟨x.1, b⟩ head answer
      exact ⟨k, List.mem_cons_of_mem _ mem, counters⟩

/-- One counter for each check that raises one, and none for the others. -/
theorem total_of_over {p : Holding → Bool} (errands : List (Errand (Holding × Int)))
    (each : ∀ errand ∈ errands,
      if p errand.subject.1 then ∃ k ∈ Counter.ofVisits, Deed.counters errand.done = [k]
      else Deed.counters errand.done = []) :
    (Counter.ofVisits.map fun k =>
        (Deed.counters (errands.flatMap (·.done))).count k).sum =
        (errands.map (·.subject.1)).countP p ∧
      ∀ k ∉ Counter.ofVisits, (Deed.counters (errands.flatMap (·.done))).count k = 0 := by
  induction errands with
  | nil => exact ⟨rfl, fun _ _ => rfl⟩
  | cons errand errands ih =>
    obtain ⟨sum, others⟩ := ih fun e mem => each e (List.mem_cons_of_mem _ mem)
    have first := each errand List.mem_cons_self
    rw [List.flatMap_cons, Deed.counters_append, List.map_cons, List.countP_cons]
    by_cases one : p errand.subject.1 = true
    · rw [if_pos one] at first
      obtain ⟨k, mem, counters⟩ := first
      constructor
      · -- Whichever of the four counters it is, its count goes up by one and so does the sum.
        simp only [Counter.ofVisits, Counter.ofSweeps, List.mem_cons, List.not_mem_nil,
          or_false] at mem
        simp only [Counter.ofVisits, Counter.ofSweeps, List.map_cons, List.map_nil,
          List.sum_cons, List.sum_nil, counters, List.count_append, one, if_true] at sum ⊢
        rcases mem with rfl | rfl | rfl | rfl
        all_goals
          simp only [List.count_singleton, beq_iff_eq, reduceCtorEq, if_true, if_false]
          omega
      · intro k' other
        have apart : k ≠ k' := fun same => other (same ▸ mem)
        simp [counters, others k' other, apart]
    · rw [if_neg one] at first
      rw [first, List.nil_append, if_neg one]
      exact ⟨sum, others⟩

/-- While there is nothing to claim, nothing is claimed. -/
theorem Shift.idle (shift : a.Shift s head u) (isOpen : s.store.closed = false)
    (found : s.store.ledger.head? = some head) (told : s.tracker.Told head.index)
    (nothing : (a.claim.eval u.session).1 = .ok none) (sweeps : a.Sweeps n k u v) :
    (a.claim.eval v.session).1 = .ok none ∧ v.claimed = u.claimed := by
  have all := (shift.claim_eq_none_iff isOpen found told).mp nothing
  have later := shift.sweeps isOpen found sweeps
  have claimed : v.claimed = u.claimed := by
    clear later
    induction sweeps with
    | none => rfl
    | @more k u v w first last ih =>
      have same := ih shift nothing all
      have between := shift.sweeps isOpen found first
      rw [← same]
      cases last with
      | claim _ claims =>
        -- Nothing was left to claim, since all of it had been claimed.
        have none_ := (between.claim_eq_none_iff isOpen found told).mpr (same ▸ all)
        rw [claims] at none_
        cases none_
      | check turn => exact claimed_of_turn turn
  exact ⟨(later.claim_eq_none_iff isOpen found told).mpr (claimed ▸ all), claimed⟩

/-- Workers that are not idle go on, unless a look finds no answer. -/
theorem Shift.goes (shift : a.Shift s head u) (some_worker : 0 < n)
    (isOpen : s.store.closed = false) (found : s.store.ledger.head? = some head)
    (told : s.tracker.Told head.index) :
    (u.isOver = true ∧ (a.claim.eval u.session).1 = .ok none) ∨
      (∃ v, a.Sweeping n u v) ∨
      ∃ errand ∈ u.errands, errand.left = none ∧
        ∀ ds t, (a.lookClaimed errand.subject).eval u.session ≠ (.ok ds, t) := by
  cases finished : u.isOver with
  | false =>
    -- Some errand's look that cannot end is all that keeps the crew from a turn.
    by_cases answered : ∀ errand ∈ u.errands, errand.left = none →
        ∃ ds t, (a.lookClaimed errand.subject).eval u.session = (.ok ds, t)
    · have fresh : ∀ errand ∈ u.errands, errand.left = none → errand.done = [] := by
        intro errand mem waits
        have proper := shift.proper errand mem
        rwa [Errand.Proper, waits] at proper
      obtain ⟨v, turn⟩ := Crew.exists_turn finished answered fresh
      exact .inr (.inl ⟨v, .check turn⟩)
    · push Not at answered
      obtain ⟨errand, mem, waits, silent⟩ := answered
      exact .inr (.inr ⟨errand, mem, waits, silent⟩)
  | true =>
    have eval := eval_claim (a := a) (shift.isOpen isOpen) (shift.head?.trans found)
    rcases claims : u.session.tracker.claim? head.index a.settings.inactiveFrequency with
      _ | _ | ⟨h, tracker⟩
    · exact absurd (shift.told told) (Tracker.claim?_eq_none_iff.mp claims)
    · rw [claims] at eval
      exact .inl ⟨rfl, by rw [eval]⟩
    · rw [claims] at eval
      have free := countP_busy_of_over finished
      exact .inr (.inl ⟨_, .claim (by omega) eval⟩)

/-- Where a distance overflows, no worker takes a first step: there is nothing to go on with,
and no claim. -/
theorem no_sweeping_of_untold (isOpen : s.store.closed = false)
    (found : s.store.ledger.head? = some head) (far : ¬s.tracker.Told head.index) :
    ¬a.Sweeping n ⟨s, []⟩ v := by
  intro step
  generalize start : (⟨s, []⟩ : Crew σ (Holding × Int)) = u at step
  cases step with
  | claim _ claims =>
    cases start
    rw [eval_claim isOpen found, Tracker.claim?_eq_none_iff.mpr far] at claims
    cases claims
  | check turn => cases turn with
    | look before after => simpa using congrArg Crew.errands start
    | act before after => simpa using congrArg Crew.errands start

/-- Then there is no step at all. -/
theorem sweeps_of_untold (isOpen : s.store.closed = false)
    (found : s.store.ledger.head? = some head) (far : ¬s.tracker.Told head.index)
    (sweeps : a.Sweeps n k ⟨s, []⟩ u) : k = 0 ∧ u = ⟨s, []⟩ := by
  generalize start : (⟨s, []⟩ : Crew σ (Holding × Int)) = idle at sweeps
  induction sweeps with
  | none => exact ⟨rfl, rfl⟩
  | more _ last ih =>
    obtain ⟨-, same⟩ := ih start
    subst same start
    exact absurd last (no_sweeping_of_untold isOpen found far)

/-- **A sweep visits every holding that is due exactly once, and then it is idle.** This
holds however the workers take turns, if the distance from the head to every last check is a
word. If one is not, the first claim overflows, and nothing changes. A round of sweeps of a
run that goes by without an error is one in which the workers come to be idle.

Runs leave only such distances, at whatever call the node falls silent, unless they stored
more blocks than there are words from zero on. -/
theorem sweeps_once (some_worker : 0 < n) (isOpen : s.store.closed = false)
    (found : s.store.ledger.head? = some head) :
    (s.tracker.Told head.index → ∀ k u, a.Sweeps n k ⟨s, []⟩ u → a.SweepsOnce n s head k u) ∧
      (¬s.tracker.Told head.index → a.claim.eval s = (.error (.overflow .distance), s) ∧
        ∀ k u, a.Sweeps n k ⟨s, []⟩ u → k = 0 ∧ u = ⟨s, []⟩) ∧
      (∀ {ε : Type} (w w' : Sweepers) (t : Session σ),
        (a.sweepRound n w : Step (Session σ) ε Sweepers).eval s = (.ok w', t) →
        w'.asleep = w.asleep + n → t.world.isCanceled = false →
        ∃ k u, a.Sweeps n k ⟨s, []⟩ u ∧ u.session = t ∧ u.isOver = true ∧
          (a.claim.eval t).1 = .ok none) ∧
      ∀ first last (x t : Session σ), x.Untried → ((a.runPipeline first last).eval x).2 = t →
        ∀ tip, t.store.ledger.head? = some tip →
          (t.store.ledger.blocks.entries.length : Int) ≤ Index.greatest + 1 →
          t.tracker.Told tip.index := by
  refine ⟨?_, ?_, ?_, ?_⟩
  · intro told k u sweeps
    have shift := (Shift.start a s head).sweeps isOpen found sweeps
    -- Claims are distinct holdings of those due at the start, which bounds their number and
    -- with it the turns.
    have once : ∀ h ∈ u.claimed, h ∈ s.tracker.due head.index a.settings.inactiveFrequency := by
      intro h mem
      obtain ⟨errand, here, rfl⟩ := List.mem_map.mp mem
      exact (shift.due errand here).2
    have each : ∀ errand ∈ u.errands, errand.isOver = true →
        if a.weighs s.store.ledger errand.subject.1 then
          ∃ k ∈ Counter.ofVisits, Deed.counters errand.done = [k]
        else Deed.counters errand.done = [] := fun errand mem finished =>
      ((shift.proper errand mem).done finished).weighs
    refine ⟨⟨shift.distinct, once⟩, ?_, shift.goes some_worker isOpen found told,
      shift.claim_eq_none_iff isOpen found told,
      fun nothing m v later => shift.idle isOpen found told nothing later, each, ?_, ?_⟩
    · have age : u.age = k := by
        have steps := sweeps.age
        rwa [show Crew.age ⟨s, []⟩ = 0 from rfl, Nat.zero_add] at steps
      calc k = u.age := age.symm
        _ ≤ u.errands.length * 6 := Crew.age_le shift.proper fun _ _ visits => visits.notes.1
        _ = u.claimed.length * 6 := by rw [Crew.claimed, List.length_map]
        _ ≤ _ := Nat.mul_le_mul_right 6 (List.subperm_of_subset shift.distinct once).length_le
    · intro k
      show ((u.session.store.ledger.counted k.name).value) = _
      rw [shift.store]
      exact Ledger.value_counted_raised _ _ k
    · exact fun finished => total_of_over u.errands fun errand mem =>
        each errand mem (List.all_eq_true.mp finished errand mem)
  · intro far
    refine ⟨?_, fun k u sweeps => sweeps_of_untold isOpen found far sweeps⟩
    rw [eval_claim isOpen found, Tracker.claim?_eq_none_iff.mpr far]
  · intro ε w w' t eq asleep going
    exact sweepRound_sweeps some_worker isOpen found n (Shift.start a s head) rfl
      (fun none_ => absurd none_ some_worker.ne') eq asleep going
  · rintro first last x y untried ran tip there few
    exact (a.abreast_of_untried first last untried ran).told there (fun _ => False.elim) few

/-- Of two holdings that are due one has a balance record. -/
theorem sweeps_once_gap :
    let tip : BlockId := ⟨1, "b"⟩
    let bob : Holding := ⟨⟨"bob", none⟩, ⟨"BTC", 8⟩⟩
    let a : Auditor Unit := ⟨Chain.gap.node, { halt := false }⟩
    let l : Ledger :=
      { blocks := (∅ : Table Int String).insert 1 "b",
        balances := (∅ : Table Holding Balance).insert .alice ⟨.whole 1, tip⟩ }
    let s : Session Unit :=
      { world := { node := () }, store := { ledger := l },
        tracker := (∅ : Tracker).track [.alice, bob] }
    [Holding.alice, bob].countP (a.weighs l) = 1 ∧
      ∃ k u, a.Sweeps 2 k ⟨s, []⟩ u ∧ u.isOver = true ∧ a.SweepsOnce 2 s tip k u ∧
        u.claimed.Perm [.alice, bob] := by
  intro tip bob a l s
  have never : ∀ h tracked, s.tracker.find? h = some tracked → tracked.lastChecked = none := by
    intro h tracked found
    have mem := Table.find?_eq_some_iff.mp found
    have entries : s.tracker.entries = [(.alice, {}), (bob, {})] := by decide +kernel
    rw [entries] at mem
    rcases List.mem_pair.mp mem with same | same
    all_goals
      cases same
      rfl
  have due : s.tracker.due 1 a.settings.inactiveFrequency = [.alice, bob] := by decide +kernel
  have found : s.store.ledger.head? = some tip := by decide +kernel
  have told : s.tracker.Told tip.index := by
    intro h tracked held _ last checked
    rw [never h tracked held] at checked
    cases checked
  obtain ⟨once, -, rounds, -⟩ := sweeps_once (a := a) (s := s) (n := 2) (by decide) rfl found
  let round : Step (Session Unit) ReconcileError Sweepers := a.sweepRound 2 {}
  have goes : round.eval s = (.ok { asleep := 2 }, (round.eval s).2) :=
    Prod.ext (by decide +kernel) rfl
  obtain ⟨k, u, sweeps, same, finished, idle⟩ := rounds {} _ _ goes rfl (by decide +kernel)
  rw [← same] at idle
  have visits := once told k u sweeps
  exact ⟨by decide +kernel, k, u, sweeps, finished, visits, due ▸ visits.idle_iff.mp idle⟩

end Auditor

end BalanceAudit
