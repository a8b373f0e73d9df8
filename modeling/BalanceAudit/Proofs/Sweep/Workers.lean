import BalanceAudit.Proofs.Cancellation
import BalanceAudit.Proofs.Sweep.Claims

/-!
# Workers that sweep together

Workers claim holdings that are due and check them, several at once, while the head
stays where it is. Whose turn it is next, to claim or to go on with a check, is left
open, and so is what the node answers.

- `Auditor.Sweeping`: one step of the workers; `Auditor.Sweeps`: a number of steps.
- `Auditor.Shift`: what holds whatever the workers did so far; `Auditor.Shift.step`,
  `Auditor.Shift.sweeps`: they keep it.
- `Auditor.Shift.mem_due`: what is due now is what was due at first and has not been
  claimed.
-/

namespace BalanceAudit

variable {σ : Type}

/-- The holdings that were claimed, in order. -/
def Crew.claimed (u : Crew σ (Holding × Int)) : List Holding := u.errands.map (·.subject.1)

namespace Auditor

variable {a : Auditor σ} {n k : Nat} {s : Session σ} {head : BlockId}
  {u v : Crew σ (Holding × Int)}

/-- The look of the check of a claimed holding. -/
abbrev lookClaimed (a : Auditor σ) : Holding × Int → Step (Session σ) ReconcileError (List Deed) :=
  fun x => a.lookInactive x.1 x.2

/-- One of `n` workers claims a holding, if it is not busy with another one, or goes on
with its check. -/
inductive Sweeping (a : Auditor σ) (n : Nat) :
    Crew σ (Holding × Int) → Crew σ (Holding × Int) → Prop where
  | claim {s t : Session σ} {errands : List (Errand (Holding × Int))} {x : Holding × Int}
      (free : errands.countP (!·.isOver) < n) (claimed : a.claim.eval s = (.ok (some x), t)) :
      Sweeping a n ⟨s, errands⟩ ⟨t, errands ++ [{ subject := x }]⟩
  | check {u v : Crew σ (Holding × Int)} (turn : Crew.Turn a.lookClaimed u v) : Sweeping a n u v

/-- No worker is busy when all checks are over. -/
theorem countP_busy_of_over (finished : u.isOver = true) : u.errands.countP (!·.isOver) = 0 := by
  rw [List.countP_eq_zero]
  intro errand mem
  simp [List.all_eq_true.mp finished errand mem]

/-- A turn claims nothing. -/
theorem claimed_of_turn (turn : Crew.Turn a.lookClaimed u v) : v.claimed = u.claimed := by
  have firsts := congrArg (List.map (·.1)) turn.subjects
  rwa [List.map_map, List.map_map] at firsts

/-- Steps of `n` workers, and how many they are. -/
inductive Sweeps (a : Auditor σ) (n : Nat) :
    Nat → Crew σ (Holding × Int) → Crew σ (Holding × Int) → Prop where
  | none (u : Crew σ (Holding × Int)) : Sweeps a n 0 u u
  | more {k : Nat} {u v w : Crew σ (Holding × Int)} (first : Sweeps a n k u v)
      (last : Sweeping a n v w) : Sweeps a n (k + 1) u w

theorem Sweeping.age (step : a.Sweeping n u v) : v.age = u.age + 1 := by
  cases step with
  | claim => simp [Crew.age, Errand.age]
  | check turn => exact turn.age

theorem Sweeps.age (sweeps : a.Sweeps n k u v) : v.age = u.age + k := by
  induction sweeps with
  | none => rfl
  | more _ last ih => rw [last.age, ih, Nat.add_assoc]

theorem Sweeps.append {m : Nat} {w : Crew σ (Holding × Int)} (first : a.Sweeps n k u v)
    (last : a.Sweeps n m v w) : a.Sweeps n (k + m) u w := by
  induction last with
  | none => exact first
  | more _ step ih => exact .more (ih first) step

/-! ## What holds at any time

The tracker is what it was at first, but for the claimed holdings, and these are marked by
what their checks did. -/

/-- How a holding is marked whose check did `done`: it is claimed, and once an outcome was
noted, checked at the head. -/
def Marked (head : BlockId) (done : List Deed) (tracked : Tracked) : Prop :=
  if Deed.notes done = [] then
    tracked.status = .checking ∧ ∀ last, tracked.lastChecked = some last → last ≤ head.index
  else tracked.status ≠ .checking ∧ tracked.lastChecked = some head.index

/-- Where workers stand who started in `s`, when `head` was the head. -/
structure Shift (a : Auditor σ) (s : Session σ) (head : BlockId) (u : Crew σ (Holding × Int)) :
    Prop where
  /-- What the checks did is all that became of the store. -/
  store : u.session.store =
    { s.store with ledger := s.store.ledger.raised (Deed.counters u.deeds) }
  distinct : u.claimed.Nodup
  /-- Whatever was claimed was due, and was claimed at the head. -/
  due : ∀ errand ∈ u.errands, errand.subject.2 = head.index ∧
    errand.subject.1 ∈ s.tracker.due head.index a.settings.inactiveFrequency
  proper : ∀ errand ∈ u.errands, errand.Proper (a.Visits s.store.ledger head)
  /-- Nothing became of the other holdings. -/
  others : ∀ h ∉ u.claimed, u.session.tracker.find? h = s.tracker.find? h
  marked : ∀ errand ∈ u.errands, ∃ tracked,
    u.session.tracker.find? errand.subject.1 = some tracked ∧ Marked head errand.done tracked

/-- Once its outcome was noted, a holding is marked as checked at the head. -/
theorem Marked.note {done : List Deed} {tracked : Tracked} (marked : Marked head done tracked)
    (fresh : Deed.notes done = []) (h : Holding) {status : CheckStatus}
    (known : status ≠ .checking) :
    Marked head (done ++ [.note h head.index status]) (tracked.finish head.index status) := by
  rw [Marked, if_pos fresh] at marked
  have noted : Deed.notes (done ++ [.note h head.index status]) ≠ [] := by
    simp [Deed.notes, Deed.noted?]
  rw [Marked, if_neg noted]
  refine ⟨known, ?_⟩
  unfold Tracked.finish
  cases last : tracked.lastChecked with
  | none => rfl
  | some i => simp [marked.2 i last]

/-- Other deeds do not move it. -/
theorem Marked.act {done : List Deed} {tracked : Tracked} (marked : Marked head done tracked)
    {d : Deed} (other : d.noted? = none) : Marked head (done ++ [d]) tracked := by
  have same : Deed.notes (done ++ [d]) = Deed.notes done := by
    simp [Deed.notes, other]
  rwa [Marked, same]

theorem Marked.not_due {done : List Deed} {tracked : Tracked} (marked : Marked head done tracked)
    (frequency : Int) : tracked.isDue? head.index frequency = some false := by
  unfold Marked at marked
  split at marked
  · exact Tracked.isDue?_checking marked.1 head.index frequency
  · exact Tracked.isDue?_checked marked.2 frequency

namespace Shift

theorem start (a : Auditor σ) (s : Session σ) (head : BlockId) : a.Shift s head ⟨s, []⟩ where
  store := rfl
  distinct := List.nodup_nil
  due := nofun
  proper := nofun
  others := fun _ _ => rfl
  marked := nofun

variable (shift : a.Shift s head u)

include shift

theorem isOpen (isOpen : s.store.closed = false) : u.session.store.closed = false := by
  rw [shift.store]
  exact isOpen

theorem head? : u.session.store.ledger.head? = s.store.ledger.head? := by
  rw [shift.store, Ledger.head?, Ledger.blocks_raised, Ledger.head?]

theorem balances : u.session.store.ledger.balances = s.store.ledger.balances := by
  rw [shift.store, Ledger.balances_raised]

/-- **What is due** is what was due at first and has not been claimed. -/
theorem mem_due {h : Holding} :
    h ∈ u.session.tracker.due head.index a.settings.inactiveFrequency ↔
      h ∈ s.tracker.due head.index a.settings.inactiveFrequency ∧ h ∉ u.claimed := by
  by_cases mem : h ∈ u.claimed
  · obtain ⟨errand, here, rfl⟩ := List.mem_map.mp mem
    obtain ⟨tracked, found, marked⟩ := shift.marked errand here
    simp [Tracker.mem_due, found, marked.not_due, mem]
  · simp only [Tracker.mem_due, shift.others h mem, mem, not_false_eq_true, and_true]

/-- If all distances were words at first they still are: the holdings that were claimed are
being checked, or were checked at the head. -/
theorem told (told : s.tracker.Told head.index) : u.session.tracker.Told head.index := by
  intro h x held free last checked
  by_cases mem : h ∈ u.claimed
  · obtain ⟨errand, here, rfl⟩ := List.mem_map.mp mem
    obtain ⟨x', held', marked⟩ := shift.marked errand here
    cases held.symm.trans held'
    unfold Marked at marked
    split at marked
    · exact absurd marked.1 free
    · cases checked.symm.trans marked.2
      rw [Int.sub_self]
      decide
  · exact told h x ((shift.others h mem).symm.trans held) free last checked

/-! ## What a step keeps

A step is a claim or a turn of the crew; the two lemmas say what each keeps of a shift. -/

/-- A holding that is claimed was due at first, and nobody claimed it before. -/
theorem claim (isOpen : s.store.closed = false) (found : s.store.ledger.head? = some head)
    {t : Session σ} {x : Holding × Int} (claimed : a.claim.eval u.session = (.ok (some x), t)) :
    a.Shift s head ⟨t, u.errands ++ [{ subject := x }]⟩ := by
  rw [eval_claim (shift.isOpen isOpen) (shift.head?.trans found)] at claimed
  rcases u.session.tracker.claim?_cases head.index a.settings.inactiveFrequency with
    ⟨_, overflow⟩ | ⟨_, _, none_⟩ | ⟨_, h, tracked, here, due, some_⟩
  · rw [overflow] at claimed
    cases claimed
  · rw [none_] at claimed
    cases claimed
  · rw [some_] at claimed
    cases claimed
    -- What is due now was due at the start and has not been claimed: a claim leaves other
    -- holdings' entries alone.
    have mem := shift.mem_due.mp (Tracker.mem_due.mpr ⟨tracked, here, due⟩)
    have first : s.tracker.find? h = some tracked := (shift.others h mem.2).symm.trans here
    refine ⟨?_, ?_, ?_, ?_, ?_, ?_⟩
    · rw [shift.store]
      simp [Crew.deeds]
    · simp only [Crew.claimed, List.map_append, List.map_cons, List.map_nil]
      refine List.nodup_append.mpr ⟨shift.distinct, List.nodup_singleton h, ?_⟩
      exact fun h₁ here₁ h₂ here₂ same => mem.2 (List.mem_singleton.mp here₂ ▸ same ▸ here₁)
    · simp only [List.forall_mem_append, List.forall_mem_singleton]
      exact ⟨shift.due, trivial, mem.1⟩
    · simp only [List.forall_mem_append, List.forall_mem_singleton]
      exact ⟨shift.proper, rfl⟩
    · intro h' other
      simp only [Crew.claimed, List.map_append, List.map_cons, List.map_nil, List.mem_append,
        List.mem_singleton, not_or] at other
      show (u.session.tracker.insert h _).find? h' = _
      rw [Table.find?_insert, if_neg other.2]
      exact shift.others h' other.1
    · simp only [List.forall_mem_append, List.forall_mem_singleton]
      refine ⟨fun errand mem' => ?_, { tracked with status := .checking },
        Table.find?_insert_self _ _ _, ?_⟩
      · obtain ⟨tracked', found', marked⟩ := shift.marked errand mem'
        refine ⟨tracked', ?_, marked⟩
        have other : errand.subject.1 ≠ h := by
          rintro rfl
          exact mem.2 (List.mem_map_of_mem mem')
        show (u.session.tracker.insert h _).find? _ = _
        rw [Table.find?_insert, if_neg other]
        exact found'
      · show Marked head [] _
        rw [Marked, if_pos (by rfl)]
        exact ⟨rfl, fun last checked => (Tracked.lt_of_isDue? due checked).le⟩

/-- What a turn makes of the tracked holdings. -/
theorem tracked (turn : Crew.Turn a.lookClaimed u v) :
    (∀ h ∉ v.claimed, v.session.tracker.find? h = s.tracker.find? h) ∧
      ∀ errand ∈ v.errands, ∃ tracked,
        v.session.tracker.find? errand.subject.1 = some tracked ∧
          Marked head errand.done tracked := by
  have others := shift.others
  have marked := shift.marked
  have proper := shift.proper
  have distinct := shift.distinct
  cases turn with
  | @look s₁ t x ds before after looked =>
    obtain ⟨w, eq⟩ := a.lookInactive_quiet x s₁
    rw [looked] at eq
    cases eq
    simp only [Crew.claimed, List.map_append, List.map_cons, List.forall_mem_append,
      List.forall_mem_cons] at others marked ⊢
    exact ⟨others, marked⟩
  | @act s₁ x done ds d before after =>
    have visits : a.Visits s.store.ledger head x (done ++ d :: ds) :=
      proper _ (List.mem_append_right _ List.mem_cons_self)
    simp only [Crew.claimed, List.map_append, List.map_cons, List.forall_mem_append,
      List.forall_mem_cons] at others marked distinct ⊢
    obtain ⟨left, ⟨tracked, here, marked⟩, right⟩ := marked
    rcases visits.next with other | ⟨fresh, status, known, rfl⟩
    · rw [Deed.tracker_run_of_other other]
      exact ⟨others, left, ⟨tracked, here, marked.act other⟩, right⟩
    · have noted : ∀ h, (Deed.run s₁ (.note x.1 head.index status)).tracker.find? h =
          if h = x.1 then some (tracked.finish head.index status) else s₁.tracker.find? h := by
        intro h
        show (s₁.tracker.finish x.1 head.index status).find? h = _
        rw [Tracker.find?_finish, here, Option.map_some]
      -- No other check is one of this holding.
      have apart := (List.nodup_middle.mp distinct).notMem
      have keeps : ∀ errand : Errand (Holding × Int), errand.subject.1 ≠ x.1 → (∃ tracked,
          s₁.tracker.find? errand.subject.1 = some tracked ∧ Marked head errand.done tracked) →
          ∃ tracked, (Deed.run s₁ (.note x.1 head.index status)).tracker.find? errand.subject.1 =
            some tracked ∧ Marked head errand.done tracked := by
        intro errand other h
        rwa [noted, if_neg other]
      refine ⟨fun h other => ?_, fun errand mem => keeps errand ?_ (left errand mem),
        ⟨_, by rw [noted, if_pos rfl], marked.note fresh x.1 known⟩,
        fun errand mem => keeps errand ?_ (right errand mem)⟩
      · rw [noted, if_neg]
        · exact others h other
        · rintro rfl
          exact other (List.mem_append_right _ List.mem_cons_self)
      · rintro same
        exact apart (List.mem_append_left _ (same ▸ List.mem_map_of_mem mem))
      · rintro same
        exact apart (List.mem_append_right _ (same ▸ List.mem_map_of_mem mem))

/-- A look leaves everything but the world as it is, and a deed is done to its own
holding. -/
theorem check (isOpen : s.store.closed = false) (found : s.store.ledger.head? = some head)
    (turn : Crew.Turn a.lookClaimed u v) : a.Shift s head v := by
  have claimed := claimed_of_turn turn
  have errands := turn.forall_errands
    (Q := fun errand => errand.Proper (a.Visits s.store.ledger head) ∧
      errand.subject.2 = head.index ∧
      errand.subject.1 ∈ s.tracker.due head.index a.settings.inactiveFrequency)
    (by
      rintro ⟨h, i⟩ ds t looked ⟨_, at_, due⟩
      cases at_
      exact ⟨visits_of_looked (shift.isOpen isOpen) (shift.head?.trans found) shift.balances looked,
        rfl, due⟩)
    (fun x done d ds h => ⟨h.1.act, h.2⟩)
    fun errand mem => ⟨shift.proper errand mem, shift.due errand mem⟩
  have store : v.session.store =
      { s.store with ledger := s.store.ledger.raised (Deed.counters v.deeds) } := by
    -- A turn is either a look, which only moves the world, or one deed, which raises the
    -- store's counters.
    rcases Crew.turn_cases a.lookInactive_quiet turn with ⟨same, w, moved⟩ | ⟨d, more, moved⟩
    · rw [moved, same]
      exact shift.store
    · rw [Ledger.raised_of_perm (Deed.counters_perm more), moved, (Session.Came.run _ d).store,
        shift.store, Deed.counters_append, Ledger.raised_append]
  have tracked := shift.tracked turn
  exact ⟨store, claimed ▸ shift.distinct, fun errand mem => (errands errand mem).2,
    fun errand mem => (errands errand mem).1, tracked.1, tracked.2⟩

theorem step (isOpen : s.store.closed = false) (found : s.store.ledger.head? = some head)
    (step : a.Sweeping n u v) : a.Shift s head v := by
  cases step with
  | claim free claimed => exact shift.claim isOpen found claimed
  | check turn => exact shift.check isOpen found turn

/-- Whatever the workers do next keeps it. -/
theorem sweeps (isOpen : s.store.closed = false) (found : s.store.ledger.head? = some head)
    (sweeps : a.Sweeps n k u v) : a.Shift s head v := by
  induction sweeps with
  | none => exact shift
  | more _ last ih => exact (ih shift).step isOpen found last

/-- Nothing is claimed iff everything that was due has been claimed. -/
theorem claim_eq_none_iff (isOpen : s.store.closed = false)
    (found : s.store.ledger.head? = some head) (told : s.tracker.Told head.index) :
    (a.claim.eval u.session).1 = .ok none ↔
      u.claimed.Perm (s.tracker.due head.index a.settings.inactiveFrequency) := by
  have within : ∀ h ∈ u.claimed, h ∈ s.tracker.due head.index a.settings.inactiveFrequency := by
    intro h mem
    obtain ⟨errand, here, rfl⟩ := List.mem_map.mp mem
    exact (shift.due errand here).2
  rw [claim_eq_ok_none_iff (shift.isOpen isOpen) (shift.head?.trans found),
    and_iff_right (shift.told told), List.eq_nil_iff_forall_not_mem,
    List.perm_ext_iff_of_nodup shift.distinct (s.tracker.nodup_due _ _)]
  refine forall_congr' fun h => ?_
  rw [shift.mem_due]
  constructor
  · exact fun none_ => ⟨within h, fun due => by_contra fun mem => none_ ⟨due, mem⟩⟩
  · exact fun same due => due.2 (same.mpr due.1)

end Shift

/-! ## The sweeps of a run

A run takes its workers one behind the other, each until it is done. That is one of the
orders in which steps may come. -/

/-- The errand that is left does all that its look came to. -/
theorem sweeps_acts (a : Auditor σ) (n : Nat) (x : Holding × Int) (ds : List Deed) :
    ∀ (s : Session σ) (errands : List (Errand (Holding × Int))) (done : List Deed),
      a.Sweeps n ds.length ⟨s, errands ++ [⟨x, done, some ds⟩]⟩
        ⟨Deed.runAll s ds, errands ++ [⟨x, done ++ ds, some []⟩]⟩ := by
  induction ds with
  | nil =>
    intro s errands done
    rw [List.append_nil]
    exact .none _
  | cons d ds ih =>
    intro s errands done
    have first : a.Sweeping n ⟨s, errands ++ [⟨x, done, some (d :: ds)⟩]⟩
        ⟨d.run s, errands ++ [⟨x, done ++ [d], some ds⟩]⟩ := .check (.act errands [])
    have rest := ih (d.run s) errands (done ++ [d])
    rw [List.append_assoc, List.singleton_append] at rest
    have both := (Sweeps.more (.none _) first).append rest
    rwa [Nat.zero_add, Nat.add_comm] at both

/-- One more claim of a worker, and the check of what was claimed. -/
theorem eval_sweep_succ (a : Auditor σ) (fuel : Nat) (s : Session σ) :
    (a.sweep (fuel + 1)).eval s =
      if s.world.isCanceled then (.ok (), s)
      else
        match a.claim.eval s with
        | (.ok none, t) => (.ok (), t)
        | (.ok (some x), t) =>
          match (a.checkInactive x.1 x.2).eval t with
          | (.ok (), u) => (a.sweep fuel).eval u
          | (.error stop, u) => (.error stop, u)
        | (.error stop, t) => (.error stop, t) := by
  rw [sweep, Step.eval_bind, Step.eval_get]
  dsimp only
  by_cases quit : s.world.isCanceled = true
  · rw [if_pos quit, if_pos quit]
    rfl
  · rw [if_neg quit, if_neg quit, Step.eval_bind]
    rcases a.claim.eval s with ⟨_ | _ | ⟨h, i⟩, t⟩
    · rfl
    · rfl
    · dsimp only
      rw [Step.eval_bind]
      rcases (a.checkInactive h i).eval t with ⟨_ | ⟨⟩, u⟩
      · rfl
      · rfl

/-- A worker that claims a holding and checks it makes steps of workers: the claim, the look of
the check, and its deeds. -/
theorem exists_sweeps_visit (some_worker : 0 < n) {errands : List (Errand (Holding × Int))}
    {x : Holding × Int} {s s' t : Session σ} (isOpen : s.store.closed = false)
    (finished : Crew.isOver ⟨s, errands⟩ = true) (claims : a.claim.eval s = (.ok (some x), s'))
    (checked : (a.checkInactive x.1 x.2).eval s' = (.ok (), t)) :
    ∃ k v, a.Sweeps n k ⟨s, errands⟩ v ∧ v.session = t ∧ v.session.store.closed = false ∧
      v.isOver = true ∧ v.claimed = Crew.claimed ⟨s, errands⟩ ++ [x.1] := by
  have isOpen' : s'.store.closed = false := by
    obtain ⟨tracker, kept⟩ := (a.claim_keeps s).1
    rw [claims] at kept
    obtain rfl : s' = { s with tracker } := kept
    exact isOpen
  rw [checkInactive_eval isOpen'] at checked
  rcases looked : (a.lookInactive x.1 x.2).eval s' with ⟨stop | ds, u⟩
  · rw [looked] at checked
    cases checked
  · rw [looked] at checked
    obtain rfl : Deed.runAll u ds = t := congrArg Prod.snd checked
    have claim : a.Sweeping n ⟨s, errands⟩ ⟨s', errands ++ [{ subject := x }]⟩ := by
      refine .claim ?_ claims
      have free : errands.countP (!·.isOver) = 0 := countP_busy_of_over finished
      omega
    have look : a.Sweeping n ⟨s', errands ++ [{ subject := x }]⟩
        ⟨u, errands ++ [⟨x, [], some ds⟩]⟩ := .check (.look errands [] looked)
    have acts := a.sweeps_acts n x ds u errands []
    refine ⟨_, _, ((Sweeps.none _).more claim |>.more look).append acts, rfl, ?_, ?_, ?_⟩
    · obtain ⟨w, same⟩ := a.lookInactive_quiet x s'
      rw [looked] at same
      obtain rfl : u = { s' with world := w } := same
      rw [Session.store_runAll]
      exact isOpen'
    · simpa [Crew.isOver, Errand.isOver] using finished
    · simp [Crew.claimed]

/-- A worker that sweeps alone makes steps of workers, until the run is canceled, nothing
is due, or it made all the claims it is allowed. -/
theorem sweep_sweeps (some_worker : 0 < n) (fuel : Nat) :
    ∀ {u : Crew σ (Holding × Int)} {t : Session σ}, u.session.store.closed = false →
      u.isOver = true → (a.sweep fuel).eval u.session = (.ok (), t) →
      ∃ k v new, a.Sweeps n k u v ∧ v.session = t ∧ v.isOver = true ∧
        v.claimed = u.claimed ++ new ∧
        (t.world.isCanceled = true ∨ (a.claim.eval t).1 = .ok none ∨ new.length = fuel) := by
  induction fuel with
  | zero =>
    rintro u _ _ finished ⟨⟩
    exact ⟨0, u, [], .none u, rfl, finished, (List.append_nil _).symm, .inr (.inr rfl)⟩
  | succ fuel ih =>
    intro u t isOpen finished eq
    obtain ⟨s, errands⟩ := u
    -- The ways a worker stops without a claim leave the crew where it is.
    have stays : t = s → ∃ k v new, a.Sweeps n k ⟨s, errands⟩ v ∧ v.session = t ∧
        v.isOver = true ∧ v.claimed = Crew.claimed ⟨s, errands⟩ ++ new := by
      rintro rfl
      exact ⟨0, _, [], .none _, rfl, finished, (List.append_nil _).symm⟩
    rw [eval_sweep_succ] at eq
    by_cases quit : s.world.isCanceled = true
    · rw [if_pos quit] at eq
      cases eq
      obtain ⟨k, v, new, sweeps, same, finished', claimed⟩ := stays rfl
      exact ⟨k, v, new, sweeps, same, finished', claimed, .inl quit⟩
    rw [if_neg quit] at eq
    rcases claims : a.claim.eval s with ⟨stop | _ | x, s'⟩
    · rw [claims] at eq
      cases eq
    · have none_ := (a.claim_keeps s).2
      rw [claims] at eq none_
      cases eq
      obtain rfl : t = s := none_ nofun
      obtain ⟨k, v, new, sweeps, same, finished', claimed⟩ := stays rfl
      exact ⟨k, v, new, sweeps, same, finished', claimed, .inr (.inl (by rw [claims]))⟩
    · rw [claims] at eq
      dsimp only at eq
      rcases checked : (a.checkInactive x.1 x.2).eval s' with ⟨stop | ⟨⟩, s''⟩
      · rw [checked] at eq
        cases eq
      · rw [checked] at eq
        obtain ⟨k, v, visit, rfl, isOpen', finished', claimed⟩ :=
          exists_sweeps_visit some_worker isOpen finished claims checked
        obtain ⟨k', w, new, sweeps, same, over', claimed', ends⟩ := ih isOpen' finished' eq
        refine ⟨k + k', w, x.1 :: new, visit.append sweeps, same, over', ?_, ?_⟩
        · rw [claimed', claimed, List.append_assoc, List.singleton_append]
        · simpa using ends

/-- A run that was canceled stays so. -/
theorem Move.isCanceled {p : Scope} {s t : Session σ} (move : a.Move p s t)
    (quit : s.world.isCanceled = true) : t.world.isCanceled = true := by
  have call : ∀ {α : Type} (f : σ → Answer α × σ), (s.world.call f).2.isCanceled = true := by
    intro α f
    unfold World.call
    dsimp only
    cases (f s.world.node).1.signal with
    | none => exact quit
    | some signal =>
      have reach : World.Reachable { s.world with node := (f s.world.node).2 } := .inr quit
      exact (reach.obey signal).2
  cases move with
  | fetch => exact call _
  | lookup => exact call _
  | giveUp => exact (World.Reachable.obey (.inr quit) _).2
  | finish =>
    have both := Cancellation.isCanceled_iff.mp quit
    refine Cancellation.isCanceled_iff.mpr (both.imp ?_ ?_)
    · exact fun mem => Cancellation.mem_cancel.mpr (.inr mem)
    · exact fun ⟨id, ancestor, mem⟩ => ⟨id, ancestor, Cancellation.mem_cancel.mpr (.inr mem)⟩
  | _ => exact quit

/-- No more workers go back to sleep than sweep. -/
theorem sweepRound_asleep_le {ε : Type} (m : Nat) : ∀ (w : Sweepers) (s : Session σ),
    (a.sweepRound m w : Step (Session σ) ε Sweepers).Ends s
      (fun w' _ => w'.asleep ≤ w.asleep + m) fun _ _ => True := by
  induction m with
  | zero => exact fun w s => le_refl _
  | succ m ih =>
    intro w s
    rw [sweepRound, Step.ends_bind, Step.ends_attempt]
    refine (Step.Ends.any _ s).mono (fun _ t _ => ?_) fun stop t _ => ?_
    · refine (ih _ t).mono (fun w' _ le => ?_) fun _ _ h => h
      have more : w'.asleep ≤ w.asleep + 1 + m := le
      omega
    · cases stop
      all_goals exact (ih _ t).mono (fun w' _ le => le.trans (Nat.le_succ _)) fun _ _ h => h

/-- The claims of one worker are no more than what is due. -/
theorem Shift.length_new_le {new : List Holding} (shift : a.Shift s head u)
    (later : a.Shift s head v) (claimed : v.claimed = u.claimed ++ new) :
    new.length ≤ u.session.tracker.entries.length := by
  have distinct := later.distinct
  rw [claimed, List.nodup_append] at distinct
  have within : new ⊆ u.session.tracker.due head.index a.settings.inactiveFrequency := by
    intro h mem
    have here : h ∈ v.claimed := claimed ▸ List.mem_append_right _ mem
    obtain ⟨errand, mem', same⟩ := List.mem_map.mp here
    exact shift.mem_due.mpr ⟨same ▸ (later.due errand mem').2, fun earlier =>
      distinct.2.2 h earlier h mem rfl⟩
  calc new.length
      ≤ (u.session.tracker.due head.index a.settings.inactiveFrequency).length :=
        (List.subperm_of_subset distinct.2.1 within).length_le
    _ ≤ u.session.tracker.entries.length := by
        rw [Tracker.due, List.length_map]
        exact List.length_filter_le _ _

/-- **A round of sweeps** from which all workers go back to sleep, in a run that was not
canceled, is a number of steps of workers, after which everything that is due has been
claimed and every check is over. -/
theorem sweepRound_sweeps {ε : Type} (some_worker : 0 < n) (isOpen : s.store.closed = false)
    (found : s.store.ledger.head? = some head) (m : Nat) :
    ∀ {u : Crew σ (Holding × Int)} {w w' : Sweepers} {t : Session σ}, a.Shift s head u →
      u.isOver = true → (m = 0 → (a.claim.eval u.session).1 = .ok none) →
      (a.sweepRound m w : Step (Session σ) ε Sweepers).eval u.session = (.ok w', t) →
      w'.asleep = w.asleep + m → t.world.isCanceled = false →
      ∃ k v, a.Sweeps n k u v ∧ v.session = t ∧ v.isOver = true ∧
        (a.claim.eval t).1 = .ok none := by
  induction m with
  | zero =>
    rintro u w _ _ _ finished ready ⟨⟩ _ _
    exact ⟨0, u, .none u, rfl, finished, ready rfl⟩
  | succ m ih =>
    intro u w w' t shift finished _ eq asleep going
    rw [sweepRound, Step.eval_bind, Step.eval_attempt] at eq
    dsimp only at eq
    rcases swept : a.sweepDue.eval u.session with ⟨stop | ⟨⟩, t₁⟩
    · -- A worker that stopped does not go back to sleep.
      rw [swept] at eq
      cases stop
      all_goals
        have le := (sweepRound_asleep_le (a := a) m _ t₁).of_ok eq
        have fewer : w'.asleep ≤ w.asleep + m := le
        omega
    · rw [swept] at eq
      rw [sweepDue, Step.eval_bind, Step.eval_get] at swept
      obtain ⟨k, v, new, sweeps, rfl, finished', claimed, ends⟩ :=
        sweep_sweeps some_worker _ (shift.isOpen isOpen) finished swept
      have later := shift.sweeps isOpen found sweeps
      have idle : (a.claim.eval v.session).1 = .ok none := by
        rcases ends with quit | idle | all
        · have moves : a.Moves .sweeps (a.sweepRound m { w with asleep := w.asleep + 1 } :
              Step (Session σ) ε Sweepers) := a.sweepRound_moves trivial m _
          have stays := moves.keeps (fun _ _ move => move.isCanceled) quit
          dsimp only at eq
          rw [eq, going] at stays
          cases stays
        · exact idle
        -- A worker has fuel for more claims than there are holdings, so it cannot have used all
        -- of it.
        · have few := shift.length_new_le later claimed
          omega
      have asleep' : w'.asleep = w.asleep + 1 + m := by omega
      obtain ⟨k', v', sweeps', same, finished'', idle'⟩ :=
        ih later finished' (fun _ => idle) eq asleep' going
      exact ⟨k + k', v', sweeps.append sweeps', same, finished'', idle'⟩

end Auditor

end BalanceAudit
