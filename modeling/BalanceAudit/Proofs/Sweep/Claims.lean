import BalanceAudit.Proofs.Check.Crew
import BalanceAudit.Sweep

/-!
# What a sweep claims and what its checks come to

A claim takes one of the holdings that are due and marks it, so that nobody else
takes it. The check of a claimed holding notes one outcome, at the head, and after
that the holding is not due any more.

- `Tracked.Told`, `Tracker.Told`: the head and the last check differ by a word, wherever
  that is asked; `Tracker.claim?_eq_none_iff`: no claim is made unless that holds of all.
- `Tracker.due`: the holdings that are due; `Tracker.claim?_cases`: if nothing overflows,
  one of them is claimed, or there are none.
- `Tracked.isDue?_checking`, `Tracked.isDue?_checked`: what is not due.
- `Tracked.lt_of_isDue?`: what is due was last checked before the head.
- `Auditor.Visits`: what the check of a claimed holding does;
  `Auditor.visits_of_looked`: **and so it does**.
-/

namespace BalanceAudit

variable {σ : Type}

/-! ## What is due

A distance is asked of every holding, so one that overflows stops the claim. If none does,
the claim is a maximum over the holdings that are due. -/

namespace Tracked

variable {x : Tracked} {head frequency last : Int}

/-- The distance from the last check to the head is a word, unless somebody checks the
holding and nobody asks. -/
def Told (x : Tracked) (head : Int) : Prop :=
  x.status ≠ .checking → ∀ last, x.lastChecked = some last → Index.InRange (head - last)

/-- Of a distance that is no word it cannot be said whether the holding is due. -/
theorem isDue?_eq_none_iff : x.isDue? head frequency = none ↔ ¬x.Told head := by
  unfold isDue? Told
  by_cases checking : x.status = .checking
  · simp [checking]
  · cases checked : x.lastChecked with
    | none => simp [checking]
    | some last => simp [checking, Index.distance?, Index.word?_eq_none_iff]

/-- Due is what nobody checks and was never checked, or long enough ago. -/
theorem isDue?_eq_true_iff : x.isDue? head frequency = some true ↔
    x.Told head ∧ x.status ≠ .checking ∧
      ∀ last, x.lastChecked = some last → max frequency 1 ≤ head - last := by
  unfold isDue? Told
  by_cases checking : x.status = .checking
  · simp [checking]
  · cases checked : x.lastChecked with
    | none => simp [checking]
    | some last => simp [checking, Index.distance?, Index.word?_eq_some_iff]

/-- A holding that somebody checks is not due. -/
theorem isDue?_checking (checking : x.status = .checking) (head frequency : Int) :
    x.isDue? head frequency = some false := by
  simp [isDue?, checking]

/-- A holding that was checked at the head is not due there, whatever the frequency. -/
theorem isDue?_checked (checked : x.lastChecked = some head) (frequency : Int) :
    x.isDue? head frequency = some false := by
  have here : Index.distance? head head = some 0 :=
    Index.word?_eq_some_iff.mpr ⟨by rw [Int.sub_self]; decide, Int.sub_self head⟩
  simp [isDue?, checked, here]

/-- A holding that is due was last checked before the head. -/
theorem lt_of_isDue? (due : x.isDue? head frequency = some true)
    (checked : x.lastChecked = some last) : last < head := by
  have long := (isDue?_eq_true_iff.mp due).2.2 last checked
  omega

end Tracked

namespace Tracker

variable {t t' : Tracker} {head frequency : Int} {h : Holding}

/-- The distance to the head is a word for every holding of which it is asked. -/
def Told (t : Tracker) (head : Int) : Prop := ∀ h x, t.find? h = some x → x.Told head

/-- The holdings that a sweep at `head` should check. -/
def due (t : Tracker) (head frequency : Int) : List Holding :=
  (t.entries.filter (·.2.isDue? head frequency = some true)).map (·.1)

theorem mem_due : h ∈ t.due head frequency ↔
    ∃ tracked, t.find? h = some tracked ∧ tracked.isDue? head frequency = some true := by
  simp only [due, List.mem_map, List.mem_filter, decide_eq_true_eq, Prod.exists,
    exists_and_right, exists_eq_right, Table.find?_eq_some_iff]

theorem nodup_due (t : Tracker) (head frequency : Int) : (t.due head frequency).Nodup :=
  t.nodup_keys.sublist (List.filter_sublist.map _)

/-- If every distance is a word, the entries that are due are those. -/
theorem dueOf?_of_told {es : List (Holding × Tracked)} (told : ∀ e ∈ es, e.2.Told head) :
    dueOf? head frequency es = some (es.filter (·.2.isDue? head frequency = some true)) := by
  induction es with
  | nil => rfl
  | cons e es ih =>
    rw [List.forall_mem_cons] at told
    obtain ⟨due, eq⟩ : ∃ due, e.2.isDue? head frequency = some due := by
      refine Option.ne_none_iff_exists'.mp fun far => ?_
      exact Tracked.isDue?_eq_none_iff.mp far told.1
    simp only [dueOf?, eq, ih told.2, List.filter_cons, Option.some.injEq, decide_eq_true_eq]
    rfl

/-- One that is not is enough to tell of none. -/
theorem dueOf?_eq_none {es : List (Holding × Tracked)} {e : Holding × Tracked} (mem : e ∈ es)
    (far : ¬e.2.Told head) : dueOf? head frequency es = none := by
  induction es with
  | nil => cases mem
  | cons e' es ih =>
    rcases List.mem_cons.mp mem with rfl | later
    · simp [dueOf?, Tracked.isDue?_eq_none_iff.mpr far]
    · simp [dueOf?, ih later]

/-- Of several entries one waited longest. -/
theorem foldl_longer (es : List (Holding × Tracked)) :
    ∀ b, ∃ e ∈ b :: es, es.foldl longer (some b) = some e := by
  induction es with
  | nil => exact fun b => ⟨b, List.mem_cons_self, rfl⟩
  | cons e es ih =>
    intro b
    have step : longer (some b) e = some e ∨ longer (some b) e = some b := by
      simp only [longer]
      split
      · exact .inl rfl
      · exact .inr rfl
    rcases step with eq | eq
    · obtain ⟨x, mem, found⟩ := ih e
      exact ⟨x, List.mem_cons_of_mem _ mem, by rw [List.foldl_cons, eq, found]⟩
    · obtain ⟨x, mem, found⟩ := ih b
      refine ⟨x, ?_, by rw [List.foldl_cons, eq, found]⟩
      rcases List.mem_cons.mp mem with rfl | mem
      · exact List.mem_cons_self
      · exact List.mem_cons_of_mem _ (List.mem_cons_of_mem _ mem)

/-- What a claim comes to when no distance overflows. -/
theorem claim?_of_told (told : t.Told head) : t.claim? head frequency =
    some (((t.entries.filter (·.2.isDue? head frequency = some true)).foldl longer none).map
      fun (h, x) => (h, t.insert h { x with status := .checking })) := by
  have due : dueOf? head frequency t.entries = some _ :=
    dueOf?_of_told fun e mem => told e.1 e.2 (Table.find?_eq_some_iff.mpr mem)
  simp only [claim?, due]
  rfl

/-- **No claim is made unless all distances are words.** -/
theorem claim?_eq_none_iff : t.claim? head frequency = none ↔ ¬t.Told head := by
  constructor
  · rintro overflow told
    rw [claim?_of_told told] at overflow
    cases overflow
  · intro far
    obtain ⟨h, x, held, far⟩ : ∃ h x, t.find? h = some x ∧ ¬x.Told head := by
      simpa only [Told, not_forall, exists_prop] using far
    have overflow : dueOf? head frequency t.entries = none :=
      dueOf?_eq_none (Table.find?_eq_some_iff.mp held) far
    simp [claim?, overflow]

/-- Either a distance overflows, or nothing is due and nothing is claimed, or a holding
that is due is claimed and marked. -/
theorem claim?_cases (t : Tracker) (head frequency : Int) :
    (¬t.Told head ∧ t.claim? head frequency = none) ∨
      t.Told head ∧ t.due head frequency = [] ∧ t.claim? head frequency = some none ∨
      t.Told head ∧ ∃ h x, t.find? h = some x ∧ x.isDue? head frequency = some true ∧
        t.claim? head frequency = some (some (h, t.insert h { x with status := .checking })) := by
  by_cases told : t.Told head
  · refine .inr ?_
    rw [claim?_of_told told, due]
    cases entries : t.entries.filter (·.2.isDue? head frequency = some true) with
    | nil => exact .inl ⟨told, rfl, rfl⟩
    | cons b es =>
      obtain ⟨e, mem, found⟩ := foldl_longer es b
      rw [← entries, List.mem_filter, decide_eq_true_eq] at mem
      refine .inr ⟨told, e.1, e.2, Table.find?_eq_some_iff.mpr mem.1, mem.2, ?_⟩
      rw [List.foldl_cons, longer, found, Option.map_some]
  · exact .inl ⟨told, claim?_eq_none_iff.mpr told⟩

/-- Nothing is claimed iff nothing is due. -/
theorem claim?_eq_some_none_iff :
    t.claim? head frequency = some none ↔ t.Told head ∧ t.due head frequency = [] := by
  rcases t.claim?_cases head frequency with ⟨far, eq⟩ | ⟨told, nothing, eq⟩ |
    ⟨told, h, x, found, due, eq⟩
  · simp [eq, far]
  · simp [eq, told, nothing]
  · have mem : h ∈ t.due head frequency := mem_due.mpr ⟨x, found, due⟩
    simp [eq, List.ne_nil_of_mem mem]

end Tracker

/-- The counters of the comparisons that a sweep makes. -/
def Counter.ofSweeps : List Counter :=
  [.inactiveReconciliations, .skippedReconciliations, .failedReconciliations]

namespace Auditor

variable {a : Auditor σ} {s t : Session σ} {head : BlockId} {h : Holding}

theorem eval_claim (isOpen : s.store.closed = false) (found : s.store.ledger.head? = some head) :
    a.claim.eval s =
      match s.tracker.claim? head.index a.settings.inactiveFrequency with
      | none => (.error (.overflow .distance), s)
      | some none => (.ok none, s)
      | some (some (h, tracker)) => (.ok (some (h, head.index)), { s with tracker }) := by
  rw [claim, Step.eval_bind, Step.eval_read_of_open isOpen]
  simp only [found]
  rw [Step.eval_bind, Step.eval_get]
  dsimp only
  rcases s.tracker.claim? head.index a.settings.inactiveFrequency with _ | _ | ⟨h, tracker⟩
  all_goals rfl

/-- A worker finds nothing to claim iff nothing is due, and nothing overflows. -/
theorem claim_eq_ok_none_iff (isOpen : s.store.closed = false)
    (found : s.store.ledger.head? = some head) : (a.claim.eval s).1 = .ok none ↔
      s.tracker.Told head.index ∧
        s.tracker.due head.index a.settings.inactiveFrequency = [] := by
  rw [← Tracker.claim?_eq_some_none_iff, eval_claim isOpen found]
  rcases s.tracker.claim? head.index a.settings.inactiveFrequency with _ | _ | _
  all_goals simp

/-- Without a head there is nothing to claim. -/
theorem eval_claim_of_none (isOpen : s.store.closed = false)
    (found : s.store.ledger.head? = none) : a.claim.eval s = (.ok none, s) := by
  rw [claim, Step.eval_bind, Step.eval_read_of_open isOpen]
  simp only [found]
  rfl

theorem eval_claim_of_closed (closed : s.store.closed = true) :
    a.claim.eval s = (.error (.failed (.store .closed)), s) := by
  rw [claim, Step.eval_bind, Step.eval_read, Store.read, if_pos closed]
  rfl

/-- A claim touches the tracked holdings only, and nothing unless there is something to
claim. -/
theorem claim_keeps (a : Auditor σ) (s : Session σ) :
    (∃ tracker, (a.claim.eval s).2 = { s with tracker }) ∧
      ((∀ x, (a.claim.eval s).1 ≠ .ok (some x)) → (a.claim.eval s).2 = s) := by
  cases closed : s.store.closed with
  | true =>
    rw [eval_claim_of_closed closed]
    exact ⟨⟨s.tracker, rfl⟩, fun _ => rfl⟩
  | false =>
    cases found : s.store.ledger.head? with
    | none =>
      rw [eval_claim_of_none closed found]
      exact ⟨⟨s.tracker, rfl⟩, fun _ => rfl⟩
    | some head =>
      rw [eval_claim closed found]
      rcases s.tracker.claim? head.index a.settings.inactiveFrequency with _ | _ | ⟨h, tracker⟩
      · exact ⟨⟨s.tracker, rfl⟩, fun _ => rfl⟩
      · exact ⟨⟨s.tracker, rfl⟩, fun _ => rfl⟩
      · exact ⟨⟨tracker, rfl⟩, fun other => absurd rfl (other (h, head.index))⟩

/-! ## What the check of a claimed holding does

One lemma for each of the things that a check may do, and from them: in no more than four
deeds one outcome is noted, at the head. -/

/-- What the check of a holding does that was claimed at the head of a ledger: without a
balance record there is nothing to compare with, and nothing is counted. -/
structure Visits (a : Auditor σ) (l : Ledger) (head : BlockId) (x : Holding × Int)
    (ds : List Deed) : Prop where
  exempt : a.settings.isExempt x.1 = true →
    ds = [.note x.1 head.index .inSync, .count .exemptReconciliations]
  unseen : a.settings.isExempt x.1 = false → l.balances.find? x.1 = none →
    ds = [.note x.1 head.index .pending]
  seen : a.settings.isExempt x.1 = false → ∀ b, l.balances.find? x.1 = some b →
    ∃ answer, ds = a.inactiveDeeds ⟨x.1, b⟩ head answer

/-- With a record there is one comparison, or it is skipped. -/
theorem counters_inactiveDeeds (a : Auditor σ) (r : Record) (head : BlockId)
    (answer : BlockId × Decimal) :
    ∃ k ∈ Counter.ofSweeps, Deed.counters (a.inactiveDeeds r head answer) = [k] := by
  unfold inactiveDeeds compared
  split
  · split
    · exact ⟨.inactiveReconciliations, by decide, rfl⟩
    · refine ⟨.failedReconciliations, by decide, ?_⟩
      cases a.settings.halt <;> rfl
  · exact ⟨.skippedReconciliations, by decide, rfl⟩

theorem notes_inactiveDeeds (a : Auditor σ) (r : Record) (head : BlockId)
    (answer : BlockId × Decimal) : ∃ status, status ≠ .checking ∧
      Deed.notes (a.inactiveDeeds r head answer) = [(r.holding, head.index, status)] := by
  unfold inactiveDeeds compared
  split
  · split
    · exact ⟨.inSync, by decide, rfl⟩
    · refine ⟨.failed, by decide, ?_⟩
      cases a.settings.halt <;> rfl
  · exact ⟨.inSync, by decide, rfl⟩

theorem length_inactiveDeeds_le (a : Auditor σ) (r : Record) (head : BlockId)
    (answer : BlockId × Decimal) : (a.inactiveDeeds r head answer).length ≤ 4 := by
  unfold inactiveDeeds compared
  split
  · split
    · simp
    · cases a.settings.halt <;> simp
  · simp

namespace Visits

variable {l : Ledger} {x : Holding × Int} {done ds : List Deed} {d : Deed}

/-- However it goes, one outcome is noted, at the head, in no more than four deeds. -/
theorem notes (visits : a.Visits l head x ds) : ds.length ≤ 4 ∧ ∃ status, status ≠ .checking ∧
    Deed.notes ds = [(x.1, head.index, status)] := by
  cases exempt : a.settings.isExempt x.1 with
  | true =>
    rw [visits.exempt exempt]
    exact ⟨by simp, .inSync, by decide, rfl⟩
  | false =>
    cases seen : l.balances.find? x.1 with
    | none =>
      rw [visits.unseen exempt seen]
      exact ⟨by simp, .pending, by decide, rfl⟩
    | some b =>
      obtain ⟨answer, rfl⟩ := visits.seen exempt b seen
      exact ⟨a.length_inactiveDeeds_le _ _ _, a.notes_inactiveDeeds _ _ _⟩

/-- Of the deeds of a check one notes the outcome, and then the others do not. -/
theorem next (visits : a.Visits l head x (done ++ d :: ds)) : d.noted? = none ∨
      Deed.notes done = [] ∧ ∃ status, status ≠ .checking ∧ d = .note x.1 head.index status := by
  obtain ⟨-, status, known, notes⟩ := visits.notes
  cases d with
  | note h index status' =>
    rw [Deed.notes_append] at notes
    -- The one outcome of the check is this one, so that none was noted before.
    rcases List.append_eq_singleton_iff.mp notes with ⟨fresh, rest⟩ | ⟨_, rest⟩
    · cases (List.cons_eq_cons.mp rest).1
      exact .inr ⟨fresh, status, known, rfl⟩
    · cases rest
  | _ => exact .inl rfl

end Visits

/-- **What the check of a claimed holding comes to.** -/
theorem visits_of_looked {l : Ledger} (isOpen : s.store.closed = false)
    (found : s.store.ledger.head? = some head)
    (balances : s.store.ledger.balances = l.balances) {ds : List Deed}
    (looked : (a.lookInactive h head.index).eval s = (.ok ds, t)) :
    a.Visits l head (h, head.index) ds := by
  unfold lookInactive at looked
  cases exempt : a.settings.isExempt h with
  | true =>
    rw [exempt, if_pos rfl] at looked
    cases looked
    exact ⟨fun _ => rfl, fun checks => by simp [exempt] at checks,
      fun checks => by simp [exempt] at checks⟩
  | false =>
    rw [exempt, if_neg Bool.false_ne_true, Step.eval_bind, Step.eval_read_of_open isOpen] at looked
    cases snapshot : s.store.ledger.snapshot? h with
    | none =>
      have unseen : l.balances.find? h = none := by
        rw [← balances, ← Option.not_isSome_iff_eq_none]
        intro some_
        obtain ⟨b, seen⟩ := Option.isSome_iff_exists.mp some_
        -- With the head that there is, a record would make a snapshot.
        have whole := Ledger.snapshot?_eq_some_iff.mpr ⟨found, b, seen, rfl⟩
        rw [snapshot] at whole
        cases whole
      simp only [snapshot] at looked
      cases looked
      exact ⟨fun exempt' => by simp [exempt] at exempt', fun _ _ => rfl,
        fun _ b seen => by simp [unseen] at seen⟩
    | some snapshot' =>
      obtain ⟨r, head'⟩ := snapshot'
      obtain ⟨found', b, seen, rfl⟩ := Ledger.snapshot?_eq_some_iff.mp snapshot
      rw [found] at found'
      cases found'
      rw [balances] at seen
      simp only [snapshot, Step.eval_bind] at looked
      rcases asked : (a.inquire h head).eval s with ⟨_ | answer, u⟩
      · rw [asked] at looked
        cases looked
      · rw [asked] at looked
        cases looked
        exact ⟨fun exempt' => by simp [exempt] at exempt', fun _ none_ => by simp [seen] at none_,
          fun _ b' seen' => ⟨answer, by rw [Option.some.inj (seen.symm.trans seen')]⟩⟩

end Auditor

end BalanceAudit
