import BalanceAudit.Proofs.Chain.TwoBlocks
import BalanceAudit.Proofs.Check.Crew

/-!
# The checks of a block, in any order

If the balances that the node tells depend on nothing but the holding and the block,
the active checks of a block sort its changes: each one raises one counter. In which
order they take turns, and how many may be under way at once, does not matter.

- `Node.AnswersBy`, `Auditor.finding`: such a node, and the counter that the check of
  a change raises.
- `Auditor.deedsOf`: what the check of a change does; `Auditor.finding_cases` for its
  four results.
- `Auditor.checkAll_comes`: where the checks of a block end, and with which error.
- `Auditor.Sorts`, `Auditor.Halts`: what becomes of the changes without and with
  halting; `Auditor.checkChanges_partition`: **and so it is**.
-/

namespace BalanceAudit

variable {σ : Type}

/-- Balances that depend on nothing but the holding and the block asked for. -/
abbrev Answers := Holding → Option BlockId → Except FetchError (BlockId × Decimal)

/-- The node answers so, whatever happened to it before. -/
def Node.AnswersBy (n : Node σ) (f : Answers) : Prop :=
  ∀ h at? v, (n.balance h at? v).1.reply = some (f h at?)

/-- The counters of the results that an active check may have. -/
def Counter.ofActive : List Counter :=
  [.exemptReconciliations, .skippedReconciliations, .activeReconciliations,
    .failedReconciliations]

namespace Auditor

variable {a : Auditor σ} {f : Answers} {s t u : Session σ} {c : Change} {cs : List Change}

/-- What the node answers when a change is checked. -/
def answer (a : Auditor σ) (f : Answers) (c : Change) : Except FetchError (BlockId × Decimal) :=
  f c.holding (if a.settings.lookup then some c.block else none)

/-- The counter that the check of a change raises, or the error that the node answers. -/
def finding (a : Auditor σ) (f : Answers) (c : Change) : Except FetchError Counter :=
  if a.settings.isExempt c.holding then .ok .exemptReconciliations
  else
    match a.answer f c with
    | .error e => .error e
    | .ok (at_, live) =>
      .ok (if at_ ≠ c.block then .skippedReconciliations
        else if c.value.Same live then .activeReconciliations
        else .failedReconciliations)

/-- The failure of a change that does not come to what the node answers. -/
def Mismatch (a : Auditor σ) (f : Answers) (c : Change) (failure : Failure) : Prop :=
  a.settings.isExempt c.holding = false ∧ ∃ live, a.answer f c = .ok (c.block, live) ∧
    ¬c.value.Same live ∧ failure = ⟨.active, c.holding, c.block, c.value, live⟩

/-- What the check of a change does. -/
def deedsOf (a : Auditor σ) (f : Answers) (c : Change) : List Deed :=
  if a.settings.isExempt c.holding then [.count .exemptReconciliations]
  else
    match a.answer f c with
    | .ok answer => a.activeDeeds c answer
    | .error _ => []

/-- The error with which the check of a change ends. -/
def errorOf (a : Auditor σ) (f : Answers) (c : Change) : Option ReconcileError :=
  match a.finding f c with
  | .error e => some (.fetch e)
  | .ok _ => (Deed.failures (a.deedsOf f c)).head?.map .mismatch

/-! ## One check

What a node like this answers is known before it is asked. So is the counter that the check
raises. -/

/-- The four results of a check that the node answers. -/
inductive Result (a : Auditor σ) (f : Answers) (c : Change) : Counter → List Deed → Prop where
  | exempt (exempt : a.settings.isExempt c.holding = true) :
      Result a f c .exemptReconciliations [.count .exemptReconciliations]
  | skipped : Result a f c .skippedReconciliations [.count .skippedReconciliations]
  | matched (live : Decimal) :
      Result a f c .activeReconciliations
        [.note c.holding c.block.index .inSync,
          .tell (a.settings.log.reconciled .active c.holding c.block.index live),
          .count .activeReconciliations]
  | failed (failure : Failure) (mismatch : a.Mismatch f c failure) :
      Result a f c .failedReconciliations
        ([.note c.holding c.block.index .failed, .count .failedReconciliations,
          .tell [.mismatch failure a.settings.halt]] ++
          if a.settings.halt then [.keep failure] else [])

theorem finding_cases {k : Counter} (found : a.finding f c = .ok k) :
    a.Result f c k (a.deedsOf f c) := by
  unfold finding at found
  unfold deedsOf
  -- In the order in which the check decides: exempt, unanswered, answered for another block,
  -- right or wrong.
  cases exempt : a.settings.isExempt c.holding with
  | true =>
    rw [exempt, if_pos rfl] at found
    cases found
    exact .exempt exempt
  | false =>
    rw [exempt, if_neg Bool.false_ne_true] at found
    rw [if_neg Bool.false_ne_true]
    cases answered : a.answer f c with
    | error e =>
      rw [answered] at found
      cases found
    | ok answer =>
      obtain ⟨at_, live⟩ := answer
      rw [answered] at found
      simp only [Except.ok.injEq, ne_eq, ite_not] at found
      dsimp only [activeDeeds]
      by_cases here : at_ = c.block
      · rw [if_pos here] at found ⊢
        unfold compared
        by_cases same : c.value.Same live
        · rw [if_pos same] at found ⊢
          subst found
          exact .matched live
        · rw [if_neg same] at found ⊢
          subst found
          exact .failed _ ⟨exempt, live, by rw [answered, here], same, rfl⟩
      · rw [if_neg here] at found ⊢
        subst found
        exact .skipped

theorem finding_mem {k : Counter} (found : a.finding f c = .ok k) : k ∈ Counter.ofActive := by
  have result := finding_cases found
  generalize a.deedsOf f c = ds at result
  cases result <;> decide

theorem counters_deedsOf {k : Counter} (found : a.finding f c = .ok k) :
    Deed.counters (a.deedsOf f c) = [k] := by
  have result := finding_cases found
  generalize a.deedsOf f c = ds at result
  cases result with
  | failed failure => cases a.settings.halt <;> rfl
  | _ => rfl

theorem deedsOf_of_astray {e : FetchError} (astray : a.finding f c = .error e) :
    a.deedsOf f c = [] := by
  unfold finding at astray
  unfold deedsOf
  split at astray
  · cases astray
  · next checks =>
    rw [if_neg checks]
    split at astray
    · next answered => rw [answered]
    · cases astray

/-- What holds of the four results and of doing nothing holds of what a check does. -/
theorem deedsOf_of_results {Q : List Deed → Prop} (nothing : Q [])
    (each : ∀ k ds, a.Result f c k ds → Q ds) : Q (a.deedsOf f c) := by
  cases found : a.finding f c with
  | error e =>
    rw [deedsOf_of_astray found]
    exact nothing
  | ok k => exact each k _ (finding_cases found)

/-- A check notes at most one outcome, and of its own holding. -/
theorem holdings_notes_deedsOf (a : Auditor σ) (f : Answers) (c : Change) :
    ((Deed.notes (a.deedsOf f c)).map (·.1)).Sublist [c.holding] := by
  refine deedsOf_of_results (Q := fun ds => ((Deed.notes ds).map (·.1)).Sublist [c.holding])
    (List.nil_sublist _) fun k ds result => ?_
  cases result with
  | failed failure => cases a.settings.halt <;> exact List.Sublist.refl _
  | matched live => exact List.Sublist.refl _
  | _ => exact List.nil_sublist _

/-- The failures that a check keeps are mismatches of its change. -/
theorem mismatch_of_failures {failure : Failure} :
    failure ∈ Deed.failures (a.deedsOf f c) → a.Mismatch f c failure := by
  refine deedsOf_of_results (Q := fun ds => failure ∈ Deed.failures ds → a.Mismatch f c failure)
    nofun fun k ds result mem => ?_
  cases result with
  | failed failure' mismatch =>
    have same : failure' = failure := by
      cases halt : a.settings.halt <;> simp_all [Deed.failures, Deed.failure?]
    exact same ▸ mismatch
  | _ => cases mem

/-- A failure is kept iff failures halt and the check counts one. -/
theorem failures_deedsOf_ne_nil {k : Counter} (found : a.finding f c = .ok k) :
    Deed.failures (a.deedsOf f c) ≠ [] ↔
      a.settings.halt = true ∧ k = .failedReconciliations := by
  have result := finding_cases found
  generalize a.deedsOf f c = ds at result
  cases result with
  | failed failure => cases a.settings.halt <;> simp [Deed.failures, Deed.failure?]
  | _ => simp [Deed.failures, Deed.failure?]

theorem length_deedsOf_le (a : Auditor σ) (f : Answers) (c : Change) :
    (a.deedsOf f c).length ≤ 4 := by
  refine deedsOf_of_results (Q := fun ds => ds.length ≤ 4) (Nat.zero_le 4) fun k ds result => ?_
  cases result with
  | failed failure => cases a.settings.halt <;> simp
  | _ => simp

theorem eval_lookActive (answers : a.node.AnswersBy f) (c : Change) (s : Session σ) :
    ∃ w, (a.lookActive c).eval s =
      (((a.finding f c).mapError fun e => .failed (.fetch e)).map fun _ => a.deedsOf f c,
        { s with world := w }) := by
  unfold lookActive finding deedsOf
  by_cases exempt : a.settings.isExempt c.holding = true
  · rw [if_pos exempt, if_pos exempt, if_pos exempt]
    exact ⟨s.world, rfl⟩
  · rw [if_neg exempt, if_neg exempt, if_neg exempt, Step.eval_bind, eval_inquire]
    have reply : (s.world.call (a.node.balance c.holding
        (if a.settings.lookup then some c.block else none))).1 = some (a.answer f c) :=
      answers _ _ _
    rw [reply]
    refine ⟨(s.world.call (a.node.balance c.holding
      (if a.settings.lookup then some c.block else none))).2, ?_⟩
    cases a.answer f c with
    | error e => rfl
    | ok answer => rfl

/-- The check of a change leads to its deeds, and ends with its error. -/
theorem checkActive_comes (answers : a.node.AnswersBy f) (isOpen : s.store.closed = false)
    (c : Change) :
    ∃ t, (a.checkActive c).eval s =
        ((match a.errorOf f c with
          | some e => .error (.failed e)
          | none => .ok ()), t) ∧
      s.Came (a.deedsOf f c) t := by
  obtain ⟨w, looked⟩ := eval_lookActive answers c s
  rw [checkActive_eval isOpen, looked, errorOf]
  cases found : a.finding f c with
  | ok k =>
    refine ⟨Deed.runAll { s with world := w } (a.deedsOf f c), ?_, Session.runAll_setWorld s _ w⟩
    show (Deed.outcome (a.deedsOf f c), _) = _
    unfold Deed.outcome
    cases (Deed.failures (a.deedsOf f c)).head? <;> rfl
  | error e =>
    rw [deedsOf_of_astray found]
    exact ⟨{ s with world := w }, rfl, w, rfl⟩

/-! ## The checks of a block

One check behind the other, the first mismatch is the error; the ones behind it are made all
the same. -/

/-- The checks of a block end in what the first of them did, all of them if no check
ends with an error, and otherwise with the first error. -/
theorem checkAll_comes (answers : a.node.AnswersBy f) (isOpen : s.store.closed = false)
    (cs : List Change) :
    (a.checkAll cs).Ends s
      (fun _ t => s.Came (cs.flatMap (a.deedsOf f)) t ∧ cs.findSome? (a.errorOf f) = none)
      (fun stop t => ∃ done rest e, cs = done ++ rest ∧ stop = .failed e ∧
        s.Came (done.flatMap (a.deedsOf f)) t ∧ done.findSome? (a.errorOf f) = some e) := by
  -- The checks made so far did what they do, and their first error is known.
  refine (checkAll_ends (J := fun done e t => s.Came (done.flatMap (a.deedsOf f)) t ∧
    done.findSome? (a.errorOf f) = e) cs ?_ ⟨.refl s, rfl⟩).mono (fun _ _ h => h)
    fun _ _ ⟨done, rest, e, split, stop, came, first⟩ => ⟨done, rest, e, split, stop, came, first⟩
  rintro done c rest _ t _ ⟨came, rfl⟩
  obtain ⟨u, eq, came'⟩ := checkActive_comes answers (came.isOpen isOpen) c
  have both : s.Came ((done ++ [c]).flatMap (a.deedsOf f)) u := by
    simpa using came.trans came'
  unfold Step.Ends
  rw [eq]
  cases ends : a.errorOf f c with
  | none => exact ⟨both, by simp [List.findSome?_append, ends]⟩
  | some e => exact ⟨e, rfl, both, by simp [List.findSome?_append, ends]⟩

/-- The auditor that allows another number of active checks at once. -/
def allowing (a : Auditor σ) (n : Nat) : Auditor σ :=
  { a with settings := { a.settings with active := n } }

end Auditor

/-- The session in which the holdings of changes are tracked. -/
def Session.tracking (s : Session σ) (cs : List Change) : Session σ :=
  { s with tracker := s.tracker.track (cs.map (·.holding)) }

namespace Auditor

variable {a : Auditor σ} {f : Answers} {s t : Session σ} {u : Crew σ Change} {c : Change}
  {cs : List Change}

theorem checkChanges_comes (answers : a.node.AnswersBy f) (isOpen : s.store.closed = false)
    (active : a.settings.active ≠ 0) (cs : List Change) :
    (a.checkChanges cs).Ends s
      (fun _ t => (s.tracking cs).Came (cs.flatMap (a.deedsOf f)) t ∧
        cs.findSome? (a.errorOf f) = none)
      (fun stop t => ∃ done rest e, cs = done ++ rest ∧ stop = .failed e ∧
        (s.tracking cs).Came (done.flatMap (a.deedsOf f)) t ∧
        done.findSome? (a.errorOf f) = some e) := by
  rw [ends_checkChanges]
  by_cases idle : a.settings.active = 0 ∨ cs = []
  · rw [if_pos idle]
    obtain rfl := idle.resolve_left active
    exact ⟨.refl _, rfl⟩
  · rw [if_neg idle]
    exact checkAll_comes answers (by exact isOpen) cs

/-- No check ends with an error iff every one is answered and no failure halts. -/
theorem findSome?_errorOf_eq_none_iff :
    cs.findSome? (a.errorOf f) = none ↔ ∀ c ∈ cs, ∃ k, a.finding f c = .ok k ∧
      ¬(a.settings.halt = true ∧ k = .failedReconciliations) := by
  rw [List.findSome?_eq_none_iff]
  refine forall₂_congr fun c _ => ?_
  unfold errorOf
  cases found : a.finding f c with
  | error e => simp
  | ok k =>
    have kept := failures_deedsOf_ne_nil found
    simp only [Option.map_eq_none_iff, List.head?_eq_none_iff, Except.ok.injEq, exists_eq_left',
      ← kept, not_not]

/-- Where all checks are answered, the error of a check is a mismatch. -/
theorem mismatch_of_errorOf {e : ReconcileError} {k : Counter} (found : a.finding f c = .ok k)
    (error : a.errorOf f c = some e) :
    ∃ failure, e = .mismatch failure ∧ a.Mismatch f c failure ∧
      (Deed.failures (a.deedsOf f c)).head? = some failure := by
  unfold errorOf at error
  rw [found] at error
  obtain ⟨failure, first, rfl⟩ := Option.map_eq_some_iff.mp error
  exact ⟨failure, rfl, mismatch_of_failures (List.mem_of_mem_head? first), first⟩

/-! ## Checks that take turns

Whoever's turn it was, the deeds that were done are those of the changes, in another order. -/

/-- An errand did, or has left, what the check of its change does. -/
def Does (a : Auditor σ) (f : Answers) (c : Change) (ds : List Deed) : Prop :=
  ds = a.deedsOf f c ∧ ∃ k, a.finding f c = .ok k

theorem does_of_looked (answers : a.node.AnswersBy f) {s t : Session σ} {c : Change}
    {ds : List Deed} (looked : (a.lookActive c).eval s = (.ok ds, t)) : a.Does f c ds := by
  obtain ⟨w, eq⟩ := eval_lookActive answers c s
  rw [looked] at eq
  cases found : a.finding f c with
  | error e =>
    rw [found] at eq
    cases eq
  | ok k =>
    rw [found] at eq
    exact ⟨Except.ok.inj (congrArg Prod.fst eq), k, found⟩

/-- When all of them are over, they did what the checks of the changes do. -/
theorem deeds_of_over (answers : a.node.AnswersBy f)
    (turns : Crew.Turns a.lookActive (Crew.start s cs) u) (finished : u.isOver = true) :
    u.deeds = cs.flatMap (a.deedsOf f) ∧ ∀ c ∈ cs, ∃ k, a.finding f c = .ok k := by
  have proper := turns.proper fun _ _ _ _ => does_of_looked answers
  have done : ∀ errand ∈ u.errands, a.Does f errand.subject errand.done := fun errand mem =>
    (proper errand mem).done (List.all_eq_true.mp finished errand mem)
  rw [← turns.subjects]
  constructor
  · rw [Crew.deeds, List.flatMap_map]
    exact List.flatMap_congr fun errand mem => (done errand mem).1
  · intro c mem
    obtain ⟨errand, here, rfl⟩ := List.mem_map.mp mem
    exact (done errand here).2

/-- Changes of different holdings have different outcomes noted. -/
theorem nodup_notes (distinct : (cs.map (·.holding)).Nodup) :
    ((Deed.notes (cs.flatMap (a.deedsOf f))).map (·.1)).Nodup := by
  refine List.Nodup.sublist ?_ distinct
  clear distinct
  induction cs with
  | nil => exact List.Sublist.refl _
  | cons c cs ih =>
    simp only [Deed.notes, List.flatMap_cons, List.filterMap_append, List.map_append,
      List.map_cons] at ih ⊢
    exact (a.holdings_notes_deedsOf f c).append ih

theorem counters_flatMap_deedsOf (answered : ∀ c ∈ cs, ∃ k, a.finding f c = .ok k) (k : Counter) :
    (Deed.counters (cs.flatMap (a.deedsOf f))).count k =
      cs.countP (fun c => a.finding f c = .ok k) := by
  induction cs with
  | nil => rfl
  | cons c cs ih =>
    obtain ⟨k', found⟩ := answered c List.mem_cons_self
    have one := counters_deedsOf found
    have rest := ih fun c' mem => answered c' (List.mem_cons_of_mem _ mem)
    simp only [Deed.counters, List.flatMap_cons, List.filterMap_append, List.count_append,
      List.countP_cons] at one rest ⊢
    rw [one, rest, found]
    by_cases same : k' = k
    · simp [same, Nat.add_comm]
    · simp [same]

/-- Each of the answered changes is counted once among the four results. -/
theorem sum_countP_finding (answered : ∀ c ∈ cs, ∃ k, a.finding f c = .ok k) :
    (Counter.ofActive.map fun k => cs.countP fun c => a.finding f c = .ok k).sum = cs.length := by
  induction cs with
  | nil => rfl
  | cons c cs ih =>
    obtain ⟨k, found⟩ := answered c List.mem_cons_self
    have rest := ih fun c' mem => answered c' (List.mem_cons_of_mem _ mem)
    have among := finding_mem found
    simp only [Counter.ofActive, List.mem_cons, List.not_mem_nil, or_false] at among
    simp only [Counter.ofActive, List.map_cons, List.map_nil, List.sum_cons, List.sum_nil,
      List.countP_cons, List.length_cons, found] at rest ⊢
    rcases among with rfl | rfl | rfl | rfl
    all_goals
      simp only [Except.ok.injEq, reduceCtorEq, decide_true, decide_false, if_true,
        Bool.false_eq_true, if_false]
      omega

/-! ## The partition

Counters do not depend on the order of deeds. With halting the first failure kept does, and
it is one of those that there are. -/

/-- Without halting the checks of changes sort them: each one raises one of four
counters. -/
structure Sorts (a : Auditor σ) (f : Answers) (cs : List Change) (s : Session σ) : Prop where
  one : ∀ c ∈ cs, ∃ k ∈ Counter.ofActive, a.finding f c = .ok k
  /-- The four results sum up to the number of changes. -/
  total : (Counter.ofActive.map fun k => cs.countP fun c => a.finding f c = .ok k).sum = cs.length
  /-- There is one tracker and one store to which the checks lead, whatever number of
  them may be made at once and however they take turns. Every counter was raised by
  the number of changes with that result. -/
  settled : ∃ (tracker : Tracker) (store : Store),
    (∀ k : Counter, (store.ledger.counted k.name).value =
      min (s.counted k + cs.countP fun c => a.finding f c = .ok k) Count.greatest) ∧
    (∀ n ≠ 0, ∃ t, ((a.allowing n).checkChanges cs).eval s = (.ok (), t) ∧
      t.tracker = tracker ∧ t.store = store) ∧
    ∀ u, Crew.Turns a.lookActive (Crew.start (s.tracking cs) cs) u → u.isOver = true →
      u.session.tracker = tracker ∧ u.session.store = store
  /-- However the checks took turns so far, one of them has the next turn until all of
  them are over, and none makes more than six steps. -/
  goes : ∀ u, Crew.Turns a.lookActive (Crew.start (s.tracking cs) cs) u →
    (u.isOver = false → ∃ v, Crew.Turn a.lookActive u v) ∧ u.age ≤ cs.length * 6

/-- With halting the checks of changes find out whether one mismatches. -/
structure Halts (a : Auditor σ) (f : Answers) (cs : List Change) (s : Session σ) : Prop where
  /-- They succeed iff no change mismatches and the node answers for all of them. -/
  ok_iff : ∀ n ≠ 0, (∃ t, ((a.allowing n).checkChanges cs).eval s = (.ok (), t)) ↔
    ∀ c ∈ cs, ∃ k, a.finding f c = .ok k ∧ k ≠ .failedReconciliations
  /-- If the node answers for all of them, the error is the mismatch of a change, and
  unless a failure was kept before, that of a change is kept. -/
  blames : (∀ c ∈ cs, ∃ k, a.finding f c = .ok k) → ∀ n ≠ 0, ∀ stop t,
    ((a.allowing n).checkChanges cs).eval s = (.error stop, t) →
      (∃ c ∈ cs, ∃ failure, a.Mismatch f c failure ∧ stop = .failed (.mismatch failure)) ∧
      ∃ c ∈ cs, ∃ failure, a.Mismatch f c failure ∧
        t.recorder.active = (s.recorder.active <|> some failure)
  /-- However the checks take turns, each of them fails with nothing but the mismatch of
  its own change. Once one has, a mismatch is kept. -/
  blamed : ∀ u, Crew.Turns a.lookActive (Crew.start (s.tracking cs) cs) u →
    (∀ errand ∈ u.errands, ∀ failure ∈ Deed.failures errand.done,
      a.Mismatch f errand.subject failure) ∧
    (Deed.failures u.deeds ≠ [] → ∃ c ∈ cs, ∃ failure, a.Mismatch f c failure ∧
      u.session.recorder.active = (s.recorder.active <|> some failure))
  /-- When all of them are over, none has failed iff no change mismatches. -/
  finished : ∀ u, Crew.Turns a.lookActive (Crew.start (s.tracking cs) cs) u → u.isOver = true →
    (Deed.failures u.deeds = [] ↔
      ∀ c ∈ cs, ∃ k, a.finding f c = .ok k ∧ k ≠ .failedReconciliations)

theorem sorts (answers : a.node.AnswersBy f) (isOpen : s.store.closed = false)
    (distinct : (cs.map (·.holding)).Nodup) (lenient : a.settings.halt = false)
    (answered : ∀ c ∈ cs, ∃ k, a.finding f c = .ok k) : a.Sorts f cs s where
  one := fun c mem => by
    obtain ⟨k, found⟩ := answered c mem
    exact ⟨k, finding_mem found, found⟩
  total := sum_countP_finding answered
  settled := by
    have calm : cs.findSome? (a.errorOf f) = none := by
      refine findSome?_errorOf_eq_none_iff.mpr fun c mem => ?_
      obtain ⟨k, found⟩ := answered c mem
      exact ⟨k, found, by simp [lenient]⟩
    refine ⟨(s.tracking cs).tracker.noted (Deed.notes (cs.flatMap (a.deedsOf f))),
      { s.store with ledger := s.store.ledger.raised (Deed.counters (cs.flatMap (a.deedsOf f))) },
      fun k => ?_, fun n some_ => ?_, fun u turns finished => ?_⟩
    · rw [← counters_flatMap_deedsOf answered k]
      exact Ledger.value_counted_raised _ _ k
    · have ends := checkChanges_comes (a := a.allowing n) (f := f) answers isOpen some_ cs
      -- Nothing halts, so that the checks of a block always come to their end.
      have fine : ((a.allowing n).checkChanges cs).Ends s
          (fun _ t => (s.tracking cs).Came (cs.flatMap (a.deedsOf f)) t) fun _ _ => False := by
        refine ends.mono (fun _ _ h => h.1) ?_
        rintro _ _ ⟨done, rest, e, split, _, _, first⟩
        have none_ : (a.allowing n).errorOf f = a.errorOf f := rfl
        rw [split, List.findSome?_append, ← none_, first] at calm
        cases calm
      obtain ⟨_, t, eq, came⟩ := fine.exists_ok
      exact ⟨t, eq, came.tracker, came.store⟩
    -- In any other order the deeds are the same up to a permutation, which notes and counters
    -- forget.
    · obtain ⟨ds, perm, came⟩ := turns.came a.lookActive_quiet
      rw [(deeds_of_over answers turns finished).1] at perm
      constructor
      · rw [came.tracker]
        have notes := Deed.notes_perm perm
        exact Tracker.noted_of_perm notes ((notes.map _).nodup_iff.mpr (nodup_notes distinct)) _
      · rw [came.store, Ledger.raised_of_perm (Deed.counters_perm perm)]
        rfl
  goes := fun u turns => by
    -- Each errand has the deeds of its change at most, so that there are so many turns at most.
    have proper := turns.proper fun _ _ _ _ => does_of_looked answers
    have subjects := turns.subjects
    have short := Crew.age_le proper fun c ds does => does.1 ▸ a.length_deedsOf_le f c
    rw [← List.length_map, subjects] at short
    refine ⟨fun working => Crew.exists_turn working (fun errand mem _ => ?_)
      fun errand mem waits => ?_, short⟩
    · have subject : errand.subject ∈ cs := turns.subjects ▸ List.mem_map_of_mem mem
      obtain ⟨k, found⟩ := answered _ subject
      obtain ⟨w, looked⟩ := eval_lookActive answers errand.subject u.session
      rw [found] at looked
      exact ⟨_, _, looked⟩
    · have done := proper errand mem
      rwa [Errand.Proper, waits] at done

/-- Of the failures of checks the first is kept, and it is a mismatch. -/
theorem active_of_came {ds : List Deed} {s t : Session σ} (came : s.Came ds t)
    (mismatches : ∀ failure ∈ Deed.failures ds, ∃ c ∈ cs, a.Mismatch f c failure)
    (some_ : Deed.failures ds ≠ []) : ∃ c ∈ cs, ∃ failure, a.Mismatch f c failure ∧
      t.recorder.active = (s.recorder.active <|> some failure) := by
  have kept : t.recorder.active = (s.recorder.active <|> (Deed.failures ds).head?) := by
    rw [came.recorder]
    refine Recorder.active_foldl_keep (fun failure mem => ?_) _
    obtain ⟨_, _, _, _, _, _, rfl⟩ := mismatches failure mem
    rfl
  obtain ⟨failure, rest, first⟩ := List.exists_cons_of_ne_nil some_
  obtain ⟨c, mem, mismatch⟩ := mismatches failure (first ▸ List.mem_cons_self)
  exact ⟨c, mem, failure, mismatch, by rw [kept, first, List.head?_cons]⟩

/-- With halting the checks of a block succeed iff no change mismatches and the node answers
for all of them. -/
theorem checkChanges_ok_iff (answers : a.node.AnswersBy f) (isOpen : s.store.closed = false)
    (halt : a.settings.halt = true) {n : Nat} (some_ : n ≠ 0) :
    (∃ t, ((a.allowing n).checkChanges cs).eval s = (.ok (), t)) ↔
      ∀ c ∈ cs, ∃ k, a.finding f c = .ok k ∧ k ≠ .failedReconciliations := by
  have ends := checkChanges_comes (a := a.allowing n) (f := f) answers isOpen some_ cs
  -- A finding is an error exactly if it is a failure.
  have fine : cs.findSome? ((a.allowing n).errorOf f) = none ↔
      ∀ c ∈ cs, ∃ k, a.finding f c = .ok k ∧ k ≠ .failedReconciliations := by
    refine findSome?_errorOf_eq_none_iff.trans (forall₂_congr fun c _ => exists_congr fun k =>
      and_congr Iff.rfl ?_)
    show ¬(a.settings.halt = true ∧ _) ↔ _
    simp [halt]
  rw [← fine]
  constructor
  · rintro ⟨t, eq⟩
    exact (ends.of_ok eq).2
  · intro calm
    have finishes : ((a.allowing n).checkChanges cs).Ends s (fun _ _ => True) fun _ _ => False := by
      refine ends.mono (fun _ _ _ => trivial) ?_
      rintro _ _ ⟨done, rest, e, split, _, _, first⟩
      rw [split, List.findSome?_append, first] at calm
      cases calm
    obtain ⟨_, t, eq, _⟩ := finishes.exists_ok
    exact ⟨t, eq⟩

/-- Whoever's turn it was, a failure that was kept is one of its own change. -/
theorem blamed_of_turns (answers : a.node.AnswersBy f) {u : Crew σ Change}
    (turns : Crew.Turns a.lookActive (Crew.start (s.tracking cs) cs) u) :
    (∀ errand ∈ u.errands, ∀ failure ∈ Deed.failures errand.done,
      a.Mismatch f errand.subject failure) ∧
    (Deed.failures u.deeds ≠ [] → ∃ c ∈ cs, ∃ failure, a.Mismatch f c failure ∧
      u.session.recorder.active = (s.recorder.active <|> some failure)) := by
  have proper := turns.proper fun _ _ _ _ => does_of_looked answers
  have own : ∀ errand ∈ u.errands, ∀ failure ∈ Deed.failures errand.done,
      a.Mismatch f errand.subject failure := by
    intro errand mem failure keeps
    have does := proper errand mem
    unfold Errand.Proper at does
    split at does
    · rw [does] at keeps
      cases keeps
    · next ds _ =>
      refine mismatch_of_failures (a := a) ?_
      rw [← does.1, Deed.failures, List.filterMap_append]
      exact List.mem_append_left _ keeps
  refine ⟨own, fun some_ => ?_⟩
  obtain ⟨ds, perm, came⟩ := turns.came a.lookActive_quiet
  have kept := Deed.failures_perm perm
  refine active_of_came (s := s.tracking cs) came (fun failure mem => ?_)
    fun none_ => some_ (List.perm_nil.mp (none_ ▸ kept.symm))
  obtain ⟨errand, here, keeps⟩ := Deed.mem_failures_flatMap.mp (kept.mem_iff.mp mem)
  exact ⟨errand.subject, turns.subjects ▸ List.mem_map_of_mem here, own errand here failure keeps⟩

theorem halts (answers : a.node.AnswersBy f) (isOpen : s.store.closed = false)
    (halt : a.settings.halt = true) : a.Halts f cs s where
  ok_iff := fun _ some_ => checkChanges_ok_iff answers isOpen halt some_
  blames := fun answered n some_ stop t eq => by
    have ends := checkChanges_comes (a := a.allowing n) (f := f) answers isOpen some_ cs
    obtain ⟨done, rest, e, split, rfl, came, first⟩ := ends.of_error eq
    obtain ⟨c, mem, error⟩ := List.exists_of_findSome?_eq_some first
    have within : ∀ c ∈ done, c ∈ cs := fun c mem => split ▸ List.mem_append_left _ mem
    obtain ⟨k, found⟩ := answered c (within c mem)
    obtain ⟨failure, rfl, mismatch, kept⟩ := mismatch_of_errorOf (a := a.allowing n) found error
    -- The error is that of the first change that fails, and its failure is the one that was
    -- kept.
    refine ⟨⟨c, within c mem, failure, mismatch, rfl⟩,
      active_of_came (s := s.tracking cs) came (fun failure' mem' => ?_) (List.ne_nil_of_mem
        (Deed.mem_failures_flatMap.mpr ⟨c, mem, List.mem_of_mem_head? kept⟩))⟩
    obtain ⟨c', here, keeps⟩ := Deed.mem_failures_flatMap.mp mem'
    exact ⟨c', within c' here, mismatch_of_failures (a := a) keeps⟩
  blamed := fun _ turns => blamed_of_turns answers turns
  finished := fun u turns finished => by
    obtain ⟨all, answered⟩ := deeds_of_over answers turns finished
    -- With all errands done, failures are kept exactly if some change fails.
    have nothing : Deed.failures u.deeds = [] ↔
        ∀ c ∈ cs, Deed.failures (a.deedsOf f c) = [] := by
      rw [all, Deed.failures, List.filterMap_flatMap, List.flatMap_eq_nil_iff]
      rfl
    rw [nothing]
    refine forall₂_congr fun c mem => ?_
    obtain ⟨k, found⟩ := answered c mem
    have kept := failures_deedsOf_ne_nil found
    simp only [halt, true_and] at kept
    simp only [found, Except.ok.injEq, exists_eq_left', ne_eq, ← kept, not_not]

/-- **Active checks sort the changes of a block**, in whatever order they take turns and
however many may be made at once: without halting each one raises the counter of its
result, and with halting they fail iff a change mismatches or the node does not answer. -/
theorem checkChanges_partition (answers : a.node.AnswersBy f) (isOpen : s.store.closed = false)
    (distinct : (cs.map (·.holding)).Nodup) :
    (a.settings.halt = false → (∀ c ∈ cs, ∃ k, a.finding f c = .ok k) → a.Sorts f cs s) ∧
      (a.settings.halt = true → a.Halts f cs s) :=
  ⟨sorts answers isOpen distinct, halts answers isOpen⟩

/-- One change comes to what the node answers and the other one does not. -/
theorem checkChanges_partition_gap :
    let tip : BlockId := ⟨1, "b"⟩
    let right : Change := ⟨.alice, tip, .whole 1, .whole 3, false⟩
    let wrong : Change := ⟨⟨⟨"bob", none⟩, ⟨"BTC", 8⟩⟩, tip, .whole 1, .whole 1, true⟩
    let lenient : Auditor Unit := ⟨Chain.gap.node, { halt := false }⟩
    let strict : Auditor Unit := ⟨Chain.gap.node, {}⟩
    let s : Session Unit := { world := { node := () }, store := {} }
    lenient.Sorts Chain.gap.balance [right, wrong] s ∧
      strict.Halts Chain.gap.balance [right, wrong] s := by
  intro tip right wrong lenient strict s
  have distinct : ([right, wrong].map (·.holding)).Nodup := by decide
  have answered : ∀ c ∈ [right, wrong], ∃ k, lenient.finding Chain.gap.balance c = .ok k := by
    intro c mem
    rcases List.mem_pair.mp mem with rfl | rfl
    · exact ⟨.activeReconciliations, by decide +kernel⟩
    · exact ⟨.failedReconciliations, by decide +kernel⟩
  exact ⟨(checkChanges_partition (fun _ _ _ => rfl) rfl distinct).1 rfl answered,
    (checkChanges_partition (fun _ _ _ => rfl) rfl distinct).2 rfl⟩

end Auditor

end BalanceAudit
