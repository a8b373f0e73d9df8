import BalanceAudit.Proofs.Chain.TwoBlocks
import BalanceAudit.Proofs.Sweep.Abreast
import BalanceAudit.Proofs.Sweep.Longest

/-!
# No holding is starved

Workers and active checks share the tracked holdings. Whatever they do to them in whatever
order, and wherever the head is meanwhile, the next claim goes to the holding that waited
longest, so that none is checked twice before all others had their turn. A claim asks every
holding how long it waited, and overflows if that is no word for one of them; then nothing
is claimed at all, so that nobody is passed over either.

- `Auditor.Touch`, `Auditor.Touches`: what is done to the tracked holdings, one thing after
  another; `Auditor.touch_of_sweeping`, `Auditor.touch_of_turn`: every step of workers and
  of active checks is such a touch.
- `Auditor.Touches.keeps`: last checks never decrease.
- `Auditor.SweepsFairly`, `Auditor.sweeps_fairly`: **no holding is starved**.
-/

namespace BalanceAudit

variable {σ : Type}

namespace Auditor

variable {a : Auditor σ} {n : Nat} {s t u : Session σ}

/-! ## What is done to the tracked holdings

Whoever does it, a touch tracks, marks or finishes one holding, and forgets no check. -/

/-- One touch of the tracked holdings. In between anything may become of the rest of the
session: blocks are committed and the head moves on. -/
inductive Touch (a : Auditor σ) (s : Session σ) : Session σ → Prop where
  | track (hs : List Holding) : Touch a s { s with tracker := s.tracker.track hs }
  /-- A worker claims a holding, or finds none to claim. -/
  | claim {claimed : Option (Holding × Int)} {t : Session σ}
      (claims : a.claim.eval s = (.ok claimed, t)) : Touch a s t
  /-- A worker or an active check is done with a holding. -/
  | finish (h : Holding) (index : Int) (status : CheckStatus) :
      Touch a s { s with tracker := s.tracker.finish h index status }
  | other {t : Session σ} (same : t.tracker = s.tracker) : Touch a s t

/-- Any number of touches. -/
abbrev Touches (a : Auditor σ) : Session σ → Session σ → Prop := Relation.ReflTransGen a.Touch

/-- A claim that does not fail finds the store open. -/
theorem open_of_claim {claimed : Option (Holding × Int)}
    (claims : a.claim.eval s = (.ok claimed, t)) : s.store.closed = false := by
  cases closed : s.store.closed with
  | false => rfl
  | true =>
    rw [claim, Step.eval_bind, Step.eval_read, Store.read, if_pos closed] at claims
    cases claims

/-- A claim that comes to something claims at the head. -/
theorem claim_eq_some {h : Holding} {i : Int} (claims : a.claim.eval s = (.ok (some (h, i)), t)) :
    ∃ head tracker, s.store.ledger.head? = some head ∧ i = head.index ∧
      s.tracker.claim? i a.settings.inactiveFrequency = some (some (h, tracker)) ∧
      t = { s with tracker } := by
  have isOpen := open_of_claim claims
  cases found : s.store.ledger.head? with
  | none =>
    rw [claim, Step.eval_bind, Step.eval_read_of_open isOpen] at claims
    simp only [found] at claims
    cases claims
  | some head =>
    rw [eval_claim isOpen found] at claims
    split at claims
    · cases claims
    · cases claims
    · next h' tracker claimed =>
      cases claims
      exact ⟨head, tracker, rfl, rfl, claimed, rfl⟩

/-- No touch forgets a check. -/
theorem Touch.keeps (touch : a.Touch s t) : s.tracker.Keeps t.tracker := by
  cases touch with
  | track hs => exact s.tracker.keeps_track hs
  | @claim claimed _ claims =>
    cases claimed with
    | none =>
      have same := (a.claim_keeps s).2 fun x => by
        rw [claims]
        exact nofun
      rw [claims] at same
      rw [show t = s from same]
      exact .refl _
    | some claimed =>
      obtain ⟨_, tracker, -, -, claimed, rfl⟩ := claim_eq_some claims
      exact Tracker.keeps_claim claimed
  | finish h index status => exact s.tracker.keeps_finish h index status
  | other same => exact same ▸ .refl _

/-- **Last checks never decrease**, whatever is done in whatever order. -/
theorem Touches.keeps (touches : a.Touches s t) : s.tracker.Keeps t.tracker := by
  induction touches with
  | refl => exact .refl _
  | tail _ touch ih => exact ih.trans touch.keeps

/-! ## Workers and active checks

A turn of either is one touch or none. -/

theorem touch_of_deed (d : Deed) (s : Session σ) : a.Touch s (d.run s) := by
  cases d with
  | note h index status => exact .finish h index status
  | _ => exact .other rfl

/-- A turn of a check touches no more than its own deeds do. -/
theorem touch_of_turn {τ : Type} {look : τ → Step (Session σ) ReconcileError (List Deed)}
    {u v : Crew σ τ} (quiet : Crew.Quiet look) (turn : Crew.Turn look u v) :
    a.Touch u.session v.session := by
  rcases Crew.turn_cases quiet turn with ⟨-, w, same⟩ | ⟨d, -, moved⟩
  · exact .other (by rw [same])
  · rw [moved]
    exact touch_of_deed d u.session

/-- So do workers that sweep, besides their claims. -/
theorem touch_of_sweeping {u v : Crew σ (Holding × Int)} (step : a.Sweeping n u v) :
    a.Touch u.session v.session := by
  cases step with
  | claim _ claimed => exact .claim claimed
  | check turn => exact touch_of_turn a.lookInactive_quiet turn

end Auditor

/-! ## Fairness

Between two claims of one holding last checks do not decrease, and the second claim takes
the smallest of those that are left. So the others are not smaller than the first claim's
head. -/

namespace Auditor

variable {a : Auditor σ}

/-- How fair the sweeps of an auditor are. -/
structure SweepsFairly (a : Auditor σ) : Prop where
  /-- Whatever is done, a holding stays tracked, and its last check does not decrease. -/
  keeps {s t : Session σ} {h : Holding} {x : Tracked} (touches : a.Touches s t)
    (held : s.tracker.find? h = some x) : ∃ y, t.tracker.find? h = some y ∧ x.NoLater y
  /-- Whatever is claimed waited longest of all holdings that nobody has claimed, whether
  they are due or not. -/
  longest {s t : Session σ} {h : Holding} {i : Int}
    (claims : a.claim.eval s = (.ok (some (h, i)), t)) :
    ∃ x, s.tracker.find? h = some x ∧ x.status ≠ .checking ∧
      t = { s with tracker := s.tracker.insert h { x with status := .checking } } ∧
      ∀ h' y, s.tracker.find? h' = some y → y.status ≠ .checking → x.NoLater y
  /-- A holding that was claimed at `i`, checked there or later and is claimed again: by then
  all others that nobody has claimed were checked at `i` or later. -/
  again {s₁ s₂ s₃ s₄ s₅ : Session σ} {h h' : Holding} {i j k : Int} {status : CheckStatus}
    {y : Tracked} (first : a.claim.eval s₁ = (.ok (some (h, i)), s₂))
    (meanwhile : a.Touches s₂ s₃) (le : i ≤ k)
    (later : a.Touches { s₃ with tracker := s₃.tracker.finish h k status } s₄)
    (second : a.claim.eval s₄ = (.ok (some (h, j)), s₅))
    (held : s₄.tracker.find? h' = some y) (free : y.status ≠ .checking) :
    ∃ last, y.lastChecked = some last ∧ i ≤ last
  /-- If nothing is claimed although there is a head, all that nobody has claimed was checked
  less than the frequency ago. -/
  idle {s t : Session σ} {head : BlockId} {h : Holding} {x : Tracked}
    (found : s.store.ledger.head? = some head) (nothing : a.claim.eval s = (.ok none, t))
    (held : s.tracker.find? h = some x) (free : x.status ≠ .checking) :
    ∃ last, x.lastChecked = some last ∧
      head.index - last < max a.settings.inactiveFrequency 1
  /-- On an open store a claim has such a result, unless the distance from the last check of
  a holding that nobody has claimed is no word. Then it overflows, and nothing changes. -/
  overflows {s : Session σ} {head : BlockId} (isOpen : s.store.closed = false)
    (found : s.store.ledger.head? = some head) :
    ((∃ claimed t, a.claim.eval s = (.ok claimed, t)) ↔ s.tracker.Told head.index) ∧
      (¬s.tracker.Told head.index → a.claim.eval s = (.error (.overflow .distance), s))
  /-- In workers' sweeps and in active checks, whoever's turn it is, nothing else is done to
  the tracked holdings. -/
  workers {n : Nat} {u v : Crew σ (Holding × Int)} (step : a.Sweeping n u v) :
    a.Touch u.session v.session
  checks {u v : Crew σ Change} (turn : Crew.Turn a.lookActive u v) : a.Touch u.session v.session
  /-- However a run ends, no holding was checked ahead of the head, nor further behind it
  than there are blocks. So a claim overflows only if there are more blocks than words from
  zero on. -/
  runs {first : Int} {last : Option Int} {s t : Session σ} {head : BlockId} {h : Holding}
    {x : Tracked} {checked : Int} (untried : s.Untried)
    (ran : ((a.runPipeline first last).eval s).2 = t) (found : t.store.ledger.head? = some head)
    (held : t.tracker.find? h = some x) (noted : x.lastChecked = some checked) :
    checked ≤ head.index ∧ head.index - checked < t.store.ledger.blocks.entries.length

/-- **No holding is starved.** Sweeps go to whoever waited longest and leave nobody out, in
whatever order tracking, claims and checks come. -/
theorem sweeps_fairly (a : Auditor σ) : a.SweepsFairly where
  keeps {s t h x} touches held := touches.keeps h x held
  longest {s t h i} claims := by
    obtain ⟨head, tracker, -, -, claimed, rfl⟩ := claim_eq_some claims
    obtain ⟨-, x, held, due, rfl, -⟩ := Tracker.claim?_longest claimed
    exact ⟨x, held, (Tracked.isDue?_eq_true_iff.mp due).2.1, rfl, fun h' y held' free =>
      Tracker.claim?_noLater claimed held held' free⟩
  again {s₁ s₂ s₃ s₄ s₅ h h' i j k status y} first meanwhile le later second held free := by
    obtain ⟨_, tracker, -, -, claimed, rfl⟩ := claim_eq_some first
    obtain ⟨-, x₁, held₁, -⟩ := Tracker.claim?_longest claimed
    obtain ⟨x₂, held₂, -⟩ := Tracker.keeps_claim claimed h x₁ held₁
    obtain ⟨x₃, held₃, -⟩ := meanwhile.keeps h x₂ held₂
    -- From the check on, the last check of the holding is at `k` or later.
    obtain ⟨last, checked, ge⟩ := x₃.lastChecked_finish k status
    have noted : (s₃.tracker.finish h k status).find? h = some (x₃.finish k status) := by
      rw [Tracker.find?_finish, if_pos rfl, held₃, Option.map_some]
    obtain ⟨x₄, held₄, since⟩ := later.keeps h _ noted
    obtain ⟨last', checked', ge'⟩ := since last checked
    obtain ⟨_, _, -, -, claimed', -⟩ := claim_eq_some second
    obtain ⟨last'', checked'', ge''⟩ :=
      Tracker.claim?_noLater claimed' held₄ held free last' checked'
    exact ⟨last'', checked'', by omega⟩
  idle {s t head h x} found nothing held free := by
    obtain ⟨told, rests⟩ := (claim_eq_ok_none_iff (open_of_claim nothing) found).mp
      (congrArg Prod.fst nothing)
    refine Tracked.checked_of_not_due (told h x held) free fun due => ?_
    have mem := Tracker.mem_due.mpr ⟨x, held, due⟩
    rw [rests] at mem
    cases mem
  overflows {s head} isOpen found := by
    rw [eval_claim isOpen found]
    rcases s.tracker.claim?_cases head.index a.settings.inactiveFrequency with ⟨far, eq⟩ |
      ⟨told, -, eq⟩ | ⟨told, h, x, -, -, eq⟩
    · simp [eq, far]
    · simp [eq, told]
    · simp [eq, told]
  workers step := touch_of_sweeping step
  checks turn := touch_of_turn a.lookActive_quiet turn
  runs {first last s t head h x checked} untried ran found held noted := by
    have abreast := abreast_of_untried a first last untried ran
    exact ((abreast.checked h x checked held noted).resolve_left id).near found

/-- Alice and bob in turns: alice waited longest and is claimed at 10; nothing is due at 10
once she was checked; bob is claimed at 15, and alice again at 20, when bob was checked at 16.
Where alice was last checked at the least index and the head is at the greatest, nobody is
claimed. A short run leaves alice checked at the head. -/
theorem sweeps_fairly_rotating :
    let bob : Holding := ⟨⟨"bob", none⟩, ⟨"BTC", 8⟩⟩
    let a : Auditor Unit := ⟨Chain.gap.node, { inactiveFrequency := 5 }⟩
    let at_ (head i j : Int) : Session Unit :=
      { world := World.enter { node := () }
        store := { ledger := { blocks := Table.ofList [(head, "h")] } }
        tracker := Table.ofList [(.alice, ⟨some i, .inSync⟩), (bob, ⟨some j, .failed⟩)] }
    let far : Session Unit := at_ Index.greatest Index.least 0
    let run := (a.runPipeline 0 (some 0)).eval { at_ 0 0 0 with store := {}, tracker := ∅ }
    (a.claim.eval (at_ 10 4 6)).1 = .ok (some (.alice, 10)) ∧
      Tracked.NoLater ⟨some 4, .inSync⟩ ⟨some 6, .failed⟩ ∧
      (a.claim.eval (at_ 10 10 6)).1 = .ok none ∧
      (∃ last, (at_ 10 10 6).tracker.find? bob = some ⟨some last, .failed⟩ ∧ 10 - last < 5) ∧
      (a.claim.eval (at_ 15 10 6)).1 = .ok (some (bob, 15)) ∧
      (a.claim.eval (at_ 20 10 16)).1 = .ok (some (.alice, 20)) ∧
      (∃ last, (at_ 20 10 16).tracker.find? bob = some ⟨some last, .failed⟩ ∧ 10 ≤ last) ∧
      a.claim.eval far = (.error (.overflow .distance), far) ∧
      run.2.tracker.entries = [(.alice, ⟨some 0, .inSync⟩)] ∧
      (0 : Int) < run.2.store.ledger.blocks.entries.length := by
  intro bob a at_ far run
  have fair := sweeps_fairly a
  have first : a.claim.eval (at_ 10 4 6) = (.ok (some (.alice, 10)), _) :=
    Prod.ext (by decide +kernel) rfl
  have rests : a.claim.eval (at_ 10 10 6) = (.ok none, _) := Prod.ext (by decide +kernel) rfl
  have other : a.claim.eval (at_ 15 10 6) = (.ok (some (bob, 15)), _) :=
    Prod.ext (by decide +kernel) rfl
  have second : a.claim.eval (at_ 20 10 16) = (.ok (some (.alice, 20)), _) :=
    Prod.ext (by decide +kernel) rfl
  have held : (at_ 20 10 16).tracker.find? bob = some ⟨some 16, .failed⟩ := by decide +kernel
  -- Alice is checked, the head moves on, bob is claimed and checked, and it moves on again.
  let after (s : Session Unit) (h : Holding) (i : Int) (status : CheckStatus) : Session Unit :=
    { (a.claim.eval s).2 with tracker := (a.claim.eval s).2.tracker.finish h i status }
  have moves : a.Touch (after (at_ 10 4 6) .alice 10 .inSync) (at_ 15 10 6) :=
    .other (Table.ext (by decide +kernel))
  have checks : a.Touch (a.claim.eval (at_ 15 10 6)).2 (after (at_ 15 10 6) bob 16 .failed) :=
    .finish bob 16 .failed
  have moves' : a.Touch (after (at_ 15 10 6) bob 16 .failed) (at_ 20 10 16) :=
    .other (Table.ext (by decide +kernel))
  have later : a.Touches (after (at_ 10 4 6) .alice 10 .inSync) (at_ 20 10 16) :=
    .tail (.tail (.tail (.single moves) (.claim other)) checks) moves'
  refine ⟨congrArg Prod.fst first, ?_, congrArg Prod.fst rests, ?_, congrArg Prod.fst other,
    congrArg Prod.fst second, ?_, ?_, by decide +kernel, ?_⟩
  · obtain ⟨x, held, -, -, longest⟩ := fair.longest first
    have alice : (at_ 10 4 6).tracker.find? .alice = some ⟨some 4, .inSync⟩ := by decide +kernel
    cases alice.symm.trans held
    exact longest bob _ (by decide +kernel) (by decide)
  · have found : (at_ 10 10 6).store.ledger.head? = some ⟨10, "h"⟩ := by decide +kernel
    have held : (at_ 10 10 6).tracker.find? bob = some ⟨some 6, .failed⟩ := by decide +kernel
    obtain ⟨last, checked, recent⟩ := fair.idle found rests held (by decide)
    cases checked
    exact ⟨6, held, recent⟩
  · obtain ⟨last, checked, since⟩ :=
      fair.again first .refl (le_refl 10) later second held (by decide)
    cases checked
    exact ⟨16, held, since⟩
  · have found : far.store.ledger.head? = some ⟨Index.greatest, "h"⟩ := by decide +kernel
    have alice : far.tracker.find? .alice = some ⟨some Index.least, .inSync⟩ := by decide +kernel
    refine (fair.overflows rfl found).2 fun told => ?_
    exact absurd (told .alice _ alice (by decide) Index.least rfl) (by decide)
  · have found : run.2.store.ledger.head? = some ⟨0, "a"⟩ := by decide +kernel
    have held : run.2.tracker.find? .alice = some ⟨some 0, .inSync⟩ := by decide +kernel
    exact (fair.runs (t := run.2) ⟨rfl, rfl⟩ rfl found held rfl).2

end Auditor

end BalanceAudit
