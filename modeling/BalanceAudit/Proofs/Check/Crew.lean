import BalanceAudit.Proofs.Check.Deeds
import Mathlib.Algebra.Order.BigOperators.Group.List

/-!
# Checks that take turns

Checks that are under way at the same time share the counters, the tracked
holdings and the failures. In a turn one of them goes on: it looks, or it does the
next of its deeds. Whose turn it is next is left open.

- `Errand`, `Crew`: a check that is under way, and a session with all of them.
- `Crew.Turn`: one of them goes on; `Crew.turn_cases`: what that makes of the session.
- `Errand.Proper`: what an errand did and has left is what its look may come to;
  `Crew.Turn.proper`: turns keep that.
- `Crew.Turn.age`: a turn is one more step of one errand.
- `Crew.Turns.came`: **whoever's turn it was, the session is what the errands did to it**.
- `Crew.exists_turn`: as long as an errand has something left, there is a next turn,
  unless the node does not answer it.
-/

namespace BalanceAudit

variable {σ τ : Type}

/-- A check that is under way. -/
structure Errand (τ : Type) where
  subject : τ
  /-- What it did so far. -/
  done : List Deed := []
  /-- What it has left to do; unknown until it has looked. -/
  left : Option (List Deed) := none

namespace Errand

/-- The errand has nothing left to do. -/
def isOver (t : Errand τ) : Bool := t.left = some []

/-- How many steps it made, the one with which it started included. -/
def age (t : Errand τ) : Nat := t.done.length + if t.left = none then 1 else 2

/-- What the errand did and has left is one of the things that its look may come to. -/
def Proper (P : τ → List Deed → Prop) (t : Errand τ) : Prop :=
  match t.left with
  | none => t.done = []
  | some ds => P t.subject (t.done ++ ds)

/-- A deed that is done was left before. -/
theorem Proper.act {P : τ → List Deed → Prop} {x : τ} {done ds : List Deed} {d : Deed}
    (h : Proper P ⟨x, done, some (d :: ds)⟩) : Proper P ⟨x, done ++ [d], some ds⟩ := by
  have whole : P x (done ++ d :: ds) := h
  show P x (done ++ [d] ++ ds)
  simpa using whole

/-- An errand makes no more steps than its deeds take, after its start and its look. -/
theorem Proper.age_le {P : τ → List Deed → Prop} {t : Errand τ} {n : Nat} (h : t.Proper P)
    (short : ∀ ds, P t.subject ds → ds.length ≤ n) : t.age ≤ n + 2 := by
  unfold Proper at h
  unfold age
  split at h
  · next waits =>
    rw [h, if_pos waits]
    exact Nat.le_add_left 1 (n + 1)
  · next ds known =>
    have whole := short _ h
    rw [List.length_append] at whole
    rw [known, if_neg (Option.some_ne_none ds)]
    omega

/-- An errand that is over did one of the things that its look may come to. -/
theorem Proper.done {P : τ → List Deed → Prop} {t : Errand τ} (h : t.Proper P)
    (finished : t.isOver = true) : P t.subject t.done := by
  have nothing : t.left = some [] := by simpa [isOver] using finished
  rw [Proper, nothing] at h
  simpa using h

end Errand

/-- A session with the checks that are under way in it. -/
structure Crew (σ τ : Type) where
  session : Session σ
  errands : List (Errand τ)

namespace Crew

/-- A crew of which no errand has started. -/
def start (s : Session σ) (xs : List τ) : Crew σ τ := ⟨s, xs.map fun x => { subject := x }⟩

/-- Everything that the errands did. -/
def deeds (u : Crew σ τ) : List Deed := u.errands.flatMap (·.done)

/-- All errands are over. -/
def isOver (u : Crew σ τ) : Bool := u.errands.all (·.isOver)

/-- The steps of all errands. -/
def age (u : Crew σ τ) : Nat := (u.errands.map (·.age)).sum

variable {look : τ → Step (Session σ) ReconcileError (List Deed)} {u v w : Crew σ τ}
  {P : τ → List Deed → Prop}

/-- One of the errands goes on. -/
inductive Turn (look : τ → Step (Session σ) ReconcileError (List Deed)) :
    Crew σ τ → Crew σ τ → Prop where
  | look {s t : Session σ} {x : τ} {ds : List Deed} (before after : List (Errand τ))
      (looked : (look x).eval s = (.ok ds, t)) :
      Turn look ⟨s, before ++ ⟨x, [], none⟩ :: after⟩ ⟨t, before ++ ⟨x, [], some ds⟩ :: after⟩
  | act {s : Session σ} {x : τ} {done ds : List Deed} {d : Deed} (before after : List (Errand τ)) :
      Turn look ⟨s, before ++ ⟨x, done, some (d :: ds)⟩ :: after⟩
        ⟨d.run s, before ++ ⟨x, done ++ [d], some ds⟩ :: after⟩

/-- A look changes nothing but the world. -/
def Quiet (look : τ → Step (Session σ) ReconcileError (List Deed)) : Prop :=
  ∀ (x : τ) (s : Session σ), ∃ w, ((look x).eval s).2 = { s with world := w }

/-- A turn is a look, or one more deed. -/
theorem turn_cases (quiet : Quiet look) (turn : Turn look u v) :
    (v.deeds = u.deeds ∧ ∃ w, v.session = { u.session with world := w }) ∨
      ∃ d, v.deeds.Perm (u.deeds ++ [d]) ∧ v.session = d.run u.session := by
  cases turn with
  | @look s t x ds before after looked =>
    refine .inl ⟨by simp [deeds], ?_⟩
    obtain ⟨w, eq⟩ := quiet x s
    rw [looked] at eq
    exact ⟨w, eq⟩
  | @act s x done ds d before after =>
    refine .inr ⟨d, ?_, rfl⟩
    simp only [deeds, List.flatMap_append, List.flatMap_cons, List.append_assoc]
    -- The deed stands behind those of its own errand, before those of the later ones.
    refine (List.Perm.append_left done ?_).append_left _
    exact List.perm_append_comm

theorem Turn.subjects (turn : Turn look u v) :
    v.errands.map (·.subject) = u.errands.map (·.subject) := by
  cases turn <;> simp

/-- Every turn is a step of one errand. -/
theorem Turn.age (turn : Turn look u v) : v.age = u.age + 1 := by
  cases turn <;> simp [Crew.age, Errand.age] <;> omega

theorem age_le {n : Nat} (proper : ∀ errand ∈ u.errands, errand.Proper P)
    (short : ∀ x ds, P x ds → ds.length ≤ n) : u.age ≤ u.errands.length * (n + 2) := by
  have each : ∀ k ∈ u.errands.map (·.age), k ≤ n + 2 := by
    intro k mem
    obtain ⟨errand, here, rfl⟩ := List.mem_map.mp mem
    exact (proper errand here).age_le fun ds => short _ ds
  have sum := List.sum_le_card_nsmul _ _ each
  rwa [List.length_map] at sum

/-- A property of every errand that the errand with the turn keeps. -/
theorem Turn.forall_errands {Q : Errand τ → Prop} (turn : Turn look u v)
    (looks : ∀ x ds t, (look x).eval u.session = (.ok ds, t) → Q ⟨x, [], none⟩ →
      Q ⟨x, [], some ds⟩)
    (acts : ∀ x done d ds, Q ⟨x, done, some (d :: ds)⟩ → Q ⟨x, done ++ [d], some ds⟩)
    (all : ∀ errand ∈ u.errands, Q errand) : ∀ errand ∈ v.errands, Q errand := by
  cases turn with
  | look before after looked =>
    simp only [List.forall_mem_append, List.forall_mem_cons] at all ⊢
    exact ⟨all.1, looks _ _ _ looked all.2.1, all.2.2⟩
  | act before after =>
    simp only [List.forall_mem_append, List.forall_mem_cons] at all ⊢
    exact ⟨all.1, acts _ _ _ _ all.2.1, all.2.2⟩

/-- What looks may come to is what errands do. -/
theorem Turn.proper (turn : Turn look u v)
    (looks : ∀ x ds t, (look x).eval u.session = (.ok ds, t) → P x ds)
    (proper : ∀ errand ∈ u.errands, errand.Proper P) : ∀ errand ∈ v.errands, errand.Proper P := by
  exact turn.forall_errands (fun x ds t looked _ => looks x ds t looked) (fun _ _ _ _ h => h.act)
    proper

/-- As long as an errand has something left, one of them has a turn, unless a look is
not answered. -/
theorem exists_turn (working : u.isOver = false)
    (answered : ∀ errand ∈ u.errands, errand.left = none →
      ∃ ds t, (look errand.subject).eval u.session = (.ok ds, t))
    (fresh : ∀ errand ∈ u.errands, errand.left = none → errand.done = []) : ∃ v, Turn look u v := by
  obtain ⟨s, errands⟩ := u
  obtain ⟨⟨x, done, left⟩, mem, open_⟩ : ∃ errand ∈ errands, errand.isOver = false := by
    simpa [isOver] using working
  obtain ⟨before, after, rfl⟩ := List.append_of_mem mem
  cases left with
  | none =>
    cases fresh _ mem rfl
    obtain ⟨ds, t, looked⟩ := answered _ mem rfl
    exact ⟨_, .look before after looked⟩
  | some ds =>
    cases ds with
    | nil => simp [Errand.isOver] at open_
    | cons d ds => exact ⟨_, .act before after⟩

/-- Turns of the errands, in any order. -/
abbrev Turns (look : τ → Step (Session σ) ReconcileError (List Deed)) :
    Crew σ τ → Crew σ τ → Prop := Relation.ReflTransGen (Turn look)

section Start

variable {s : Session σ} {xs : List τ}

theorem Turns.subjects (turns : Turns look (start s xs) u) : u.errands.map (·.subject) = xs := by
  induction turns with
  | refl => simp [start, Function.comp_def]
  | tail _ turn ih => exact turn.subjects.trans ih

/-- The session is what the errands made of it, in the order of their turns. -/
theorem Turns.came (quiet : Quiet look) (turns : Turns look (start s xs) u) :
    ∃ ds, ds.Perm u.deeds ∧ s.Came ds u.session := by
  induction turns with
  | refl =>
    refine ⟨[], ?_, .refl s⟩
    simp [start, deeds]
  | tail _ turn ih =>
    -- So far the deeds came in the order of their turns, errand by errand they are the same.
    obtain ⟨ds, perm, came⟩ := ih
    rcases turn_cases quiet turn with ⟨same, w, moved⟩ | ⟨d, more, moved⟩
    · refine ⟨ds, same ▸ perm, ?_⟩
      have looked : Session.Came (ds ++ []) _ _ := came.trans ⟨w, moved⟩
      rwa [List.append_nil] at looked
    · refine ⟨ds ++ [d], (perm.append_right [d]).trans more.symm, came.trans ?_⟩
      rw [moved]
      exact .run _ d

theorem Turns.proper (turns : Turns look (start s xs) u)
    (looks : ∀ x s ds t, (look x).eval s = (.ok ds, t) → P x ds) :
    ∀ errand ∈ u.errands, errand.Proper P := by
  induction turns with
  | refl =>
    intro errand mem
    obtain ⟨x, _, rfl⟩ := List.mem_map.mp mem
    exact rfl
  | tail _ turn ih => exact turn.proper (fun x ds t => looks x _ ds t) ih

end Start

end Crew

namespace Auditor

/-! ## The looks of checks

A look changes nothing that checks share. It moves the world, and that is all. -/

variable (a : Auditor σ)

theorem inquire_quiet (h : Holding) (block : BlockId) (s : Session σ) :
    ∃ w, ((a.inquire h block).eval s).2 = { s with world := w } := by
  rw [eval_inquire]
  exact ⟨_, rfl⟩

theorem lookActive_quiet : Crew.Quiet a.lookActive := by
  intro c s
  unfold lookActive
  split
  · exact ⟨s.world, rfl⟩
  · obtain ⟨w, eq⟩ := a.inquire_quiet c.holding c.block s
    rw [Step.eval_bind]
    rcases looked : (a.inquire c.holding c.block).eval s with ⟨_ | answer, t⟩
    all_goals
      rw [looked] at eq
      exact ⟨w, eq⟩

theorem lookInactive_quiet : Crew.Quiet fun x : Holding × Int => a.lookInactive x.1 x.2 := by
  rintro ⟨h, claimedAt⟩ s
  unfold lookInactive
  dsimp only
  split
  · exact ⟨s.world, rfl⟩
  · rw [Step.eval_bind, Step.eval_read]
    cases s.store.read with
    | error e => exact ⟨s.world, rfl⟩
    | ok l =>
      dsimp only [Except.mapError]
      cases l.snapshot? h with
      | none => exact ⟨s.world, rfl⟩
      | some snapshot =>
        obtain ⟨r, head⟩ := snapshot
        obtain ⟨w, eq⟩ := a.inquire_quiet h head s
        dsimp only
        rw [Step.eval_bind]
        rcases looked : (a.inquire h head).eval s with ⟨_ | answer, t⟩
        all_goals
          rw [looked] at eq
          exact ⟨w, eq⟩

end Auditor

end BalanceAudit
