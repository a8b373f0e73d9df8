import BalanceAudit.Proofs.Cancellation
import Mathlib.Logic.Relation

/-!
# Whom an abort reaches

Tokens are made, registered and canceled in any order, and an abort raises its flag
some time before it cancels what is registered, so that others may register in
between.

- `Cancellation.Act`, `Cancellation.History`: what happens to the tokens, one act
  after another; `History.fresh` for the two that make a token known.
- `Cancellation.Descends`, `Cancellation.Struck`: lineage and causes, read off the
  acts alone.
- `Cancellation.Tells`: what the registry knows of the acts, kept by each of them:
  `History.tells`.
- `Cancellation.abort_reaches`: **a token is canceled iff it or an ancestor was
  canceled directly, or was registered and there was an abort**, before or after.
-/

namespace BalanceAudit

namespace Cancellation

/-! ## Histories -/

/-- What happens to tokens. An abort is two acts. -/
inductive Act where
  | created (t : Token)
  | derived (t parent : Token)
  | registered (t : Token)
  | canceled (t : Token)
  /-- An abort begins: its flag is raised. -/
  | raised
  /-- An abort ends: it has canceled what is registered. -/
  | swept
  deriving DecidableEq

/-- What happened, the latest act first, the tokens there are, and what is known about
them. Whoever registers a token or sweeps holds the lock on the registered tokens, which
makes these single acts; the flag is raised without it. -/
inductive History : List Act → List Token → Cancellation → Prop where
  | start : History [] [] {}
  | create {acts : List Act} {ts : List Token} {c : Cancellation} (h : History acts ts c) :
      History (.created c.create.1 :: acts) (c.create.1 :: ts) c.create.2
  | derive {acts : List Act} {ts : List Token} {c : Cancellation} {p : Token}
      (h : History acts ts c) (known : p ∈ ts) :
      History (.derived (c.child p).1 p :: acts) ((c.child p).1 :: ts) (c.child p).2
  | register {acts : List Act} {ts : List Token} {c : Cancellation} {t : Token}
      (h : History acts ts c) (known : t ∈ ts) :
      History (.registered t :: acts) ts (c.register t)
  | cancel {acts : List Act} {ts : List Token} {c : Cancellation} {t : Token}
      (h : History acts ts c) (known : t ∈ ts) : History (.canceled t :: acts) ts (c.cancel t)
  | raise {acts : List Act} {ts : List Token} {c : Cancellation} (h : History acts ts c) :
      History (.raised :: acts) ts c.raise
  /-- Only an abort that has begun sweeps. -/
  | sweep {acts : List Act} {ts : List Token} {c : Cancellation} (h : History acts ts c)
      (begun : acts.count .swept < acts.count .raised) :
      History (.swept :: acts) ts c.sweep

/-- Every abort that has begun has ended. -/
def Settled (acts : List Act) : Prop := acts.count .swept = acts.count .raised

instance (acts : List Act) : Decidable (Settled acts) := inferInstanceAs (Decidable (_ = _))

/-- `a` is `t` or an ancestor of it. -/
def Descends (acts : List Act) : Token → Token → Prop :=
  Relation.ReflTransGen fun t a => .derived t a ∈ acts

/-- A token has a cause of its own to be canceled. -/
def Struck (acts : List Act) (a : Token) : Prop :=
  .canceled a ∈ acts ∨ .registered a ∈ acts ∧ .raised ∈ acts

variable {acts : List Act} {ts : List Token} {c d : Cancellation} {t u a : Token} {e : Act}

/-- A fresh token is created and registered. -/
theorem History.fresh (h : History acts ts c) :
    History (.registered c.fresh.1 :: .created c.fresh.1 :: acts) (c.fresh.1 :: ts) c.fresh.2 :=
  h.create.register List.mem_cons_self

theorem Struck.mono (struck : Struck acts a) : Struck (e :: acts) a := by
  rcases struck with direct | ⟨registered, raised⟩
  · exact .inl (List.mem_cons_of_mem _ direct)
  · exact .inr ⟨List.mem_cons_of_mem _ registered, List.mem_cons_of_mem _ raised⟩

/-! ## Lineage

Which tokens descend from a token changes when one is derived, and then only for the new
one. -/

/-- Acts that derive nothing leave the lineage alone. -/
theorem descends_cons (other : ∀ t p, e ≠ .derived t p) :
    Descends (e :: acts) t a ↔ Descends acts t a := by
  have same : (fun t a => Act.derived t a ∈ e :: acts) = fun t a => Act.derived t a ∈ acts := by
    funext t a
    rw [List.mem_cons, eq_iff_iff]
    constructor
    · rintro (rfl | mem)
      · exact absurd rfl (other t a)
      · exact mem
    · exact .inr
  rw [Descends, same, Descends]

/-- A token that is derived now is nobody's ancestor yet. -/
theorem descends_derive_of_ne {p : Token} (unused : ∀ u, .derived u t ∉ acts) (ne : u ≠ t) :
    Descends (.derived t p :: acts) u a ↔ Descends acts u a := by
  constructor
  · intro lineage
    -- Along the way from `u` the new token is never met.
    have gen : Descends acts u a ∧ a ≠ t := by
      induction lineage with
      | refl => exact ⟨.refl, ne⟩
      | tail _ edge ih =>
        obtain ⟨before, other⟩ := ih
        rcases List.mem_cons.mp edge with eq | edge
        · cases eq
          exact absurd rfl other
        · exact ⟨before.tail edge, fun same => unused _ (same ▸ edge)⟩
    exact gen.1
  · intro lineage
    exact Relation.ReflTransGen.mono (fun _ _ edge => List.mem_cons_of_mem _ edge) _ _ lineage

/-- It descends from itself and from what its parent descends from. -/
theorem descends_derive_self {p : Token} (new : ∀ p, .derived t p ∉ acts)
    (unused : ∀ u, .derived u t ∉ acts) (ne : p ≠ t) :
    Descends (.derived t p :: acts) t a ↔ a = t ∨ Descends acts p a := by
  rw [← descends_derive_of_ne (p := p) unused ne, Descends,
    Relation.ReflTransGen.cases_head_iff]
  constructor
  · rintro (same | ⟨q, edge, rest⟩)
    · exact .inl same.symm
    · rcases List.mem_cons.mp edge with eq | edge
      · cases eq
        exact .inr rest
      · exact absurd edge (new q)
  · rintro (same | rest)
    · exact .inl same.symm
    · exact .inr ⟨p, List.mem_cons_self, rest⟩

/-! ## What the registry knows

The registry is a summary of the acts. Lineage stands in the tokens, and causes stand in
nothing but the acts. -/

/-- What is known about the tokens, in terms of what happened. Pruning only forgets
what is canceled (`kept`), and the first sweep leaves nothing registered alive
(`swept`), since whoever registers after it meets the flag. -/
structure Tells (acts : List Act) (ts : List Token) (c : Cancellation) : Prop where
  aborted : c.aborted = true ↔ .raised ∈ acts
  made : ∀ t ∈ ts, t.id < c.made
  distinct : ∀ t ∈ ts, ∀ u ∈ ts, t.id = u.id → t = u
  derived : ∀ t p, .derived t p ∈ acts → t ∈ ts ∧ p ∈ ts
  known : ∀ t, .registered t ∈ acts → t ∈ ts
  lineage : ∀ t ∈ ts, ∀ id, id ∈ t.id :: t.ancestors ↔ ∃ a, Descends acts t a ∧ a.id = id
  caused : ∀ id ∈ c.canceled, ∃ a ∈ ts, a.id = id ∧ Struck acts a
  direct : ∀ t, .canceled t ∈ acts → t.id ∈ c.canceled
  listed : ∀ t ∈ c.registered, .registered t ∈ acts
  kept : ∀ t, .registered t ∈ acts → t ∈ c.registered ∨ c.isCanceled t = true
  swept : .swept ∈ acts → .raised ∈ acts ∧ ∀ t, .registered t ∈ acts → c.isCanceled t = true

theorem isCanceled_mono (more : ∀ id ∈ c.canceled, id ∈ d.canceled)
    (canceled : c.isCanceled t = true) : d.isCanceled t = true := by
  rw [isCanceled_iff] at canceled ⊢
  rcases canceled with mem | ⟨id, ancestor, mem⟩
  · exact .inl (more _ mem)
  · exact .inr ⟨id, ancestor, more _ mem⟩

/-- Through the lineage a token is canceled with an ancestor. -/
theorem Tells.isCanceled_iff_exists (tells : Tells acts ts c) (mem : t ∈ ts) :
    c.isCanceled t = true ↔ ∃ a, Descends acts t a ∧ a.id ∈ c.canceled := by
  have lineage := tells.lineage t mem
  have any : c.isCanceled t = true ↔ ∃ id ∈ t.id :: t.ancestors, id ∈ c.canceled := by
    unfold isCanceled
    simp only [List.any_eq_true, List.contains_iff_mem]
  rw [any]
  constructor
  · rintro ⟨id, ancestor, canceled⟩
    obtain ⟨a, descends, rfl⟩ := (lineage id).mp ancestor
    exact ⟨a, descends, canceled⟩
  · rintro ⟨a, descends, canceled⟩
    exact ⟨a.id, (lineage a.id).mpr ⟨a, descends, rfl⟩, canceled⟩

/-- Ancestors of a token that was made were made. -/
theorem Tells.mem_of_descends (tells : Tells acts ts c) (mem : t ∈ ts)
    (descends : Descends acts t a) : a ∈ ts := by
  induction descends with
  | refl => exact mem
  | tail _ edge _ => exact (tells.derived _ _ edge).2

/-- Nothing that was done names a token with the next number. -/
theorem Tells.unmade (tells : Tells acts ts c) (new : t.id = c.made) :
    t ∉ ts ∧ (∀ p, .derived t p ∉ acts) ∧ (∀ u, .derived u t ∉ acts) ∧ .registered t ∉ acts := by
  have absent : t ∉ ts := fun mem => absurd (tells.made t mem) (by omega)
  refine ⟨absent, fun p edge => ?_, fun u edge => ?_, fun registered => ?_⟩
  · exact absent (tells.derived _ _ edge).1
  · exact absent (tells.derived _ _ edge).2
  · exact absent (tells.known t registered)

theorem Tells.start : Tells [] [] {} where
  aborted := by simp
  made := nofun
  distinct := nofun
  derived := nofun
  known := nofun
  lineage := nofun
  caused := nofun
  direct := nofun
  listed := nofun
  kept := nofun
  swept := nofun

/-! ## One act

An act makes a token or works on those there are. Each of the two kinds has one lemma, and
the acts are its cases. -/

namespace Tells

/-- One more token, with a lineage that is known. -/
theorem make (tells : Tells acts ts c) (new : t.id = c.made)
    (act : e = .created t ∨ ∃ p ∈ ts, e = .derived t p)
    (lineage : ∀ id, id ∈ t.id :: t.ancestors ↔ ∃ a, Descends (e :: acts) t a ∧ a.id = id) :
    Tells (e :: acts) (t :: ts) { c with made := c.made + 1 } := by
  obtain ⟨absent, unnamed, unused, _⟩ := tells.unmade new
  have older : ∀ f ∈ e :: acts, f = e ∨ f ∈ acts := fun f mem => List.mem_cons.mp mem
  -- The facts about other acts than the making of tokens are those from before.
  have plain : ∀ f, (∀ t p, f ≠ .derived t p) → (∀ t, f ≠ .created t) → f ∈ e :: acts →
      f ∈ acts := by
    intro f notDerived notCreated mem
    rcases older f mem with rfl | mem
    · rcases act with eq | ⟨p, _, eq⟩
      · exact absurd eq (notCreated t)
      · exact absurd eq (notDerived t p)
    · exact mem
  refine ⟨?_, ?_, ?_, ?_, ?_, ?_, ?_, ?_, ?_, ?_, ?_⟩
  · show c.aborted = true ↔ _
    rw [tells.aborted]
    exact ⟨List.mem_cons_of_mem _, plain _ nofun nofun⟩
  · rintro u (_ | ⟨_, mem⟩)
    · exact new ▸ Nat.lt_succ_self _
    · exact Nat.lt_succ_of_lt (tells.made u mem)
  -- Numbers are given out once, each below the next.
  · rintro u (_ | ⟨_, mem⟩) v (_ | ⟨_, mem'⟩) same
    · rfl
    · exact absurd (tells.made v mem') (by omega)
    · exact absurd (tells.made u mem) (by omega)
    · exact tells.distinct u mem v mem' same
  · intro u p mem
    rcases older _ mem with rfl | mem
    · rcases act with eq | ⟨q, known, eq⟩
      · cases eq
      · cases eq
        exact ⟨List.mem_cons_self, List.mem_cons_of_mem _ known⟩
    · obtain ⟨child, parent⟩ := tells.derived u p mem
      exact ⟨List.mem_cons_of_mem _ child, List.mem_cons_of_mem _ parent⟩
  · exact fun u mem => List.mem_cons_of_mem _ (tells.known u (plain _ nofun nofun mem))
  · rintro u (_ | ⟨_, mem⟩) id
    · exact lineage id
    · have ne : u ≠ t := fun same => absent (same ▸ mem)
      rw [tells.lineage u mem id]
      rcases act with rfl | ⟨p, _, rfl⟩
      · simp only [descends_cons (e := .created t) nofun]
      · simp only [descends_derive_of_ne unused ne]
  · intro id mem
    obtain ⟨a, made, rfl, struck⟩ := tells.caused id mem
    exact ⟨a, List.mem_cons_of_mem _ made, rfl, struck.mono⟩
  · exact fun u mem => tells.direct u (plain _ nofun nofun mem)
  · exact fun u mem => List.mem_cons_of_mem _ (tells.listed u mem)
  · exact fun u mem => tells.kept u (plain _ nofun nofun mem)
  · intro mem
    obtain ⟨raised, all⟩ := tells.swept (plain _ nofun nofun mem)
    exact ⟨List.mem_cons_of_mem _ raised, fun u mem => all u (plain _ nofun nofun mem)⟩

theorem create (tells : Tells acts ts c) :
    Tells (.created c.create.1 :: acts) (c.create.1 :: ts) c.create.2 := by
  refine tells.make rfl (.inl rfl) fun id => ?_
  have alone : ∀ a, Descends (.created c.create.1 :: acts) c.create.1 a ↔ a = c.create.1 := by
    intro a
    rw [descends_cons (by simp)]
    constructor
    · intro descends
      rcases Relation.ReflTransGen.cases_head descends with same | ⟨p, edge, _⟩
      · exact same.symm
      · exact absurd edge ((tells.unmade rfl).2.1 p)
    · rintro rfl
      exact .refl
  simp only [alone, exists_eq_left]
  show id ∈ [c.made] ↔ c.made = id
  rw [List.mem_singleton, eq_comm]

theorem derive {p : Token} (tells : Tells acts ts c) (known : p ∈ ts) :
    Tells (.derived (c.child p).1 p :: acts) ((c.child p).1 :: ts) (c.child p).2 := by
  refine tells.make rfl (.inr ⟨p, known, rfl⟩) fun id => ?_
  obtain ⟨absent, unnamed, unused, _⟩ := tells.unmade (t := (c.child p).1) rfl
  have ne : p ≠ (c.child p).1 := fun same => absent (same ▸ known)
  show id ∈ c.made :: (p.id :: p.ancestors) ↔ _
  rw [List.mem_cons, tells.lineage p known id]
  simp only [descends_derive_self unnamed unused ne]
  constructor
  · rintro (rfl | ⟨a, descends, rfl⟩)
    · exact ⟨_, .inl rfl, rfl⟩
    · exact ⟨a, .inr descends, rfl⟩
  · rintro ⟨a, rfl | descends, rfl⟩
    · exact .inl rfl
    · exact .inr ⟨a, descends, rfl⟩

/-- An act on the tokens there are. What it cancels has a cause, and what it forgets is
canceled. -/
theorem act (tells : Tells acts ts c) (other : ∀ t p, e ≠ .derived t p)
    (made : d.made = c.made) (aborted : d.aborted = true ↔ .raised ∈ e :: acts)
    (known : ∀ t, e = .registered t → t ∈ ts) (more : ∀ id ∈ c.canceled, id ∈ d.canceled)
    (caused : ∀ id ∈ d.canceled, id ∈ c.canceled ∨ ∃ a ∈ ts, a.id = id ∧ Struck (e :: acts) a)
    (direct : ∀ t, e = .canceled t → t.id ∈ d.canceled)
    (listed : ∀ t ∈ d.registered, t ∈ c.registered ∨ e = .registered t)
    (kept : ∀ t ∈ c.registered, t ∈ d.registered ∨ c.isCanceled t = true)
    (enters : ∀ t, e = .registered t →
      t ∈ d.registered ∧ (c.aborted = true → d.isCanceled t = true))
    (sweeps : e = .swept → c.aborted = true ∧ ∀ t ∈ c.registered, d.isCanceled t = true) :
    Tells (e :: acts) ts d := by
  -- Cancellations are for good, so that what was canceled before stays it.
  have grown : ∀ {t}, c.isCanceled t = true → d.isCanceled t = true := isCanceled_mono more
  refine ⟨aborted, ?_, tells.distinct, ?_, ?_, ?_, ?_, ?_, ?_, ?_, ?_⟩
  · rw [made]
    exact tells.made
  · intro t p mem
    rcases List.mem_cons.mp mem with eq | mem
    · exact absurd eq.symm (other t p)
    · exact tells.derived t p mem
  · intro t mem
    rcases List.mem_cons.mp mem with eq | mem
    · exact known t eq.symm
    · exact tells.known t mem
  · intro t mem id
    simp only [descends_cons other]
    exact tells.lineage t mem id
  · intro id mem
    rcases caused id mem with mem | found
    · obtain ⟨a, made, rfl, struck⟩ := tells.caused id mem
      exact ⟨a, made, rfl, struck.mono⟩
    · exact found
  · intro t mem
    rcases List.mem_cons.mp mem with eq | mem
    · exact direct t eq.symm
    · exact more _ (tells.direct t mem)
  · intro t mem
    rcases listed t mem with mem | eq
    · exact List.mem_cons_of_mem _ (tells.listed t mem)
    · rw [eq]
      exact List.mem_cons_self
  · intro t mem
    rcases List.mem_cons.mp mem with eq | mem
    · exact .inl (enters t eq.symm).1
    · rcases tells.kept t mem with mem | canceled
      · exact (kept t mem).imp_right grown
      · exact .inr (grown canceled)
  · intro mem
    -- A sweep cancels what is listed; after one, whoever registers meets the flag.
    rcases List.mem_cons.mp mem with eq | mem
    · obtain ⟨raised, all⟩ := sweeps eq.symm
      refine ⟨List.mem_cons_of_mem _ (tells.aborted.mp raised), fun t mem => ?_⟩
      rcases List.mem_cons.mp mem with eq' | mem
      · exact absurd (eq.trans eq'.symm) nofun
      · exact (tells.kept t mem).elim (all t) grown
    · obtain ⟨raised, all⟩ := tells.swept mem
      refine ⟨List.mem_cons_of_mem _ raised, fun t mem => ?_⟩
      rcases List.mem_cons.mp mem with eq | mem
      · exact (enters t eq.symm).2 (tells.aborted.mpr raised)
      · exact grown (all t mem)

theorem cancel (tells : Tells acts ts c) (known : t ∈ ts) :
    Tells (.canceled t :: acts) ts (c.cancel t) := by
  refine tells.act nofun (made_cancel c t) ?_ nofun (fun id mem => mem_cancel.mpr (.inr mem))
    ?_ ?_ ?_ ?_ nofun nofun
  · rw [aborted_cancel, tells.aborted]
    simp
  · intro id mem
    rcases mem_cancel.mp mem with rfl | mem
    · exact .inr ⟨t, known, rfl, .inl List.mem_cons_self⟩
    · exact .inl mem
  · rintro u ⟨⟩
    exact mem_cancel.mpr (.inl rfl)
  · rw [registered_cancel]
    exact fun u mem => .inl mem
  · rw [registered_cancel]
    exact fun u mem => .inl mem

theorem raise (tells : Tells acts ts c) : Tells (.raised :: acts) ts c.raise :=
  tells.act nofun rfl (by simp [Cancellation.raise]) nofun (fun _ mem => mem)
    (fun _ mem => .inl mem) nofun (fun _ mem => .inl mem) (fun _ mem => .inl mem) nofun nofun

theorem sweep (tells : Tells acts ts c) (begun : .raised ∈ acts) :
    Tells (.swept :: acts) ts c.sweep := by
  have canceled : ∀ id, id ∈ c.sweep.canceled ↔ id ∈ c.canceled ∨ ∃ t ∈ c.registered, t.id = id :=
    fun id => mem_foldl_cancel c
  have same : c.sweep.registered = c.registered := registered_foldl_cancel c.registered c
  refine tells.act nofun (made_foldl_cancel c.registered c) ?_ nofun
    (fun id mem => (canceled id).mpr (.inl mem)) ?_ nofun ?_ ?_ nofun ?_
  · rw [Cancellation.sweep, aborted_foldl_cancel, tells.aborted]
    simp
  · intro id mem
    rcases (canceled id).mp mem with mem | ⟨t, listed, rfl⟩
    · exact .inl mem
    · have registered := tells.listed t listed
      exact .inr ⟨t, tells.known t registered, rfl, Struck.mono (.inr ⟨registered, begun⟩)⟩
  · rw [same]
    exact fun t mem => .inl mem
  · rw [same]
    exact fun t mem => .inl mem
  · intro _
    refine ⟨tells.aborted.mpr begun, fun t mem => ?_⟩
    exact isCanceled_iff.mpr (.inl ((canceled _).mpr (.inr ⟨t, mem, rfl⟩)))

theorem register (tells : Tells acts ts c) (known : t ∈ ts) :
    Tells (.registered t :: acts) ts (c.register t) := by
  have canceled : ∀ id, id ∈ (c.register t).canceled ↔
      id ∈ c.canceled ∨ c.aborted = true ∧ id = t.id := fun id => mem_register
  -- Nobody but who is canceled is forgotten.
  have listed : ∀ u, u ∈ (c.register t).registered ↔
      u ∈ c.registered ∧ c.isCanceled u = false ∨ u = t := fun u => mem_registered_register
  refine tells.act nofun (made_register c t) ?_ ?_ (fun id mem => (canceled id).mpr (.inl mem))
    ?_ nofun ?_ ?_ ?_ nofun
  · rw [aborted_register, tells.aborted]
    simp
  · rintro u ⟨⟩
    exact known
  · intro id mem
    rcases (canceled id).mp mem with mem | ⟨aborted, rfl⟩
    · exact .inl mem
    · refine .inr ⟨t, known, rfl, .inr ⟨List.mem_cons_self, ?_⟩⟩
      exact List.mem_cons_of_mem _ (tells.aborted.mp aborted)
  · intro u mem
    rcases (listed u).mp mem with ⟨mem, _⟩ | rfl
    · exact .inl mem
    · exact .inr rfl
  -- What the pruning forgets was canceled.
  · intro u mem
    cases pruned : c.isCanceled u with
    | true => exact .inr rfl
    | false => exact .inl ((listed u).mpr (.inl ⟨mem, pruned⟩))
  · rintro u ⟨⟩
    refine ⟨(listed t).mpr (.inr rfl), fun aborted => ?_⟩
    exact isCanceled_iff.mpr (.inl ((canceled _).mpr (.inr ⟨aborted, rfl⟩)))

end Tells

/-- The registry knows what happened. The induction is on the acts. -/
theorem History.tells (history : History acts ts c) : Tells acts ts c := by
  induction history with
  | start => exact .start
  | create _ ih => exact ih.create
  | derive _ known ih => exact ih.derive known
  | register _ known ih => exact ih.register known
  | cancel _ known ih => exact ih.cancel known
  | raise _ ih => exact ih.raise
  | sweep _ begun ih => exact ih.sweep (List.count_pos_iff.mp (Nat.zero_lt_of_lt begun))

/-! ## The theorem

From the summary of the whole history: canceled is what was struck. -/

/-- Canceling a token concerns its descendants only. -/
theorem Tells.isCanceled_cancel_of_not_descends (tells : Tells acts ts c) (known : t ∈ ts)
    (mem : u ∈ ts) (apart : ¬Descends acts u t) :
    (c.cancel t).isCanceled u = c.isCanceled u := by
  have after : (c.cancel t).isCanceled u = true ↔
      ∃ a, Descends acts u a ∧ a.id ∈ (c.cancel t).canceled := by
    rw [(tells.cancel known).isCanceled_iff_exists mem]
    simp only [descends_cons (e := .canceled t) nofun]
  rw [Bool.eq_iff_iff, after, tells.isCanceled_iff_exists mem]
  constructor
  · rintro ⟨a, descends, canceled⟩
    rcases mem_cancel.mp canceled with same | canceled
    · have eq := tells.distinct a (tells.mem_of_descends mem descends) t known same
      exact absurd (eq ▸ descends) apart
    · exact ⟨a, descends, canceled⟩
  · rintro ⟨a, descends, canceled⟩
    exact ⟨a, descends, mem_cancel.mpr (.inr canceled)⟩

/-- **An abort reaches exactly the registered tokens and their descendants.** Once every
abort has ended, a token is canceled iff it or an ancestor was canceled directly, or was
registered and there was an abort, in whatever order. At every moment the flag tells
whether there was one, an abort would reach whatever was registered, pruned or not, and
canceling a token concerns its descendants only. -/
theorem abort_reaches (history : History acts ts c) :
    (c.aborted = true ↔ .raised ∈ acts) ∧
    (Settled acts → ∀ t ∈ ts,
      (c.isCanceled t = true ↔ ∃ a, Descends acts t a ∧ Struck acts a)) ∧
    (∀ t, .registered t ∈ acts → c.abort.isCanceled t = true) ∧
    (∀ t ∈ ts, ∀ u ∈ ts, ¬Descends acts u t → (c.cancel t).isCanceled u = c.isCanceled u) := by
  have tells := history.tells
  refine ⟨tells.aborted, fun settled t mem => ?_, fun t registered => ?_,
    fun t known u mem => tells.isCanceled_cancel_of_not_descends known mem⟩
  · constructor
    · intro canceled
      obtain ⟨a, descends, direct⟩ := (tells.isCanceled_iff_exists mem).mp canceled
      obtain ⟨b, made, same, struck⟩ := tells.caused a.id direct
      rw [tells.distinct b made a (tells.mem_of_descends mem descends) same] at struck
      exact ⟨a, descends, struck⟩
    -- Since every abort has ended, one that began has swept.
    · rintro ⟨a, descends, direct | ⟨registered, raised⟩⟩
      · exact (tells.isCanceled_iff_exists mem).mpr ⟨a, descends, tells.direct a direct⟩
      · have swept : .swept ∈ acts := by
          rw [← List.count_pos_iff, settled]
          exact List.count_pos_iff.mpr raised
        have canceled := (tells.swept swept).2 a registered
        obtain ⟨b, above, direct⟩ :=
          (tells.isCanceled_iff_exists (tells.mem_of_descends mem descends)).mp canceled
        exact (tells.isCanceled_iff_exists mem).mpr ⟨b, descends.trans above, direct⟩
  -- A token that was pruned needs no abort any more.
  · rcases tells.kept t registered with mem | canceled
    · exact isCanceled_abort mem
    · exact isCanceled_abort_of_canceled canceled

/-- A token that is registered between the two acts of an abort, which forgets one that
was canceled before, and a child that is registered without its parent. -/
theorem abort_reaches_between :
    let first : Token := ⟨0, []⟩
    let parent : Token := ⟨1, []⟩
    let child : Token := ⟨2, [1]⟩
    let late : Token := ⟨3, []⟩
    let acts : List Act := [.swept, .registered late, .created late, .raised, .canceled first,
      .registered child, .derived child parent, .created parent, .registered first,
      .created first]
    let c : Cancellation := ⟨4, [2, 3, 0], [child, late], true⟩
    History acts [late, child, parent, first] c ∧ Settled acts ∧
      (c.isCanceled late = true ↔ ∃ a, Descends acts late a ∧ Struck acts a) ∧
      c.isCanceled late = true ∧
      (c.isCanceled parent = true ↔ ∃ a, Descends acts parent a ∧ Struck acts a) ∧
      c.isCanceled parent = false := by
  intro first parent child late acts c
  have history : History acts [late, child, parent, first] c :=
    .sweep (.fresh (.raise (.cancel (t := first) (.register (t := child) (.derive (p := parent)
      (.create (.fresh .start)) (by decide)) (by decide)) (by decide)))) (by decide)
  have settled : Settled acts := by decide
  have reached := (abort_reaches history).2.1 settled
  exact ⟨history, settled, reached late (by decide), by decide, reached parent (by decide),
    by decide⟩

end Cancellation

end BalanceAudit
