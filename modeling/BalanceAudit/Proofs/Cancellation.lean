import BalanceAudit.Session

/-!
# Who is canceled

- `Cancellation.isCanceled_cancel`, `Cancellation.isCanceled_abort`: a canceled
  token, and every registered one after an abort, is canceled.
- `Cancellation.Sound`: only tokens that were made are canceled, so that a fresh
  one is not: `Cancellation.isCanceled_fresh`.
- `World.Reachable`: an abort ends the run under way.
-/

namespace BalanceAudit

namespace Cancellation

variable {c : Cancellation} {t : Token}

/-- A token is canceled by itself or through one that it descends from. -/
theorem isCanceled_iff :
    c.isCanceled t = true ↔ t.id ∈ c.canceled ∨ ∃ id ∈ t.ancestors, id ∈ c.canceled := by
  unfold isCanceled
  simp

/-- Canceling a token adds that one, if it is not there yet. -/
theorem mem_cancel {id : Nat} :
    id ∈ (c.cancel t).canceled ↔ id = t.id ∨ id ∈ c.canceled := by
  unfold cancel
  by_cases before : t.id ∈ c.canceled
  · rw [if_pos (by simpa using before)]
    constructor
    · exact .inr
    · rintro (rfl | mem)
      · exact before
      · exact mem
  · rw [if_neg (by simpa using before), List.mem_cons]

theorem isCanceled_cancel (c : Cancellation) (t : Token) : (c.cancel t).isCanceled t = true :=
  isCanceled_iff.mpr (.inl (mem_cancel.mpr (.inl rfl)))

theorem aborted_cancel (c : Cancellation) (t : Token) : (c.cancel t).aborted = c.aborted := by
  unfold cancel
  split <;> rfl

theorem made_cancel (c : Cancellation) (t : Token) : (c.cancel t).made = c.made := by
  unfold cancel
  split <;> rfl

theorem registered_cancel (c : Cancellation) (t : Token) :
    (c.cancel t).registered = c.registered := by
  unfold cancel
  split <;> rfl

/-! ## Aborting

An abort cancels one registered token after the other. By induction on them: what was
canceled before stays so. -/

/-- Canceling tokens one after another adds exactly these. -/
theorem mem_foldl_cancel {ts : List Token} {id : Nat} :
    ∀ c : Cancellation, id ∈ (ts.foldl cancel c).canceled ↔
      id ∈ c.canceled ∨ ∃ t ∈ ts, t.id = id := by
  induction ts with
  | nil => simp
  | cons t rest ih =>
    intro c
    rw [List.foldl_cons, ih, mem_cancel]
    constructor
    · rintro ((rfl | mem) | ⟨t', mem, rfl⟩)
      · exact .inr ⟨t, List.mem_cons_self, rfl⟩
      · exact .inl mem
      · exact .inr ⟨t', List.mem_cons_of_mem _ mem, rfl⟩
    · rintro (mem | ⟨t', mem, rfl⟩)
      · exact .inl (.inr mem)
      · rcases List.mem_cons.mp mem with rfl | mem
        · exact .inl (.inl rfl)
        · exact .inr ⟨t', mem, rfl⟩

theorem aborted_foldl_cancel (ts : List Token) :
    ∀ c : Cancellation, (ts.foldl cancel c).aborted = c.aborted := by
  induction ts with
  | nil => intro c; rfl
  | cons t rest ih => intro c; rw [List.foldl_cons, ih, aborted_cancel]

theorem made_foldl_cancel (ts : List Token) :
    ∀ c : Cancellation, (ts.foldl cancel c).made = c.made := by
  induction ts with
  | nil => intro c; rfl
  | cons t rest ih => intro c; rw [List.foldl_cons, ih, made_cancel]

theorem registered_foldl_cancel (ts : List Token) :
    ∀ c : Cancellation, (ts.foldl cancel c).registered = c.registered := by
  induction ts with
  | nil => intro c; rfl
  | cons t rest ih => intro c; rw [List.foldl_cons, ih, registered_cancel]

theorem aborted_abort (c : Cancellation) : c.abort.aborted = true :=
  aborted_foldl_cancel _ _

/-- An abort cancels whatever is registered. -/
theorem isCanceled_abort (mem : t ∈ c.registered) : c.abort.isCanceled t = true :=
  isCanceled_iff.mpr (.inl ((mem_foldl_cancel c.raise).mpr (.inr ⟨t, mem, rfl⟩)))

/-- It takes no cancellation back. -/
theorem isCanceled_abort_of_canceled (h : c.isCanceled t = true) : c.abort.isCanceled t = true := by
  rw [isCanceled_iff] at h ⊢
  rcases h with mem | ⟨id, ancestor, mem⟩
  · exact .inl ((mem_foldl_cancel c.raise).mpr (.inl mem))
  · exact .inr ⟨id, ancestor, (mem_foldl_cancel c.raise).mpr (.inl mem)⟩

/-! ## Registering -/

/-- Registering a token is forgetting the canceled ones, and after an abort canceling
it. -/
theorem register_eq (c : Cancellation) (t : Token) :
    c.register t =
      if c.aborted then
        cancel { c with registered := c.registered.filter (!c.isCanceled ·) ++ [t] } t
      else { c with registered := c.registered.filter (!c.isCanceled ·) ++ [t] } := rfl

theorem aborted_register (c : Cancellation) (t : Token) : (c.register t).aborted = c.aborted := by
  rw [register_eq]
  split
  · exact aborted_cancel _ _
  · rfl

theorem made_register (c : Cancellation) (t : Token) : (c.register t).made = c.made := by
  rw [register_eq]
  split
  · exact made_cancel _ _
  · rfl

/-- Registering cancels a token if there was an abort before. -/
theorem mem_register {id : Nat} :
    id ∈ (c.register t).canceled ↔ id ∈ c.canceled ∨ c.aborted = true ∧ id = t.id := by
  rw [register_eq]
  split
  · next aborted =>
    rw [mem_cancel, or_comm]
    simp [aborted]
  · next running => simp [running]

/-- It drops what is canceled by now, and adds the token. -/
theorem mem_registered_register {u : Token} :
    u ∈ (c.register t).registered ↔ u ∈ c.registered ∧ c.isCanceled u = false ∨ u = t := by
  have listed : (c.register t).registered = c.registered.filter (!c.isCanceled ·) ++ [t] := by
    rw [register_eq]
    split
    · exact registered_cancel _ _
    · rfl
  rw [listed]
  simp

/-! ## Fresh tokens

A fresh token is numbered above all that were made, so nobody can have canceled it, as long
as only made tokens are canceled. -/

/-- Only tokens that were made are canceled. -/
def Sound (c : Cancellation) : Prop := ∀ id ∈ c.canceled, id < c.made

/-- A token that was made keeps the canceled ones below the next to be made. -/
theorem Sound.cancel (sound : c.Sound) (made : t.id < c.made) : (c.cancel t).Sound := by
  intro id mem
  rw [made_cancel]
  rcases mem_cancel.mp mem with rfl | mem
  · exact made
  · exact sound id mem

/-- An abort reaches every fresh token. -/
theorem fresh_registered (c : Cancellation) : c.fresh.1 ∈ c.fresh.2.registered := by
  unfold fresh create register
  dsimp only
  split
  · rw [registered_cancel]
    exact List.mem_append_right _ List.mem_cons_self
  · exact List.mem_append_right _ List.mem_cons_self

/-- Before an abort a fresh token is registered, and nothing else happens. -/
theorem fresh_of_not_aborted (running : c.aborted = false) :
    c.fresh = (⟨c.made, []⟩,
      { c with
        made := c.made + 1
        registered := (c.registered.filter fun r => !c.isCanceled r) ++ [⟨c.made, []⟩] }) := by
  unfold fresh create register
  show (_, if c.aborted then _ else _) = _
  rw [running]
  rfl

/-- Making a token leaves room for the next one. -/
theorem Sound.fresh (sound : c.Sound) (running : c.aborted = false) : c.fresh.2.Sound := by
  rw [fresh_of_not_aborted running]
  intro id mem
  exact Nat.lt_succ_of_lt (sound id mem)

/-- It has not been canceled, since the canceled ones are older. -/
theorem isCanceled_fresh (sound : c.Sound) (running : c.aborted = false) :
    c.fresh.2.isCanceled c.fresh.1 = false := by
  rw [fresh_of_not_aborted running, Bool.eq_false_iff, ne_eq, isCanceled_iff]
  rintro (mem | ⟨_, ancestor, _⟩)
  · exact absurd (sound _ mem) (Nat.lt_irrefl _)
  · cases ancestor

/-- After an abort even a fresh token is canceled. -/
theorem fresh_of_aborted (aborted : c.aborted = true) :
    c.fresh.2.isCanceled c.fresh.1 = true ∧ c.fresh.2.aborted = true := by
  have eq : ∃ d : Cancellation,
      d.aborted = true ∧ c.fresh = (⟨c.made, []⟩, d.cancel ⟨c.made, []⟩) := by
    refine ⟨⟨c.made + 1, c.canceled,
      (c.registered.filter fun r => !c.isCanceled r) ++ [⟨c.made, []⟩], true⟩, rfl, ?_⟩
    unfold fresh create register
    show (_, if c.aborted then _ else _) = _
    rw [aborted]
    rfl
  obtain ⟨d, raised, eq⟩ := eq
  rw [eq]
  exact ⟨isCanceled_cancel _ _, (aborted_cancel _ _).trans raised⟩

end Cancellation

/-! ## The run under way -/

namespace World

variable {σ : Type} {w : World σ}

/-- An abort reaches the run under way, unless it is canceled anyway. -/
def Reachable (w : World σ) : Prop :=
  w.token ∈ w.cancellation.registered ∨ w.isCanceled = true

/-- The token of a run that starts is registered, or canceled at once. -/
theorem Reachable.enter (w : World σ) : w.enter.Reachable :=
  .inl (Cancellation.fresh_registered w.cancellation)

/-- A run that enters a world where nobody aborted has a token of its own. -/
theorem enter_fresh (running : w.cancellation.aborted = false) (sound : w.cancellation.Sound) :
    w.enter.isCanceled = false ∧ w.enter.cancellation.aborted = false ∧
      w.enter.cancellation.Sound ∧ w.enter.token.id < w.enter.cancellation.made := by
  have enter : w.enter =
      { w with token := w.cancellation.fresh.1, cancellation := w.cancellation.fresh.2 } := rfl
  have fresh := Cancellation.fresh_of_not_aborted running
  refine ⟨Cancellation.isCanceled_fresh sound running, ?_, sound.fresh running, ?_⟩
  · rw [enter, fresh]
    exact running
  · rw [enter, fresh]
    exact Nat.lt_succ_self _

/-- Whatever the operator asks for ends the run. -/
theorem Reachable.obey (h : w.Reachable) (signal : Signal) :
    (w.obey signal).Reachable ∧ (w.obey signal).isCanceled = true := by
  have quit : (w.obey signal).isCanceled = true := by
    cases signal with
    | abort =>
      rcases h with mem | quit
      · exact Cancellation.isCanceled_abort mem
      · exact Cancellation.isCanceled_abort_of_canceled quit
    | cancel => exact Cancellation.isCanceled_cancel _ _
  exact ⟨.inr quit, quit⟩

end World

end BalanceAudit
