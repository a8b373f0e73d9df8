import BalanceAudit.Step

/-!
# Where steps end

A step is described by what holds of its value and its state when it finishes
and of the cause and the state when it stops.

- `Step.Ends x s Q E`: run from `s`, the step finishes in `Q` or stops in `E`.
- `Step.Ends.mono`, `Step.Ends.and`: weaker conditions, and two descriptions at once.
- `Step.Ends.self`, `Step.Ends.of_ok`, `Step.Ends.of_error`: from a description to the
  outcome and back.
- `Step.ends_bind` and the lemmas beside it: one for each way of making steps.
- `Step.StopsWith`: the causes for which a step stops.
- `Step.Ends.mapM`: a step for every member of a list.
-/

namespace BalanceAudit

namespace Step

variable {S ε ε' α β : Type}

/-- Run from `s`, the step finishes with a value and in a state for which `Q`
holds, or stops for a cause and in a state for which `E` holds. -/
def Ends (x : Step S ε α) (s : S) (Q : α → S → Prop) (E : Stop ε → S → Prop) : Prop :=
  match x.eval s with
  | (.ok a, t) => Q a t
  | (.error stop, t) => E stop t

variable {x : Step S ε α} {f : α → Step S ε β} {s t : S}

/-- A step whose result is known ends as that one does. -/
theorem ends_of_ok {Q : α → S → Prop} {E : Stop ε → S → Prop} {a : α}
    (eq : x.eval s = (.ok a, t)) (h : Q a t) : x.Ends s Q E := by
  unfold Ends
  rw [eq]
  exact h

/-- A step that never stops there finishes. -/
theorem Ends.exists_ok {Q : α → S → Prop} (h : x.Ends s Q (fun _ _ => False)) :
    ∃ a t, x.eval s = (.ok a, t) ∧ Q a t := by
  unfold Ends at h
  rcases eq : x.eval s with ⟨_ | a, t⟩
  · rw [eq] at h
    exact h.elim
  · rw [eq] at h
    exact ⟨a, t, rfl, h⟩

/-- What it ends with may be said more weakly. -/
theorem Ends.mono {Q Q' : α → S → Prop} {E E' : Stop ε → S → Prop} (h : x.Ends s Q E)
    (ok : ∀ a t, Q a t → Q' a t) (error : ∀ stop t, E stop t → E' stop t) : x.Ends s Q' E' := by
  unfold Ends at h ⊢
  rcases eq : x.eval s with ⟨stop | a, t⟩
  · rw [eq] at h
    exact error stop t h
  · rw [eq] at h
    exact ok a t h

/-- Two descriptions of the same end hold together. -/
theorem Ends.and {Q Q' : α → S → Prop} {E E' : Stop ε → S → Prop} (h : x.Ends s Q E)
    (h' : x.Ends s Q' E') :
    x.Ends s (fun a t => Q a t ∧ Q' a t) (fun stop t => E stop t ∧ E' stop t) := by
  unfold Ends at h h' ⊢
  rcases eq : x.eval s with ⟨stop | a, t⟩
  all_goals
    rw [eq] at h h'
    exact ⟨h, h'⟩

/-- Every step ends where it does. -/
theorem Ends.self (x : Step S ε α) (s : S) :
    x.Ends s (fun a t => x.eval s = (.ok a, t)) (fun stop t => x.eval s = (.error stop, t)) := by
  unfold Ends
  rcases eq : x.eval s with ⟨_ | a, t⟩ <;> rfl

/-- Nothing is said of how it ends. -/
theorem Ends.any (x : Step S ε α) (s : S) : x.Ends s (fun _ _ => True) (fun _ _ => True) :=
  (Ends.self x s).mono (fun _ _ _ => trivial) fun _ _ _ => trivial

/-- Of a step that finished, what was said for that case holds. -/
theorem Ends.of_ok {Q : α → S → Prop} {E : Stop ε → S → Prop} (h : x.Ends s Q E) {a : α}
    (eq : x.eval s = (.ok a, t)) : Q a t := by
  unfold Ends at h
  rwa [eq] at h

/-- Of one that stopped, what was said for the other case. -/
theorem Ends.of_error {Q : α → S → Prop} {E : Stop ε → S → Prop} (h : x.Ends s Q E)
    {stop : Stop ε} (eq : x.eval s = (.error stop, t)) : E stop t := by
  unfold Ends at h
  rwa [eq] at h

/-- A step whose every end is `o` comes to `o`. -/
theorem Ends.eval_eq {o : Except (Stop ε) α × S}
    (h : x.Ends s (fun a t => (.ok a, t) = o) (fun stop t => (.error stop, t) = o)) :
    x.eval s = o := by
  unfold Ends at h
  rcases eq : x.eval s with ⟨_ | _, t⟩
  all_goals
    rw [eq] at h
    exact h

/-- The same for a step whose outcome goes by one name. -/
theorem Ends.outcome {Q : α → S → Prop} {E : Stop ε → S → Prop} (h : x.Ends s Q E)
    {r : Except (Stop ε) α} (eq : x.eval s = (r, t)) :
    (∃ v, r = .ok v ∧ Q v t) ∨ ∃ stop, r = .error stop ∧ E stop t := by
  cases r with
  | ok v => exact .inl ⟨v, rfl, h.of_ok eq⟩
  | error stop => exact .inr ⟨stop, rfl, h.of_error eq⟩

/-! ## Ways of making steps

One rule for each, so that what a step ends with is found by following its text. -/

@[simp] theorem ends_pure {Q : α → S → Prop} {E : Stop ε → S → Prop} (a : α) :
    (pure a : Step S ε α).Ends s Q E ↔ Q a s := Iff.rfl

@[simp] theorem ends_throw {Q : α → S → Prop} {E : Stop ε → S → Prop} (stop : Stop ε) :
    (throw stop : Step S ε α).Ends s Q E ↔ E stop s := Iff.rfl

@[simp] theorem ends_fail {Q : α → S → Prop} {E : Stop ε → S → Prop} (cause : ε) :
    (fail cause : Step S ε α).Ends s Q E ↔ E (.failed cause) s := Iff.rfl

@[simp] theorem ends_idle {Q : α → S → Prop} {E : Stop ε → S → Prop} :
    (idle : Step S ε α).Ends s Q E ↔ E .idle s := Iff.rfl

@[simp] theorem ends_ofExcept_ok {Q : α → S → Prop} {E : Stop ε' → S → Prop} (f : ε → ε') (a : α) :
    (ofExcept f (.ok a) : Step S ε' α).Ends s Q E ↔ Q a s := Iff.rfl

@[simp] theorem ends_get {Q : S → S → Prop} {E : Stop ε → S → Prop} :
    (get : Step S ε S).Ends s Q E ↔ Q s s := Iff.rfl

@[simp] theorem ends_set {Q : PUnit → S → Prop} {E : Stop ε → S → Prop} :
    (set t : Step S ε PUnit).Ends s Q E ↔ Q ⟨⟩ t := Iff.rfl

@[simp] theorem ends_modify {Q : PUnit → S → Prop} {E : Stop ε → S → Prop} (f : S → S) :
    (modify f : Step S ε PUnit).Ends s Q E ↔ Q ⟨⟩ (f s) := Iff.rfl

/-- A result inside its limits goes on, any other overflows. -/
theorem ends_within {Q : α → S → Prop} {E : Stop ε → S → Prop} {what : Overflow}
    {r : Option α} :
    (within what r : Step S ε α).Ends s Q E ↔
      (∀ a, r = some a → Q a s) ∧ (r = none → E (.overflow what) s) := by
  cases r with
  | none => exact ⟨fun h => ⟨nofun, fun _ => h⟩, fun h => h.2 rfl⟩
  | some a => exact ⟨fun h => ⟨fun _ same => Option.some.inj same ▸ h, nofun⟩, fun h => h.1 a rfl⟩

/-- The second step starts where the first one finished. -/
@[simp] theorem ends_bind {Q : β → S → Prop} {E : Stop ε → S → Prop} :
    (x >>= f).Ends s Q E ↔ x.Ends s (fun a t => (f a).Ends t Q E) E := by
  unfold Ends
  rw [eval_bind]
  rcases x.eval s with ⟨_ | _, t⟩ <;> exact Iff.rfl

@[simp] theorem ends_attempt {Q : Except (Stop ε) α → S → Prop} {E : Stop ε' → S → Prop} :
    (attempt x : Step S ε' _).Ends s Q E ↔
      x.Ends s (fun a => Q (.ok a)) (fun stop => Q (.error stop)) := by
  unfold Ends
  rw [eval_attempt]
  rcases x.eval s with ⟨_ | _, t⟩ <;> exact Iff.rfl

@[simp] theorem ends_mapError {Q : α → S → Prop} {E : Stop ε' → S → Prop} (f : ε → ε') :
    (mapError f x).Ends s Q E ↔ x.Ends s Q (fun stop => E (stop.map f)) := by
  unfold Ends
  rw [eval_mapError]
  rcases x.eval s with ⟨_ | _, t⟩ <;> exact Iff.rfl

/-! ## Causes

Which causes a step can stop with, again one rule for each way of making steps. -/

/-- Whenever the step stops, it is for a cause of which `p` holds. -/
def StopsWith (p : Stop ε → Prop) (x : Step S ε α) : Prop :=
  ∀ s, x.Ends s (fun _ _ => True) (fun stop _ => p stop)

namespace StopsWith

variable {p : Stop ε → Prop}

theorem pure (a : α) : StopsWith p (Pure.pure a : Step S ε α) := fun _ => trivial

theorem get : StopsWith p (MonadState.get : Step S ε S) := fun _ => trivial

theorem modify (f : S → S) : StopsWith p (modify f : Step S ε PUnit) := fun _ => trivial

theorem throw {stop : Stop ε} (h : p stop) :
    StopsWith p (MonadExcept.throw stop : Step S ε α) := fun _ => h

theorem attempt (x : Step S ε' α) : StopsWith p (Step.attempt x) := fun s => by
  rw [ends_attempt]
  exact Ends.any x s

theorem bind (h : StopsWith p x) (later : ∀ a, StopsWith p (f a)) : StopsWith p (x >>= f) := by
  intro s
  rw [ends_bind]
  exact (h s).mono (fun a t _ => later a t) fun _ _ h => h

theorem ite {q : Prop} [Decidable q] {x y : Step S ε α} (yes : StopsWith p x)
    (no : StopsWith p y) : StopsWith p (if q then x else y) := by
  split
  · exact yes
  · exact no

end StopsWith

/-! ## Lists -/

/-- A step for every member of a list: an invariant over the values so far, kept
by the step of the next member, holds of all values in the end. -/
theorem Ends.mapM {γ : Type} {g : γ → Step S ε α} {E : Stop ε → S → Prop}
    {P : List γ → List α → S → Prop} {l : List γ}
    (step : ∀ done c rest as s, l = done ++ c :: rest → P done as s →
      (g c).Ends s (fun a => P (done ++ [c]) (as ++ [a])) E) (start : P [] [] s) :
    (l.mapM g).Ends s (P l) E := by
  -- The induction is on what is left of the list, with what is done and its results as
  -- parameters.
  have gen : ∀ rest done as s, l = done ++ rest → P done as s →
      (rest.mapM g).Ends s (fun more => P l (as ++ more)) E := by
    intro rest
    induction rest with
    | nil =>
      intro done as s split h
      rw [List.append_nil] at split
      rw [List.mapM_nil, ends_pure, List.append_nil, split]
      exact h
    | cons c rest ih =>
      intro done as s split h
      rw [List.mapM_cons, ends_bind]
      refine (step done c rest as s split h).mono (fun a t kept => ?_) fun _ _ h => h
      rw [ends_bind]
      have later := ih (done ++ [c]) (as ++ [a]) t (by rw [split, List.append_assoc]; rfl) kept
      refine later.mono (fun more u h => ?_) fun _ _ h => h
      rw [ends_pure]
      rwa [List.append_assoc] at h
  exact gen l [] [] s rfl start

end Step

end BalanceAudit
