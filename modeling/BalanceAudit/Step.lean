/-!
# Steps

Runs are made of steps: computations on a state that finish with a value or
stop. What a step did to the state before it stopped stays.

- `Stop`: why a step did not finish. A step that waits for something that never
  comes is idle; what it waits in decides how that ends.
- `Overflow`: what left its limits. No step recovers from that; only a task that runs on
  its own is reported as broken instead.
- `Step`: a computation, as a function of the state: `Step.eval`.
- `Step.attempt`: the outcome of a step as a value.
- `Step.eval_bind` and the lemmas beside it: what a step does, without a look at
  how steps are represented.
-/

namespace BalanceAudit

/-- What left its limits. -/
inductive Overflow where
  /-- A sum of decimals. -/
  | sum
  /-- The index after another one. -/
  | next
  /-- The distance between two indices. -/
  | distance
  deriving DecidableEq, Inhabited

/-- The text of an overflow. -/
def Overflow.message : Overflow → String
  | sum => "Addition overflowed"
  | next => "attempt to add with overflow"
  | distance => "attempt to subtract with overflow"

/-- Why a step did not finish. -/
inductive Stop (ε : Type) where
  | failed (cause : ε)
  /-- It waits for something that never comes. -/
  | idle
  /-- A result left its limits. -/
  | overflow (what : Overflow)
  deriving DecidableEq, Inhabited

/-- The same stop for a changed cause. -/
def Stop.map {ε ε' : Type} (f : ε → ε') : Stop ε → Stop ε'
  | failed cause => failed (f cause)
  | idle => idle
  | overflow what => overflow what

/-- A computation on a state that finishes or stops. -/
abbrev Step (S ε α : Type) := ExceptT (Stop ε) (StateM S) α

namespace Step

variable {S ε ε' α β : Type}

/-- The outcome of a step and the state it leaves. -/
def eval (x : Step S ε α) (s : S) : Except (Stop ε) α × S := ExceptT.run x s

/-- Fails for a cause. -/
def fail (cause : ε) : Step S ε α := throw (.failed cause)

/-- Waits for something that never comes. -/
def idle : Step S ε α := throw .idle

/-- The outcome of a step as a value. -/
def attempt (x : Step S ε α) : Step S ε' (Except (Stop ε) α) := ExceptT.lift (ExceptT.run x)

/-- The step with a changed cause. -/
def mapError (f : ε → ε') (x : Step S ε α) : Step S ε' α := ExceptT.adapt (Stop.map f) x

/-- A result that fails for a changed cause. -/
def ofExcept (f : ε → ε') : Except ε α → Step S ε' α
  | .ok a => pure a
  | .error cause => fail (f cause)

/-- A result, as an outcome with a changed cause. -/
def ofResult (f : ε → ε') : Except (Stop ε) α → Step S ε' α
  | .ok a => pure a
  | .error stop => throw (stop.map f)

/-- A result, if it stayed within its limits. -/
def within (what : Overflow) (r : Option α) : Step S ε α :=
  match r with
  | some a => pure a
  | none => throw (.overflow what)

/-! ## What steps do -/

@[simp] theorem eval_pure (a : α) (s : S) : (pure a : Step S ε α).eval s = (.ok a, s) := rfl

@[simp] theorem eval_throw (stop : Stop ε) (s : S) :
    (throw stop : Step S ε α).eval s = (.error stop, s) := rfl

/-- The second step runs on the state that the first one leaves, unless that one
stopped. -/
theorem eval_bind (x : Step S ε α) (f : α → Step S ε β) (s : S) :
    (x >>= f).eval s =
      match x.eval s with
      | (.ok a, t) => (f a).eval t
      | (.error stop, t) => (.error stop, t) := by
  simp only [eval, ExceptT.run, bind, ExceptT.bind, ExceptT.mk, StateT.bind]
  rcases x s with ⟨_ | _, _⟩ <;> rfl

@[simp] theorem eval_fail (cause : ε) (s : S) :
    (fail cause : Step S ε α).eval s = (.error (.failed cause), s) := rfl

@[simp] theorem eval_idle (s : S) : (idle : Step S ε α).eval s = (.error .idle, s) := rfl

@[simp] theorem eval_get (s : S) : (get : Step S ε S).eval s = (.ok s, s) := rfl

@[simp] theorem eval_set (t s : S) : (set t : Step S ε PUnit).eval s = (.ok ⟨⟩, t) := rfl

@[simp] theorem eval_modify (f : S → S) (s : S) :
    (modify f : Step S ε PUnit).eval s = (.ok ⟨⟩, f s) := rfl

/-- An attempt always finishes. -/
@[simp] theorem eval_attempt (x : Step S ε α) (s : S) :
    (attempt x : Step S ε' _).eval s = (.ok (x.eval s).1, (x.eval s).2) := rfl

@[simp] theorem eval_mapError (f : ε → ε') (x : Step S ε α) (s : S) :
    (mapError f x).eval s = ((x.eval s).1.mapError (Stop.map f), (x.eval s).2) := rfl

@[simp] theorem eval_ofExcept (f : ε → ε') (r : Except ε α) (s : S) :
    (ofExcept f r : Step S ε' α).eval s = (r.mapError (fun e => .failed (f e)), s) := by
  cases r <;> rfl

@[simp] theorem eval_ofResult (f : ε → ε') (r : Except (Stop ε) α) (s : S) :
    (ofResult f r : Step S ε' α).eval s = (r.mapError (Stop.map f), s) := by
  cases r <;> rfl

end Step

end BalanceAudit
