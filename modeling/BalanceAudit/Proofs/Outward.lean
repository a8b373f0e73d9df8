import BalanceAudit.Proofs.Staging

/-!
# Steps that touch only the world

While no sweeping worker is asleep, waiting, fetching and staging ask the node and let
time pass, and leave everything else of a session alone.

- `Session.Later`: only the world moved on.
- `Step.Outward`: a step that does no more than that, and the causes for which it stops.
- `Auditor.fetchBlock_outward`, `Auditor.stageBalances_outward`: fetching a block stops
  with an error of that block, staging never with one of a check, and no index overflows.
- `Auditor.canceledBefore_outward`: waiting for the end.
-/

namespace BalanceAudit

variable {σ ε ε' α β γ : Type}

/-- Only the world moved on. -/
abbrev Session.Later (s t : Session σ) : Prop := Session.Asked (fun _ => True) s t

/-- Only the world changes. -/
theorem Session.Later.sweepers {s t : Session σ} (later : s.Later t) : t.sweepers = s.sweepers := by
  obtain ⟨_, _, rfl⟩ := later
  rfl

namespace Step

/-- As long as no worker sleeps, the step touches nothing but the world, whether it
finishes or stops, and stops only for causes of which `p` holds. -/
def Outward (p : Stop ε → Prop) (x : Step (Session σ) ε α) : Prop :=
  ∀ s, s.sweepers.asleep = 0 → x.Ends s (fun _ t => s.Later t) (fun stop t => p stop ∧ s.Later t)

namespace Outward

variable {p : Stop ε → Prop} {x y : Step (Session σ) ε α} {f : α → Step (Session σ) ε β}

theorem pure (a : α) : Outward p (Pure.pure a : Step (Session σ) ε α) :=
  fun _ _ => .refl trivial

theorem throw {stop : Stop ε} (h : p stop) :
    Outward p (MonadExcept.throw stop : Step (Session σ) ε α) := fun _ _ => ⟨h, .refl trivial⟩

theorem get : Outward p (MonadState.get : Step (Session σ) ε (Session σ)) :=
  fun _ _ => .refl trivial

theorem onWorld (f : World σ → World σ) :
    Outward p (Step.onWorld f : Step (Session σ) ε Unit) := fun s _ => ⟨f s.world, trivial, rfl⟩

/-- The second step starts in a later session too. -/
theorem bind (h : Outward p x) (next : ∀ a, Outward p (f a)) : Outward p (x >>= f) := by
  intro s idle
  rw [ends_bind]
  refine (h s idle).mono (fun a t later => ?_) fun _ _ h => h
  refine (next a t (by rw [later.sweepers]; exact idle)).mono (fun _ _ h => later.trans h) ?_
  exact fun stop u h => ⟨h.1, later.trans h.2⟩

theorem ite {q : Prop} [Decidable q] (yes : Outward p x) (no : Outward p y) :
    Outward p (if q then x else y) := by
  split
  · exact yes
  · exact no

/-- A step for each element only changes the world if the step for any element does. -/
theorem mapM {f : γ → Step (Session σ) ε α} (each : ∀ c, Outward p (f c)) (cs : List γ) :
    Outward p (cs.mapM f) := by
  induction cs with
  | nil => exact pure []
  | cons c cs ih =>
    rw [List.mapM_cons]
    exact (each c).bind fun _ => ih.bind fun _ => pure _

/-- A call that is never answered is idle. -/
theorem ask (idle : p .idle) (call : σ → Answer α × σ) :
    Outward p (Step.ask call : Step (Session σ) ε _) := by
  intro s _
  rw [Ends, eval_ask]
  have later : s.Later { s with world := (s.world.call call).2 } := ⟨_, trivial, rfl⟩
  cases (s.world.call call).1 with
  | none => exact ⟨idle, later⟩
  | some r => exact later

theorem ofExcept {f : ε' → ε} (fails : ∀ e, p (.failed (f e))) (r : Except ε' α) :
    Outward p (Step.ofExcept f r : Step (Session σ) ε α) := by
  cases r with
  | ok a => exact pure a
  | error e => exact throw (fails e)

theorem read {f : StoreError → ε} (fails : ∀ e, p (.failed (f e))) :
    Outward p (Step.read f : Step (Session σ) ε Ledger) := get.bind fun _ => ofExcept fails _

theorem within {what : Overflow} (overflow : p (.overflow what)) (r : Option α) :
    Outward p (Step.within what r : Step (Session σ) ε α) := by
  cases r with
  | some d => exact pure d
  | none => exact throw overflow

end Outward

end Step

namespace Auditor

open Step (Outward)

variable (a : Auditor σ)

/-! ## Waiting

As long as no worker sleeps, there is nobody to wake while time passes. -/

section Waiting

variable {p : Stop ε → Prop}

/-- Without a worker to wake, waiting lets the time pass at once. -/
theorem waitUntil_outward (target fuel : Nat) :
    Outward p (a.waitUntil target fuel : Step (Session σ) ε Unit) := by
  intro s idle
  cases fuel with
  | zero => exact .refl trivial
  | succ fuel =>
    rw [waitUntil, Step.ends_bind, Step.ends_get]
    dsimp only
    split
    · exact .refl trivial
    · rw [if_neg fun wakes => wakes.1 idle]
      exact Outward.onWorld (p := p) _ s idle

/-- Without sweeps a wait is time that passes. -/
theorem wait_outward (ms : Nat) : Outward p (a.wait ms : Step (Session σ) ε Unit) :=
  Outward.get.bind fun _ => a.waitUntil_outward _ _

/-- A wait for the end is one, or gives the run up. -/
theorem awaitEnd_outward : Outward p (a.awaitEnd : Step (Session σ) ε Unit) :=
  Outward.get.bind fun _ => .ite (.pure _) <| (a.wait_outward _).bind fun _ =>
    Outward.get.bind fun _ => .ite (.onWorld _) (.pure _)

theorem proceed_outward (idle : p .idle) : Outward p (proceed : Step (Session σ) ε Unit) :=
  Outward.get.bind fun _ => .ite (.throw idle) (.pure _)

/-- A pause is one, or the end of the run. -/
theorem pause_outward (idle : p .idle) (ms : Nat) :
    Outward p (a.pause ms : Step (Session σ) ε Unit) :=
  Outward.get.bind fun _ => .ite (a.awaitEnd_outward.bind fun _ => .throw idle)
    ((a.wait_outward _).bind fun _ => proceed_outward idle)

end Waiting

/-- What waits for the end is canceled before the block it was to come to, or idle. -/
theorem canceledBefore_outward (next : Int) :
    Outward (fun stop => stop = .idle ∨ stop = .failed (.canceled next))
      (a.canceledBefore next) :=
  a.awaitEnd_outward.bind fun _ => Outward.get.bind fun _ =>
    .ite (.throw (.inr rfl)) (.throw (.inl rfl))

/-! ## Fetching and staging

Up to the commit nothing but the world has moved. -/

/-- Fetching a block stops with an error of that block, or idle. -/
theorem fetchBlock_outward (index : Int) :
    Outward (fun stop => stop = .idle ∨ ∃ cause, stop = .failed (.fetch index cause))
      (a.fetchBlock index) := by
  have idle : (Stop.idle : Stop SyncError) = .idle ∨
      ∃ cause, Stop.idle = .failed (SyncError.fetch index cause) := .inl rfl
  have fetch : ∀ fuel attempts, Outward
      (fun stop => stop = .idle ∨ ∃ cause, stop = .failed (.fetch index cause))
      (a.fetchFrom index fuel attempts) := by
    intro fuel
    induction fuel with
    | zero => exact fun _ => .throw idle
    | succ fuel ih =>
      intro attempts
      refine (proceed_outward idle).bind fun _ => (Outward.ask idle _).bind fun reply => ?_
      split
      · exact .pure _
      · exact (a.pause_outward idle _).bind fun _ => ih _
      · exact .ite ((a.pause_outward idle _).bind fun _ => ih _) (.throw (.inr ⟨_, rfl⟩))
      · exact .throw (.inr ⟨_, rfl⟩)
  exact Outward.get.bind fun _ => fetch _ _

/-- The cause is not an error of a check, and what overflows is a sum. -/
def Unchecked : Stop WorkerError → Prop
  | .failed cause => ∀ e, cause ≠ .reconcile e
  | .idle => True
  | .overflow what => what = .sum

/-- A sum that overflows is no error of a check. -/
theorem unchecked_sum : Unchecked (.overflow .sum) := rfl

/-- A past balance is asked for, and that is all. -/
theorem openingBalance_outward (b : Block) (h : Holding) :
    Outward Unchecked (a.openingBalance b h) :=
  .ite (.pure _) <| (Outward.ask trivial _).bind fun _ =>
    (Outward.ofExcept (fun _ _ => nofun) _).bind fun _ => .pure _

/-- A change is staged from what is stored or asked for; its sum may overflow. -/
theorem stageChange_outward (b : Block) (delta : Holding × Decimal) :
    Outward Unchecked (a.stageChange b delta) := by
  refine (Outward.read fun _ _ => nofun).bind fun l => ?_
  dsimp only
  split
  · exact (Outward.pure _).bind fun _ =>
      (Outward.within unchecked_sum _).bind fun _ => .pure _
  · exact (a.openingBalance_outward _ _).bind fun _ =>
      (Outward.within unchecked_sum _).bind fun _ => .pure _

/-- Staging never stops with an error of a check, or because an index overflows. -/
theorem stageBalances_outward (b : Block) (batch : Batch) :
    Outward Unchecked (a.stageBalances b batch) := by
  refine (Outward.within unchecked_sum _).bind fun ds =>
    (Outward.mapM (a.stageChange_outward b) ds).bind fun cs => ?_
  dsimp only
  split <;> exact .pure _

end Auditor

end BalanceAudit
