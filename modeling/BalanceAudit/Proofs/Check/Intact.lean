import BalanceAudit.Check
import BalanceAudit.Proofs.Step

/-!
# Checks do not break down

A check fails with a mismatch, with an error of the node or with one of the store, or it
waits for an answer that never comes. It calculates nothing that could overflow, so that
the checks of a block do not break down either.

- `Auditor.Intact`: what a check stops for.
- `Auditor.checkActive_intact`, `Auditor.checkInactive_intact`: single checks.
- `Auditor.checkChanges_intact`: **the checks of a block**, however many run at once.
-/

namespace BalanceAudit

variable {σ α : Type}

namespace Auditor

open Step (StopsWith)

/-- Nothing broke down. -/
def Intact : Stop ReconcileError → Prop
  | .failed e => ∀ what, e ≠ broken what
  | .overflow _ => False
  | .idle => True

theorem intact_store (e : StoreError) : Intact (.failed (.store e)) := fun _ => nofun

theorem intact_fetch (e : FetchError) : Intact (.failed (.fetch e)) := fun _ => nofun

/-! ## Single checks -/

theorem ask_intact (call : σ → Answer α × σ) :
    StopsWith Intact (Step.ask call : Step (Session σ) ReconcileError (Except FetchError α)) := by
  intro s
  unfold Step.Ends
  rw [Step.eval_ask]
  cases (s.world.call call).1 <;> trivial

theorem ofExcept_intact {ε : Type} {f : ε → ReconcileError} {r : Except ε α}
    (each : ∀ e, Intact (.failed (f e))) :
    StopsWith Intact (Step.ofExcept f r : Step (Session σ) ReconcileError α) := by
  cases r with
  | ok _ => exact .pure _
  | error e => exact .throw (each e)

theorem read_intact :
    StopsWith Intact (Step.read .store : Step (Session σ) ReconcileError Ledger) :=
  StopsWith.get.bind fun _ => ofExcept_intact intact_store

theorem count_intact (c : Counter) :
    StopsWith Intact (Step.count .store c : Step (Session σ) ReconcileError Unit) := by
  have raises : StopsWith Intact (Step.onStore .store (·.update c.name 1) :
      Step (Session σ) ReconcileError Count) :=
    StopsWith.get.bind fun _ => .bind (.modify _) fun _ => ofExcept_intact intact_store
  exact raises.bind fun _ => .pure _

variable (a : Auditor σ)

theorem liveBalance_intact (h : Holding) (block : BlockId) :
    StopsWith Intact (a.liveBalance h block) := by
  refine (ask_intact _).bind fun _ => (ofExcept_intact intact_fetch).bind fun r => ?_
  exact .ite (.pure _) ((count_intact _).bind fun _ => .pure _)

theorem conclude_intact (kind : Kind) (h : Holding) (block : BlockId) (computed live : Decimal) :
    StopsWith Intact (a.conclude kind h block computed live) := by
  refine .ite (.bind (.modify _) fun _ => ?_) (.bind (.modify _) fun _ => ?_)
  · exact .bind (.modify _) fun _ => count_intact _
  · refine (count_intact _).bind fun _ => .bind (.modify _) fun _ => .ite ?_ (.pure _)
    exact .bind (.modify _) fun _ => .throw fun _ => nofun

theorem checkActive_intact (c : Change) : StopsWith Intact (a.checkActive c) := by
  refine .ite (count_intact _) ((a.liveBalance_intact _ _).bind fun live => ?_)
  cases live
  · exact .pure _
  · exact a.conclude_intact _ _ _ _ _

theorem checkInactive_intact (h : Holding) (claimedAt : Int) :
    StopsWith Intact (a.checkInactive h claimedAt) := by
  refine .ite (.bind (.modify _) fun _ => count_intact _) (read_intact.bind fun l => ?_)
  split
  · exact .modify _
  · refine (a.liveBalance_intact _ _).bind fun live => ?_
    cases live
    · exact .modify _
    · exact a.conclude_intact _ _ _ _ _

/-! ## The checks of a block -/

/-- The first error of the checks so far is not that one of them broke down. -/
def Tally.Sound (t : Tally) : Prop := ∀ what, t.error ≠ some (broken what)

variable {a}

theorem runChecks_sound (cs : List Change) (s : Session σ) {t : Tally} (sound : t.Sound) :
    (a.runChecks cs t).Ends s (fun t _ => t.Sound) (fun _ _ => False) := by
  induction cs generalizing s t with
  | nil => exact sound
  | cons c cs ih =>
    unfold runChecks
    rw [Step.ends_bind, Step.ends_attempt]
    refine (a.checkActive_intact c s).mono (fun _ u _ => ih u sound) fun stop u intact => ?_
    cases stop with
    | failed e =>
      refine ih u fun what => ?_
      cases first : t.error with
      | none => exact fun same => intact what (Option.some.inj same)
      | some e' => exact fun same => sound what (first.trans same)
    | overflow what => exact intact.elim
    | idle => exact ih u sound

theorem startChecks_sound (cs queue : List Change) (free : Nat) (s : Session σ) {t : Tally}
    (sound : t.Sound) :
    (a.startChecks cs queue free t).Ends s (fun r _ => r.2.Sound) (fun stop _ => stop = .idle) := by
  induction cs generalizing queue free s t with
  | nil => exact sound
  | cons c cs ih =>
    cases free with
    | succ free => exact ih _ _ s sound
    | zero =>
      unfold startChecks
      rw [Step.ends_bind]
      refine (runChecks_sound queue s sound).mono (fun t u sound => ?_) fun _ _ h => h.elim
      split
      · rfl
      · exact ih _ _ u sound

theorem settle_intact {t : Tally} (sound : t.Sound) :
    StopsWith Intact (settle t : Step (Session σ) ReconcileError Unit) := by
  unfold settle
  split
  · next e first => exact .throw fun what same => sound what (first.trans (congrArg some same))
  · exact .pure _

/-- **The checks of a block do not break down.** -/
theorem checkChanges_intact (cs : List Change) : StopsWith Intact (a.checkChanges cs) := by
  refine .bind (.modify _) fun _ => .ite (.pure _) fun s => ?_
  have fresh : Tally.Sound {} := fun _ => nofun
  unfold checkAll
  rw [Step.ends_bind]
  refine (startChecks_sound cs [] _ s fresh).mono ?_ fun stop _ h => by rw [h]; trivial
  rintro ⟨queue, t⟩ u sound
  refine ((settle_intact sound).bind fun _ => ?_) u
  intro u
  rw [Step.ends_bind]
  refine (runChecks_sound queue u sound).mono (fun t v sound => ?_) fun _ _ h => h.elim
  exact ((settle_intact sound).bind fun _ =>
    .ite (.throw (show Intact .idle from trivial)) (.pure _)) v

end Auditor

end BalanceAudit
