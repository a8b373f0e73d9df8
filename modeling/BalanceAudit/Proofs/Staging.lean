import BalanceAudit.BalanceWorker
import BalanceAudit.Proofs.Chain
import BalanceAudit.Proofs.Step

/-!
# What staging a block comes to

The changes of a block put its net changes on top of the stored balances, or of
what the node reports before the block.

- `Session.Asked`: only the world moved on.
- `Batch.changing`: the batch of a block with its changes.
- `Block.Staged`: a change for every holding that the block reports, with a value
  of a given kind.
- `Auditor.prior`: the balance on top of which a net change is put.
- `Auditor.stageBalances_each`: staging comes to one change for each net change.
- `Auditor.stageBalances_ends`: staging comes to such changes, unless a sum
  leaves the limits of decimals.
-/

namespace BalanceAudit

variable {σ ε : Type}

/-- The sessions differ in their worlds only, and the later one has `I`. -/
def Session.Asked (I : World σ → Prop) (s t : Session σ) : Prop :=
  ∃ w, I w ∧ t = { s with world := w }

namespace Session.Asked

variable {I : World σ → Prop} {s t u : Session σ}

theorem refl (inv : I s.world) : Session.Asked I s s := ⟨s.world, inv, rfl⟩

theorem trans (h : Session.Asked I s t) (h' : Session.Asked I t u) : Session.Asked I s u := by
  obtain ⟨_, _, rfl⟩ := h
  obtain ⟨w, inv, rfl⟩ := h'
  exact ⟨w, inv, rfl⟩

theorem inv (h : Session.Asked I s t) : I t.world := by
  obtain ⟨w, inv, rfl⟩ := h
  exact inv

theorem store (h : Session.Asked I s t) : t.store = s.store := by
  obtain ⟨w, _, rfl⟩ := h
  rfl

end Session.Asked

/-- The batch of a block with its changes. -/
def Batch.changing (b : Block) (cs : List Change) : Batch :=
  match cs.countP (·.isNew) with
  | 0 => { Batch.ofBlock b with changes := cs }
  | added => { Batch.ofBlock b with changes := cs }.count .seenAccounts (.ofNat added)

theorem Batch.changing_block (b : Block) (cs : List Change) :
    (Batch.changing b cs).block = b.id := by
  unfold Batch.changing
  split <;> rfl

theorem Batch.changing_changes (b : Block) (cs : List Change) :
    (Batch.changing b cs).changes = cs := by
  unfold Batch.changing
  split <;> rfl

/-- Such a batch counts the block, its transactions and operations, and new holdings. -/
theorem Batch.changing_counts (b : Block) (cs : List Change) : ∃ counts,
    (∀ e ∈ counts, e.1 ∈ [Counter.blocks.name, Counter.transactions.name, Counter.operations.name,
      Counter.seenAccounts.name]) ∧ Batch.changing b cs = ⟨b.id, cs, counts⟩ := by
  unfold Batch.changing
  split <;> exact ⟨_, by simp [Batch.ofBlock], rfl⟩

/-- For every holding that the block reports there is one change, made by the
block, whose value satisfies `V`. -/
structure Block.Staged (b : Block) (V : Holding → Decimal → Prop) (cs : List Change) : Prop where
  distinct : (cs.map (·.holding)).Nodup
  mem_iff : ∀ h, h ∈ cs.map (·.holding) ↔ b.reports h = true
  block : ∀ c ∈ cs, c.block = b.id
  value : ∀ c ∈ cs, V c.holding c.value

/-- A change for every net change of the block, in their order, is one for every holding. -/
theorem Block.staged_of_deltas {b : Block} {V : Holding → Decimal → Prop} {cs : List Change}
    {ds : List (Holding × Decimal)} (deltas : b.deltas? = some ds)
    (holdings : cs.map (·.holding) = ds.map (·.1))
    (each : ∀ c ∈ cs, c.block = b.id ∧ V c.holding c.value) : b.Staged V cs where
  distinct := holdings ▸ Block.nodup_deltas? deltas
  mem_iff h := holdings ▸ Block.mem_keys_deltas? deltas h
  block c mem := (each c mem).1
  value c mem := (each c mem).2

namespace Auditor

variable {a : Auditor σ} {c : Chain} {I : World σ → Prop} {s : Session σ} {b : Block}

/-- The balance on top of which a net change is put: the stored one, or else the
one before the block, which is nothing before genesis or if the node knows no
past balances. -/
def prior (a : Auditor σ) (c : Chain) (l : Ledger) (b : Block) (h : Holding) : Decimal :=
  match l.balances.find? h with
  | some r => r.value
  | none => if a.settings.lookup then c.opening b h else .zero

/-- Where the node need not be asked, nothing was there before the block. -/
theorem opening_of_unasked (unasked : b.isGenesis = true ∨ ¬a.settings.lookup = true) (c : Chain)
    (h : Holding) : (if a.settings.lookup then c.opening b h else .zero) = Decimal.zero := by
  rcases unasked with genesis | off
  · rw [Chain.opening, if_pos genesis, ite_self]
  · rw [if_neg off]

theorem openingBalance_ends (serves : a.node.Serves c I) (inv : I s.world)
    (opens : a.settings.lookup = true → b.isGenesis = true ∨ c.Has b.parent) (h : Holding) :
    (a.openingBalance b h).Ends s
      (fun v t => v = (if a.settings.lookup then c.opening b h else .zero) ∧ Session.Asked I s t)
      (fun _ _ => False) := by
  unfold openingBalance
  by_cases unasked : b.isGenesis = true ∨ ¬a.settings.lookup = true
  · rw [if_pos unasked]
    exact ⟨(opening_of_unasked unasked c h).symm, .refl inv⟩
  · rw [if_neg unasked, Step.ends_bind]
    rw [not_or, not_not] at unasked
    obtain ⟨later, on⟩ := unasked
    have has := (opens on).resolve_left later
    obtain ⟨w, inv', eq⟩ := Step.eval_ask_balance (ε := WorkerError) serves inv h (some b.parent)
    refine Step.ends_of_ok eq ?_
    rw [Chain.balance_at has]
    refine ⟨?_, w, inv', rfl⟩
    rw [if_pos on, Chain.opening, if_neg later]

/-- The balance before a change is the stored one, or what the holding opens with. Whatever it
was read from, the rest of the staging is the same. -/
theorem stageChange_of_previous {P : Decimal → Bool → Session σ → Prop}
    {Q : Change → Session σ → Prop} {E : Stop WorkerError → Session σ → Prop} {h : Holding}
    {d : Decimal} (shut : s.store.closed = true → E (.failed (.store .closed)) s)
    (stored : ∀ r, s.store.ledger.balances.find? h = some r → P r.value false s)
    (opened : s.store.ledger.balances.find? h = none →
      (a.openingBalance b h).Ends s (fun v => P v true) E)
    (finish : ∀ v isNew t, P v isNew t →
      (Step.within .sum (v.add? d) : Step (Session σ) WorkerError Decimal).Ends t
        (fun sum => Q ⟨h, b.id, d, sum, isNew⟩) E) :
    (a.stageChange b (h, d)).Ends s Q E := by
  unfold stageChange
  rw [Step.ends_bind, Step.ends_read]
  split
  · next closed => exact shut closed
  · simp only [Ledger.record?]
    cases found : s.store.ledger.balances.find? h with
    | some r =>
      show Step.Ends (Step.within _ _ >>= _) s _ _
      rw [Step.ends_bind]
      exact finish r.value false s (stored r found)
    | none =>
      show Step.Ends (a.openingBalance b h >>= _) s _ _
      rw [Step.ends_bind]
      refine (opened found).mono (fun v t holds => ?_) fun _ _ h => h
      rw [Step.ends_bind]
      exact finish v true t holds

theorem stageChange_ends (serves : a.node.Serves c I) (inv : I s.world)
    (isOpen : s.store.closed = false)
    (opens : a.settings.lookup = true → b.isGenesis = true ∨ c.Has b.parent)
    {h : Holding} {d v : Decimal} (sum : (a.prior c s.store.ledger b h).add? d = some v) :
    (a.stageChange b (h, d)).Ends s
      (fun change t =>
        change = ⟨h, b.id, d, v, (s.store.ledger.balances.find? h).isNone⟩ ∧ Session.Asked I s t)
      (fun _ _ => False) := by
  unfold prior at sum
  refine stageChange_of_previous
    (P := fun previous isNew t => previous.add? d = some v ∧
      isNew = (s.store.ledger.balances.find? h).isNone ∧ Session.Asked I s t)
    (fun closed => ?_) (fun r found => ?_) (fun missing => ?_) ?_
  · rw [isOpen] at closed
    cases closed
  · rw [found] at sum ⊢
    exact ⟨sum, rfl, .refl inv⟩
  · rw [missing] at sum ⊢
    refine (openingBalance_ends serves inv opens h).mono ?_ fun _ _ h => h
    rintro previous t ⟨rfl, asked⟩
    exact ⟨sum, rfl, asked⟩
  · rintro previous isNew t ⟨sum', rfl, asked⟩
    rw [sum']
    exact ⟨rfl, asked⟩

/-! ## All changes

Staging goes through the net changes of a block, and what it keeps from one to the next it
keeps through all of them. -/

/-- The batch of a block has the changes that are staged for its net changes. -/
theorem ends_stageBalances {ds : List (Holding × Decimal)} (deltas : b.deltas? = some ds)
    {Q : Batch → Session σ → Prop} {E : Stop WorkerError → Session σ → Prop} :
    (a.stageBalances b (Batch.ofBlock b)).Ends s Q E ↔
      (ds.mapM (a.stageChange b)).Ends s (fun cs => Q (Batch.changing b cs)) E := by
  unfold stageBalances
  rw [deltas, Step.ends_bind]
  show Step.Ends (ds.mapM (a.stageChange b) >>= _) s _ _ ↔ _
  rw [Step.ends_bind]
  refine iff_of_eq (congrArg (fun P => (ds.mapM (a.stageChange b)).Ends s P E) ?_)
  funext cs t
  unfold Batch.changing
  cases cs.countP (·.isNew) <;> rfl

/-- **One change is staged for each net change**, in their order. All of them have what each
has as it is staged. -/
theorem stageBalances_each {ds : List (Holding × Decimal)} (deltas : b.deltas? = some ds)
    {C : Change → Prop} {R : Session σ → Prop} {E : Stop WorkerError → Session σ → Prop}
    (each : ∀ h d t, (h, d) ∈ ds → R t → (a.stageChange b (h, d)).Ends t
      (fun change u => (change.holding = h ∧ C change) ∧ R u) E) (start : R s) :
    (a.stageBalances b (Batch.ofBlock b)).Ends s
      (fun batch t => (∃ cs, batch = Batch.changing b cs ∧
        cs.map (·.holding) = ds.map (·.1) ∧ ∀ change ∈ cs, C change) ∧ R t) E := by
  rw [ends_stageBalances deltas]
  -- So far the members that are done have one change each, in their order.
  have staged := Step.Ends.mapM (g := a.stageChange b) (l := ds) (s := s) (E := E)
    (P := fun done cs t => (cs.map (·.holding) = done.map (·.1) ∧ ∀ change ∈ cs, C change) ∧ R t)
    ?_ ⟨⟨rfl, fun _ mem => absurd mem List.not_mem_nil⟩, start⟩
  · exact staged.mono (fun cs t ⟨so_far, kept⟩ => ⟨⟨cs, rfl, so_far⟩, kept⟩) fun _ _ h => h
  · rintro done ⟨h, d⟩ rest cs t split ⟨⟨holdings, all⟩, kept⟩
    have mem : (h, d) ∈ ds := by
      rw [split]
      simp
    refine (each h d t mem kept).mono ?_ fun _ _ h => h
    rintro change u ⟨⟨holding, good⟩, kept⟩
    refine ⟨⟨?_, ?_⟩, kept⟩
    · rw [List.map_append, List.map_append, holdings, List.map_singleton, List.map_singleton,
        holding]
    · rw [List.forall_mem_append, List.forall_mem_singleton]
      exact ⟨all, good⟩

/-- **Staging puts every net change on top of the balance before.** It comes to
one change for every reported holding; a sum that leaves the limits is excluded. -/
theorem stageBalances_ends (serves : a.node.Serves c I) (inv : I s.world)
    (isOpen : s.store.closed = false)
    (opens : a.settings.lookup = true → b.isGenesis = true ∨ c.Has b.parent)
    {ds : List (Holding × Decimal)} (deltas : b.deltas? = some ds)
    {V : Holding → Decimal → Prop}
    (sums : ∀ h d, (h, d) ∈ ds → ∃ v, (a.prior c s.store.ledger b h).add? d = some v ∧ V h v) :
    (a.stageBalances b (Batch.ofBlock b)).Ends s
      (fun batch t => (∃ cs, batch = Batch.changing b cs ∧ b.Staged V cs) ∧ Session.Asked I s t)
      (fun _ _ => False) := by
  refine (stageBalances_each deltas (C := fun change => change.block = b.id ∧
    V change.holding change.value) (R := Session.Asked I s) ?_ (.refl inv)).mono ?_ fun _ _ h => h
  · intro h d t mem asked
    obtain ⟨v, sum, good⟩ := sums h d mem
    rw [← asked.store] at sum
    refine (stageChange_ends serves asked.inv (by rwa [asked.store]) opens sum).mono ?_
      fun _ _ h => h
    rintro _ u ⟨rfl, asked'⟩
    exact ⟨⟨rfl, rfl, good⟩, asked.trans asked'⟩
  · rintro _ t ⟨⟨cs, rfl, holdings, each⟩, asked⟩
    exact ⟨⟨cs, rfl, Block.staged_of_deltas deltas holdings each⟩, asked⟩

end Auditor

end BalanceAudit
