import BalanceAudit.Proofs.Block.Deltas
import Mathlib.Algebra.BigOperators.Group.List.Lemmas
import Mathlib.Data.List.Perm.Subperm

/-!
# Merging the operations of a block

Operations are merged one by one into a list that is searched and changed in place. What
comes of it can be told without that list: every holding that an operation changes stands
there once, where it first occurs, with the sum of its own amounts.

- `Block.FirstBefore`: which of two holdings occurs first; `Block.pairwise_keys_addDeltas?`:
  the merged list keeps that order.
- `Block.Merged`: what merging has to come to.
- `Block.SelectionsExact`: no sum of amounts has to be rounded, in whatever order they come;
  `Block.SelectionsExact.sumsExact_of_perm`: then the sums of every reordering are exact.
- `Block.merge_keeps_totals`: **merging keeps the total of every holding**, and neither
  transactions nor the order of operations matter for it.
-/

namespace BalanceAudit

namespace Block

/-! ## The order of the list

One more operation either names a holding that is listed, which moves nothing, or one that
comes last. -/

/-- The holding `h` occurs before `k` does. -/
def FirstBefore (ops : List Operation) (h k : Holding) : Prop :=
  (ops.map (·.holding)).idxOf h < (ops.map (·.holding)).idxOf k

theorem addDeltas?_concat (ops : List Operation) (op : Operation) (ds : List (Holding × Decimal)) :
    addDeltas? (ops ++ [op]) ds = addDeltas? ops ds >>= addDelta? op.holding op.amount.value := by
  induction ops generalizing ds with
  | nil =>
    show (addDelta? op.holding op.amount.value ds).bind some = _
    exact Option.bind_fun_some _
  | cons first rest ih =>
    rw [List.cons_append, addDeltas?, addDeltas?, bind_assoc]
    exact congrArg _ (funext ih)

/-- One more operation does not change which holding occurs first. -/
theorem FirstBefore.concat {ops : List Operation} {h k : Holding} (before : FirstBefore ops h k)
    (mem : h ∈ ops.map (·.holding)) (mem' : k ∈ ops.map (·.holding)) (op : Operation) :
    FirstBefore (ops ++ [op]) h k := by
  unfold FirstBefore
  rwa [List.map_append, List.idxOf_append_of_mem mem, List.idxOf_append_of_mem mem']

/-- A holding that is new with the last operation comes behind all others. -/
theorem firstBefore_last {ops : List Operation} {op : Operation} {h : Holding}
    (mem : h ∈ ops.map (·.holding)) (new : op.holding ∉ ops.map (·.holding)) :
    FirstBefore (ops ++ [op]) h op.holding := by
  unfold FirstBefore
  rw [List.map_append, List.idxOf_append_of_mem mem, List.idxOf_append_of_notMem new]
  exact Nat.lt_add_right _ (List.idxOf_lt_length_iff.mpr mem)

/-- Holdings stand in the list in the order in which they first occur. The induction is on
the operations from the last one, which either changes an entry or adds one at the end. -/
theorem pairwise_keys_addDeltas? {ops : List Operation} {ds : List (Holding × Decimal)}
    (eq : addDeltas? ops [] = some ds) : (ds.map (·.1)).Pairwise (FirstBefore ops) := by
  induction ops using List.reverseRecOn generalizing ds with
  | nil =>
    cases eq
    exact .nil
  | append_singleton ops op ih =>
    rw [addDeltas?_concat, Option.bind_eq_bind, Option.bind_eq_some_iff] at eq
    obtain ⟨mid, earlier, last⟩ := eq
    have known : ∀ h ∈ mid.map (·.1), h ∈ ops.map (·.holding) := fun h mem =>
      ((mem_keys_addDeltas? earlier h).mp mem).resolve_left List.not_mem_nil
    have kept : (mid.map (·.1)).Pairwise (FirstBefore (ops ++ [op])) :=
      (ih earlier).imp_of_mem fun mem mem' before =>
        before.concat (known _ mem) (known _ mem') op
    rw [keys_addDelta? last]
    split
    · exact kept
    · next absent =>
      have new : op.holding ∉ ops.map (·.holding) := fun mem =>
        absent ((mem_keys_addDeltas? earlier _).mpr (.inr mem))
      refine List.pairwise_append.mpr ⟨kept, List.pairwise_singleton _ _, fun h mem k mem' => ?_⟩
      rw [List.mem_singleton.mp mem']
      exact firstBefore_last (known h mem) new

/-! ## What merging comes to

The keys from the order of the list, the values from the net changes of a block. -/

/-- The list has one entry for each holding that the block changes. -/
structure Merged (b : Block) (ds : List (Holding × Decimal)) : Prop where
  /-- Every holding that an operation changes is there, even if its amounts cancel out, and
  no other one. -/
  covers : ∀ h, h ∈ ds.map (·.1) ↔ ∃ op ∈ b.operations, op.holding = h
  /-- No holding is there twice. -/
  once : (ds.map (·.1)).Nodup
  /-- Entries are kept apart by address, sub-account, symbol and decimals. -/
  apart : ∀ e ∈ ds, ∀ e' ∈ ds, e.1.account.address = e'.1.account.address →
    e.1.account.subAccount = e'.1.account.subAccount →
    e.1.currency.symbol = e'.1.currency.symbol →
    e.1.currency.decimals = e'.1.currency.decimals → e = e'
  /-- Entries come in the order in which their holdings first occur in the block. -/
  inOrder : (ds.map (·.1)).Pairwise (FirstBefore b.operations)
  /-- Each holding has the sum of its own amounts. -/
  totals : ∀ h d, (h, d) ∈ ds → d.toRat = b.net h

theorem merged_deltas? {b : Block} {ds : List (Holding × Decimal)} (eq : b.deltas? = some ds)
    (totals : ∀ h d, (h, d) ∈ ds → d.toRat = b.net h) : b.Merged ds where
  covers h := by
    rw [mem_keys_deltas? eq, reports_iff, List.mem_map]
  once := nodup_deltas? eq
  apart e mem e' mem' address subAccount symbol decimals := by
    obtain ⟨⟨⟨_, _⟩, ⟨_, _⟩⟩, d⟩ := e
    obtain ⟨⟨⟨_, _⟩, ⟨_, _⟩⟩, d'⟩ := e'
    cases address
    cases subAccount
    cases symbol
    cases decimals
    have found := lookup_of_mem_nodup (nodup_deltas? eq) mem
    rw [lookup_of_mem_nodup (nodup_deltas? eq) mem'] at found
    cases found
    rfl
  inOrder := pairwise_keys_addDeltas? eq
  totals := totals

/-! ## Reordering

A reordering keeps the amounts of every holding up to order. The sums need not stay exact,
unless those of all orders are. -/

section Reordered

variable {b b' : Block} (perm : b'.operations.Perm b.operations)

include perm

theorem amounts_perm (h : Holding) : (b'.amounts h).Perm (b.amounts h) :=
  (perm.filter _).map _

theorem net_eq_of_perm (h : Holding) : b'.net h = b.net h :=
  ((amounts_perm perm h).map _).sum_eq

theorem reports_eq_of_perm (h : Holding) : b'.reports h = b.reports h :=
  perm.any_eq

end Reordered

/-- Whichever amounts of a holding are added, in whatever order, the sum is a decimal's
value. -/
def SelectionsExact (b : Block) : Prop :=
  ∀ h vs, List.Subperm vs (b.amounts h) → Decimal.Representable ((vs.map Decimal.toRat).sum)

/-- So it is if amounts have the same number of places and all of them together fit. -/
theorem selectionsExact_of_places {b : Block} {k : Nat}
    (places : ∀ op ∈ b.operations, op.amount.value.scale = k) (le : k ≤ 28)
    (small : (b.operations.map (·.amount.value.units.natAbs)).sum < 2 ^ 96) :
    b.SelectionsExact := by
  intro h vs sub
  have all : List.Subperm vs (b.operations.map (·.amount.value)) :=
    sub.trans (amountsOf_sublist h _).subperm
  refine Decimal.representable_sum_of_subperm (k := k) all ?_ le ?_
  · intro v mem
    obtain ⟨op, here, rfl⟩ := List.mem_map.mp mem
    exact places op here
  · rwa [List.map_map]

/-- Then the sums of every reordering are exact. -/
theorem SelectionsExact.sumsExact_of_perm {b b' : Block} (selections : b.SelectionsExact)
    (perm : b'.operations.Perm b.operations) : b'.SumsExact := fun h n =>
  selections h _ ((List.take_sublist n _).subperm.trans (amounts_perm perm h).subperm)

/-- **Merging keeps the total of every holding.** Where no sum of amounts has to be rounded,
each holding that occurs in the block comes out once, where it first occurs, with the sum of
its amounts. Into which transactions operations are split makes no difference, and in
another order, if sums are exact in it too, they come to the same totals. So they are in
each order if no selection of amounts has to be rounded. -/
theorem merge_keeps_totals {b : Block} (exact_ : b.SumsExact) :
    ∃ ds, b.deltas? = some ds ∧ b.Merged ds ∧
      (∀ b' : Block, b'.operations = b.operations → b'.deltas? = some ds) ∧
      ∀ b' : Block, b'.operations.Perm b.operations → b'.SumsExact ∨ b.SelectionsExact →
        ∃ ds', b'.deltas? = some ds' ∧ (ds'.map (·.1)).Perm (ds.map (·.1)) ∧
          ∀ h d d', (h, d) ∈ ds → (h, d') ∈ ds' → d'.Same d := by
  obtain ⟨ds, eq, totals⟩ := deltas?_exact exact_
  refine ⟨ds, eq, merged_deltas? eq totals, fun b' same => ?_, fun b' perm reordered => ?_⟩
  · rw [deltas?, same]
    exact eq
  · have exact' : b'.SumsExact := by
      rcases reordered with sums | selections
      · exact sums
      · exact selections.sumsExact_of_perm perm
    obtain ⟨ds', eq', totals'⟩ := deltas?_exact exact'
    refine ⟨ds', eq', ?_, fun h d d' mem mem' => ?_⟩
    · refine (List.perm_ext_iff_of_nodup (nodup_deltas? eq') (nodup_deltas? eq)).mpr fun h => ?_
      rw [mem_keys_deltas? eq', mem_keys_deltas? eq, reports_eq_of_perm perm]
    · rw [Decimal.same_iff, totals h d mem, totals' h d' mem', net_eq_of_perm perm]

/-- Two transactions that change three holdings, of which two share an address and one comes
to zero, the same operations in one transaction, and in one transaction backwards. -/
theorem merge_keeps_totals_backwards :
    let alice : Account := ⟨"alice", none⟩
    let savings : Account := ⟨"alice", some "savings"⟩
    let bob : Account := ⟨"bob", none⟩
    let btc : Currency := ⟨"BTC", 8⟩
    let op (account : Account) (units : Int) (fits : units.natAbs < 2 ^ 96) : Operation :=
      ⟨0, account, ⟨⟨units, 0, fits, by decide⟩, btc⟩⟩
    let first : List Operation := [op alice (-5) (by decide), op bob 5 (by decide)]
    let second : List Operation :=
      [op savings 1 (by decide), op alice 2 (by decide), op savings (-1) (by decide)]
    let b : Block := ⟨⟨2, "b2"⟩, ⟨1, "b1"⟩, [⟨"t1", first⟩, ⟨"t2", second⟩]⟩
    let joined : Block := { b with transactions := [⟨"t", first ++ second⟩] }
    let b' : Block := { b with transactions := [⟨"t", (first ++ second).reverse⟩] }
    b.SumsExact ∧ b.SelectionsExact ∧ b'.operations.Perm b.operations ∧
      ∃ ds ds', b.deltas? = some ds ∧ joined.deltas? = some ds ∧ b'.deltas? = some ds' ∧
        b.Merged ds ∧
        ds.map (fun e => (e.1.account, e.2.units)) = [(alice, -3), (bob, 5), (savings, 0)] ∧
        ds'.map (fun e => (e.1.account, e.2.units)) = [(savings, 0), (alice, -3), (bob, 5)] ∧
        ∀ h d d', (h, d) ∈ ds → (h, d') ∈ ds' → d'.Same d := by
  intro alice savings bob btc op first second b joined b'
  have selections : b.SelectionsExact :=
    selectionsExact_of_places (k := 0) (by decide) (by decide) (by decide)
  have exact_ : b.SumsExact := selections.sumsExact_of_perm (.refl _)
  have perm : b'.operations.Perm b.operations := List.reverse_perm (first ++ second)
  obtain ⟨ds, eq, merged, split, reordered⟩ := merge_keeps_totals exact_
  obtain ⟨ds', eq', -, same⟩ := reordered b' perm (.inr selections)
  refine ⟨exact_, selections, perm, ds, ds', eq, split joined rfl, eq', merged, ?_, ?_, same⟩
  · have entries : b.deltas?.map (·.map fun e => (e.1.account, e.2.units)) =
        some [(alice, -3), (bob, 5), (savings, 0)] := by decide +kernel
    rw [eq] at entries
    exact Option.some.inj entries
  · have entries : b'.deltas?.map (·.map fun e => (e.1.account, e.2.units)) =
        some [(savings, 0), (alice, -3), (bob, 5)] := by decide +kernel
    rw [eq'] at entries
    exact Option.some.inj entries

end Block

end BalanceAudit
