import BalanceAudit.Block
import BalanceAudit.Proofs.Decimal.Exact
import Mathlib.Algebra.BigOperators.Group.List.Basic
import Mathlib.Data.List.Flatten
import Mathlib.Data.List.Nodup

/-!
# Net changes of a block

What a block reports of a holding, said without the list in which the net
changes are collected, and how that list comes to it.

- `Block.reports`, `Block.amounts`, `Block.net`: whether and what a block
  reports of a holding.
- `Block.lookup_deltas?`: the net change of a holding adds its own amounts, in
  their order, and nothing else.
- `Block.SumsExact`, `Block.deltas?_exact`: where no sum of amounts has to be
  rounded, the net changes are the sums.
-/

namespace BalanceAudit

namespace Block

/-- The amounts that operations add to a holding, in order. -/
def amountsOf (h : Holding) (ops : List Operation) : List Decimal :=
  (ops.filter (·.holding = h)).map (·.amount.value)

/-- The amounts that the block adds to a holding, in order. -/
def amounts (b : Block) (h : Holding) : List Decimal := amountsOf h b.operations

/-- Whether an operation of the block changes a holding. -/
def reports (b : Block) (h : Holding) : Bool := b.operations.any (·.holding = h)

/-- The sum of the amounts that the block adds to a holding. -/
def net (b : Block) (h : Holding) : ℚ := ((b.amounts h).map Decimal.toRat).sum

/-- A block reports the holdings of its operations. -/
theorem reports_iff {b : Block} {h : Holding} :
    b.reports h = true ↔ h ∈ b.operations.map (·.holding) := by
  simp [reports]

/-- A holding without operations has no amounts. -/
theorem amountsOf_eq_nil_iff {h : Holding} {ops : List Operation} :
    amountsOf h ops = [] ↔ h ∉ ops.map (·.holding) := by
  simp [amountsOf]

/-- What is not reported does not change. -/
theorem net_of_not_reports {b : Block} {h : Holding} (none : ¬b.reports h = true) :
    b.net h = 0 := by
  rw [reports_iff, ← amountsOf_eq_nil_iff] at none
  rw [net, amounts, none]
  rfl

/-- What blocks add to a holding are some of their amounts. -/
theorem sum_net (bs : List Block) (h : Holding) : (bs.map (·.net h)).sum =
    ((amountsOf h (bs.flatMap (·.operations))).map Decimal.toRat).sum := by
  induction bs with
  | nil => rfl
  | cons b rest ih =>
    rw [List.map_cons, List.sum_cons, ih, List.flatMap_cons, net, amounts]
    simp [amountsOf]

/-- The amounts of a holding are some of all amounts, in their order. -/
theorem amountsOf_sublist (h : Holding) (ops : List Operation) :
    (amountsOf h ops).Sublist (ops.map (·.amount.value)) := List.filter_sublist.map _

/-- The amounts of all operations. -/
def amountsIn (bs : List Block) : List Decimal :=
  (bs.flatMap (·.operations)).map (·.amount.value)

/-- What some of the blocks, in any order, add to a holding are some of all amounts. -/
theorem amountsOf_subperm {bs more : List Block} (sub : List.Subperm bs more) (h : Holding) :
    List.Subperm (amountsOf h (bs.flatMap (·.operations))) (amountsIn more) := by
  obtain ⟨part, perm, sub⟩ := sub
  have operations := (perm.flatMap_right (·.operations)).map (·.amount.value)
  exact (amountsOf_sublist h _).subperm.trans
    (operations.symm.subperm.trans ((sub.flatMap _).map _).subperm)

/-- So those of a block are some of those of all blocks. -/
theorem amounts_subperm {bs : List Block} {b : Block} (mem : b ∈ bs) (h : Holding) :
    List.Subperm (b.amounts h) (amountsIn bs) := by
  have one := amountsOf_subperm (List.singleton_sublist.mpr mem).subperm h
  rwa [List.flatMap_singleton] at one

/-! ## One more amount

Adding an amount changes the entry of its own holding, or makes one at the end of the list. -/

/-- One amount on top of a sum, if there is a sum yet. -/
def sumOnto? : Option Decimal → Decimal → Option Decimal
  | none, v => some v
  | some sum, v => sum.add? v

/-- An amount is added if the total of its holding is no overflow. -/
theorem addDelta?_isSome {h : Holding} {v : Decimal} {ds : List (Holding × Decimal)}
    (sum : (sumOnto? (ds.lookup h) v).isSome) : (addDelta? h v ds).isSome := by
  induction ds with
  | nil => rfl
  | cons e rest ih =>
    obtain ⟨k, s⟩ := e
    rw [addDelta?]
    by_cases same : k = h
    · rw [if_pos same, Option.isSome_map]
      rwa [same, List.lookup_cons_self] at sum
    · rw [if_neg same, Option.isSome_map]
      refine ih ?_
      rwa [List.lookup_cons, beq_false_of_ne (Ne.symm same)] at sum

/-- The sum of the holding gets the amount; every other sum stays. -/
theorem lookup_addDelta? {h : Holding} {v : Decimal} {ds ds' : List (Holding × Decimal)}
    (eq : addDelta? h v ds = some ds') :
    ∃ s, sumOnto? (ds.lookup h) v = some s ∧
      ∀ k, ds'.lookup k = if k = h then some s else ds.lookup k := by
  induction ds generalizing ds' with
  | nil =>
    cases eq
    refine ⟨v, rfl, fun k => ?_⟩
    by_cases here : k = h
    · rw [if_pos here, here, List.lookup_cons_self]
    · rw [if_neg here, List.lookup_cons, beq_false_of_ne here]
  | cons e rest ih =>
    obtain ⟨k, s⟩ := e
    rw [addDelta?] at eq
    -- The holding at the front is the one to add to, or it is further behind.
    by_cases same : k = h
    · subst same
      rw [if_pos rfl, Option.map_eq_some_iff] at eq
      obtain ⟨sum, added, rfl⟩ := eq
      rw [List.lookup_cons_self]
      refine ⟨sum, added, fun k' => ?_⟩
      by_cases here : k' = k
      · rw [if_pos here, here, List.lookup_cons_self]
      · rw [if_neg here, List.lookup_cons, List.lookup_cons, beq_false_of_ne here]
    · rw [if_neg same, Option.map_eq_some_iff] at eq
      obtain ⟨rest', more, rfl⟩ := eq
      obtain ⟨sum, added, others⟩ := ih more
      rw [List.lookup_cons, beq_false_of_ne (Ne.symm same)]
      refine ⟨sum, added, fun k' => ?_⟩
      rw [List.lookup_cons, List.lookup_cons, others]
      by_cases here : k' = k
      · rw [here, beq_self_eq_true]
        exact (if_neg same).symm
      · rw [beq_false_of_ne here]

/-- A holding keeps its place, and a new one goes behind the others. -/
theorem keys_addDelta? {h : Holding} {v : Decimal} {ds ds' : List (Holding × Decimal)}
    (eq : addDelta? h v ds = some ds') :
    ds'.map (·.1) = if h ∈ ds.map (·.1) then ds.map (·.1) else ds.map (·.1) ++ [h] := by
  induction ds generalizing ds' with
  | nil =>
    cases eq
    rfl
  | cons e rest ih =>
    obtain ⟨k, s⟩ := e
    rw [addDelta?] at eq
    by_cases same : k = h
    · subst same
      rw [if_pos rfl, Option.map_eq_some_iff] at eq
      obtain ⟨sum, _, rfl⟩ := eq
      simp
    · rw [if_neg same, Option.map_eq_some_iff] at eq
      obtain ⟨rest', more, rfl⟩ := eq
      rw [List.map_cons, ih more, List.map_cons]
      by_cases mem : h ∈ rest.map (·.1)
      · rw [if_pos mem, if_pos (List.mem_cons_of_mem _ mem)]
      · have new : h ∉ k :: rest.map (·.1) := by
          rw [List.mem_cons, not_or]
          exact ⟨Ne.symm same, mem⟩
        rw [if_neg mem, if_neg new, List.cons_append]

/-! ## All operations

By induction on the operations: what stands in the list for a holding is its own amounts,
added in their order onto what stood there. -/

/-- Amounts on top of a sum, one after the other. -/
def totalOnto? : Option Decimal → List Decimal → Option (Option Decimal)
  | sum, [] => some sum
  | sum, v :: vs => sumOnto? sum v >>= fun s => totalOnto? (some s) vs

/-- An operation adds its amount to its own holding only. -/
theorem amountsOf_cons (h : Holding) (op : Operation) (ops : List Operation) :
    amountsOf h (op :: ops) =
      if op.holding = h then op.amount.value :: amountsOf h ops else amountsOf h ops := by
  rw [amountsOf, List.filter_cons]
  by_cases here : op.holding = h
  · rw [if_pos here, if_pos (by simpa using here), List.map_cons, amountsOf]
  · rw [if_neg here, if_neg (by simpa using here), amountsOf]

/-- All operations are added if no total overflows on the way. -/
theorem addDeltas?_isSome {ops : List Operation} {ds : List (Holding × Decimal)}
    (totals : ∀ h, (totalOnto? (ds.lookup h) (amountsOf h ops)).isSome) :
    (addDeltas? ops ds).isSome := by
  induction ops generalizing ds with
  | nil => rfl
  | cons op rest ih =>
    have total := totals op.holding
    rw [amountsOf_cons, if_pos rfl, totalOnto?] at total
    obtain ⟨s, sum⟩ : ∃ s, sumOnto? (ds.lookup op.holding) op.amount.value = some s := by
      cases found : sumOnto? (ds.lookup op.holding) op.amount.value with
      | none => simp [found] at total
      | some s => exact ⟨s, rfl⟩
    obtain ⟨ds', step⟩ := Option.isSome_iff_exists.mp (addDelta?_isSome (by rw [sum]; rfl))
    obtain ⟨s', sum', others⟩ := lookup_addDelta? step
    rw [addDeltas?, step]
    -- The total of the holding at hand has grown by its first amount; the others stand as
    -- before.
    refine ih fun h => ?_
    rw [others]
    by_cases here : op.holding = h
    · subst here
      rw [if_pos rfl]
      rwa [sum', Option.bind_eq_bind, Option.bind_some] at total
    · rw [if_neg (Ne.symm here)]
      have later := totals h
      rwa [amountsOf_cons, if_neg here] at later

/-- The net change of every holding adds its own amounts only. The induction is
on the operations, with any sums to start from. -/
theorem lookup_addDeltas? {ops : List Operation} {ds ds' : List (Holding × Decimal)}
    (eq : addDeltas? ops ds = some ds') (h : Holding) :
    totalOnto? (ds.lookup h) (amountsOf h ops) = some (ds'.lookup h) := by
  induction ops generalizing ds with
  | nil =>
    cases eq
    rfl
  | cons op rest ih =>
    rw [addDeltas?, Option.bind_eq_bind, Option.bind_eq_some_iff] at eq
    obtain ⟨mid, step, more⟩ := eq
    obtain ⟨s, sum, others⟩ := lookup_addDelta? step
    have later := ih more
    rw [others] at later
    rw [amountsOf_cons]
    by_cases here : op.holding = h
    · subst here
      rw [if_pos rfl] at later
      rw [if_pos rfl, totalOnto?, sum]
      exact later
    · rw [if_neg (Ne.symm here)] at later
      rw [if_neg here]
      exact later

/-- No holding is listed twice. -/
theorem nodup_addDeltas? {ops : List Operation} {ds ds' : List (Holding × Decimal)}
    (eq : addDeltas? ops ds = some ds') (distinct : (ds.map (·.1)).Nodup) :
    (ds'.map (·.1)).Nodup := by
  induction ops generalizing ds with
  | nil =>
    cases eq
    exact distinct
  | cons op rest ih =>
    rw [addDeltas?, Option.bind_eq_bind, Option.bind_eq_some_iff] at eq
    obtain ⟨mid, step, more⟩ := eq
    refine ih more ?_
    rw [keys_addDelta? step]
    split
    · exact distinct
    · next new =>
      exact List.nodup_append.mpr ⟨distinct, List.nodup_singleton _,
        fun k mem k' mem' same => new (by rwa [← List.mem_singleton.mp mem', ← same])⟩

/-- The holdings listed are those before and those of the operations. -/
theorem mem_keys_addDeltas? {ops : List Operation} {ds ds' : List (Holding × Decimal)}
    (eq : addDeltas? ops ds = some ds') (h : Holding) :
    h ∈ ds'.map (·.1) ↔ h ∈ ds.map (·.1) ∨ h ∈ ops.map (·.holding) := by
  induction ops generalizing ds with
  | nil =>
    cases eq
    simp
  | cons op rest ih =>
    rw [addDeltas?, Option.bind_eq_bind, Option.bind_eq_some_iff] at eq
    obtain ⟨mid, step, more⟩ := eq
    rw [ih more, keys_addDelta? step, List.map_cons, List.mem_cons]
    split
    · next old =>
      constructor
      · rintro (mem | mem)
        · exact .inl mem
        · exact .inr (.inr mem)
      · rintro (mem | rfl | mem)
        · exact .inl mem
        · exact .inl old
        · exact .inr mem
    · rw [List.mem_append, List.mem_singleton, or_assoc]

/-! ## The net changes of a block -/

/-- Each holding has one net change. -/
theorem nodup_deltas? {b : Block} {ds : List (Holding × Decimal)} (eq : b.deltas? = some ds) :
    (ds.map (·.1)).Nodup :=
  nodup_addDeltas? eq List.nodup_nil

/-- The holdings with a net change are those that the block reports. -/
theorem mem_keys_deltas? {b : Block} {ds : List (Holding × Decimal)} (eq : b.deltas? = some ds)
    (h : Holding) : h ∈ ds.map (·.1) ↔ b.reports h = true := by
  rw [mem_keys_addDeltas? eq, reports_iff]
  simp

/-- It is the total of its amounts. -/
theorem lookup_deltas? {b : Block} {ds : List (Holding × Decimal)} (eq : b.deltas? = some ds)
    (h : Holding) : totalOnto? none (b.amounts h) = some (ds.lookup h) :=
  lookup_addDeltas? eq h

/-- With one entry for each holding, an entry is what is found. -/
theorem lookup_of_mem_nodup {ds : List (Holding × Decimal)} (distinct : (ds.map (·.1)).Nodup)
    {h : Holding} {d : Decimal} (mem : (h, d) ∈ ds) : ds.lookup h = some d := by
  induction ds with
  | nil => cases mem
  | cons e rest ih =>
    rw [List.map_cons, List.nodup_cons] at distinct
    rcases List.mem_cons.mp mem with rfl | mem
    · exact List.lookup_cons_self
    · have other : h ≠ e.1 := by
        rintro rfl
        exact distinct.1 (List.mem_map.mpr ⟨_, mem, rfl⟩)
      rw [List.lookup_cons, beq_false_of_ne other]
      exact ih distinct.2 mem

/-! ## Exact sums

Where no partial sum is rounded, adding in the order of the operations is adding among the
rationals. -/

/-- Every sum of first amounts of a holding in the block is a decimal's value. -/
def SumsExact (b : Block) : Prop :=
  ∀ h n, Decimal.Representable ((((b.amounts h).take n).map Decimal.toRat).sum)

/-- A total is exact if every part of it is. -/
theorem totalOnto?_exact {vs : List Decimal} {q : ℚ} :
    ∀ {s : Decimal}, s.toRat = q →
      (∀ n, Decimal.Representable (q + ((vs.take n).map Decimal.toRat).sum)) →
      ∃ d, totalOnto? (some s) vs = some (some d) ∧
        d.toRat = q + (vs.map Decimal.toRat).sum := by
  induction vs generalizing q with
  | nil =>
    intro s value _
    exact ⟨s, rfl, by simpa using value⟩
  | cons v rest ih =>
    intro s value exact_
    have first : Decimal.Representable (s.toRat + v.toRat) := by
      simpa [value] using exact_ 1
    obtain ⟨s', added, value'⟩ := Decimal.add?_exact first
    -- The sum so far becomes the start of the rest.
    obtain ⟨d, total, sum⟩ := ih (q := q + v.toRat) (s := s') (by rw [value', value]) fun n => by
      simpa [add_assoc] using exact_ (n + 1)
    refine ⟨d, ?_, ?_⟩
    · rw [totalOnto?, sumOnto?, added]
      exact total
    · rw [sum, List.map_cons, List.sum_cons, add_assoc]

/-- **Without rounding the net changes are the sums** of the amounts. -/
theorem deltas?_exact {b : Block} (exact_ : b.SumsExact) :
    ∃ ds, b.deltas? = some ds ∧ ∀ h d, (h, d) ∈ ds → d.toRat = b.net h := by
  -- The first amount is taken as it is, and the others are added to it.
  have totals : ∀ h, ∃ sum, totalOnto? none (b.amounts h) = some sum ∧
      ∀ d, sum = some d → d.toRat = b.net h := by
    intro h
    have sums := exact_ h
    rw [net]
    cases amounts : b.amounts h with
    | nil => exact ⟨none, rfl, fun d h => nomatch h⟩
    | cons v rest =>
      rw [amounts] at sums
      have more : ∀ n, Decimal.Representable (v.toRat + ((rest.take n).map Decimal.toRat).sum) := by
        intro n
        simpa using sums (n + 1)
      obtain ⟨d, total, sum⟩ := totalOnto?_exact rfl more
      refine ⟨some d, total, fun d' same => ?_⟩
      cases same
      rw [sum, List.map_cons, List.sum_cons]
  have some_deltas : b.deltas?.isSome = true := by
    refine addDeltas?_isSome fun h => ?_
    obtain ⟨sum, total, _⟩ := totals h
    exact Option.isSome_iff_exists.mpr ⟨sum, total⟩
  obtain ⟨ds, eq⟩ := Option.isSome_iff_exists.mp some_deltas
  refine ⟨ds, eq, fun h d mem => ?_⟩
  obtain ⟨sum, total, value⟩ := totals h
  rw [lookup_deltas? eq, lookup_of_mem_nodup (nodup_deltas? eq) mem] at total
  exact value d (Option.some.inj total).symm

end Block

end BalanceAudit
