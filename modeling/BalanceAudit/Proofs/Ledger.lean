import BalanceAudit.Ledger
import BalanceAudit.Proofs.Table

/-!
# What a batch does to a ledger

A batch is taken over as a whole: its changes become balances, its counts are
added, and its block is the new head.

- `Ledger.find?_balances_apply`: the changed holdings get their new balances and
  the others keep theirs.
- `Ledger.head?_apply`: a block behind all others is the head.
- `Ledger.counted_increment`, `Ledger.counted_apply_of_notMem`: counters change
  under their own names only; `Ledger.increment_right_comm`: in any order.
-/

namespace BalanceAudit

/-- Sums that stay at the greatest count are still sums. -/
theorem Count.add_right_comm (a b c : Count) : a + b + c = a + c + b := by
  refine Count.ext ?_
  simp only [Count.value_add]
  omega

namespace Ledger

/-! ## Counters -/

/-- A counter that is raised has the amount more; the others stay. -/
theorem counted_increment (l : Ledger) (name name' : String) (amount : Count) :
    (l.increment name amount).counted name' =
      if name' = name then l.counted name + amount else l.counted name' := by
  rw [counted, increment, Table.find?_insert]
  by_cases same : name' = name
  · rw [if_pos same, if_pos same, Option.getD_some]
  · rw [if_neg same, if_neg same, counted]

/-- In which order counters are raised does not matter, even at the greatest count. -/
theorem increment_right_comm (l : Ledger) (name name' : String) (amount amount' : Count) :
    (l.increment name amount).increment name' amount' =
      (l.increment name' amount').increment name amount := by
  have counters : ((l.increment name amount).increment name' amount').counters =
      ((l.increment name' amount').increment name amount).counters := by
    refine Table.ext_find? fun key => ?_
    simp only [increment, counted, Table.find?_insert]
    by_cases same : name' = name
    · rw [same]
      simp only [if_true, Option.getD_some]
      split
      · rw [Count.add_right_comm]
      · rfl
    · by_cases first : key = name
      · simp [first, Ne.symm same]
      · by_cases second : key = name'
        · simp [second, same]
        · simp [first, second]
  simp only [increment] at counters ⊢
  rw [counters]

@[simp] theorem balances_increment (l : Ledger) (name : String) (amount : Count) :
    (l.increment name amount).balances = l.balances := rfl

@[simp] theorem blocks_increment (l : Ledger) (name : String) (amount : Count) :
    (l.increment name amount).blocks = l.blocks := rfl

/-- A counter that is not listed stays. -/
theorem counted_foldl_increment_of_notMem {counts : List (String × Count)} {name : String} :
    ∀ l : Ledger, name ∉ counts.map (·.1) →
      (counts.foldl (fun l c => l.increment c.1 c.2) l).counted name = l.counted name := by
  induction counts with
  | nil => intro l _; rfl
  | cons c rest ih =>
    intro l h
    rw [List.map_cons, List.mem_cons, not_or] at h
    rw [List.foldl_cons, ih _ h.2, counted_increment, if_neg h.1]

theorem balances_foldl_increment (counts : List (String × Count)) :
    ∀ l : Ledger, (counts.foldl (fun l c => l.increment c.1 c.2) l).balances = l.balances := by
  induction counts with
  | nil => intro l; rfl
  | cons c rest ih => intro l; rw [List.foldl_cons, ih, balances_increment]

theorem blocks_foldl_increment (counts : List (String × Count)) :
    ∀ l : Ledger, (counts.foldl (fun l c => l.increment c.1 c.2) l).blocks = l.blocks := by
  induction counts with
  | nil => intro l; rfl
  | cons c rest ih => intro l; rw [List.foldl_cons, ih, blocks_increment]

/-! ## Balances -/

/-- Changes put one balance after another, so that the last one for a holding stays. -/
theorem balances_foldl_put (changes : List Change) :
    ∀ l : Ledger, (changes.foldl (fun l c => l.put c.holding ⟨c.value, c.block⟩) l).balances =
      (changes.map fun c => (c.holding, Balance.mk c.value c.block)).foldl
        (fun t e => t.insert e.1 e.2) l.balances := by
  induction changes with
  | nil => intro l; rfl
  | cons c rest ih => intro l; rw [List.foldl_cons, ih]; rfl

theorem blocks_foldl_put (changes : List Change) :
    ∀ l : Ledger,
      (changes.foldl (fun l c => l.put c.holding ⟨c.value, c.block⟩) l).blocks = l.blocks := by
  induction changes with
  | nil => intro l; rfl
  | cons c rest ih => intro l; rw [List.foldl_cons, ih]; rfl

theorem counted_foldl_put (changes : List Change) (name : String) :
    ∀ l : Ledger, (changes.foldl (fun l c => l.put c.holding ⟨c.value, c.block⟩) l).counted name =
      l.counted name := by
  induction changes with
  | nil => intro l; rfl
  | cons c rest ih => intro l; rw [List.foldl_cons, ih]; rfl

/-! ## Batches -/

/-- The balances of a batch are put in the order of its changes. -/
theorem balances_apply (l : Ledger) (b : Batch) :
    (l.apply b).balances =
      (b.changes.map fun c => (c.holding, Balance.mk c.value c.block)).foldl
        (fun t e => t.insert e.1 e.2) l.balances :=
  (balances_foldl_increment _ _).trans (balances_foldl_put _ _)

/-- Its block is stored under its index. -/
theorem blocks_apply (l : Ledger) (b : Batch) :
    (l.apply b).blocks = l.blocks.insert b.block.index b.block.hash := by
  have same := (blocks_foldl_increment b.counts _).trans (blocks_foldl_put b.changes l)
  exact congrArg (·.insert b.block.index b.block.hash) same

/-- A counter that the batch does not list stays. -/
theorem counted_apply_of_notMem {l : Ledger} {b : Batch} {name : String}
    (h : name ∉ b.counts.map (·.1)) : (l.apply b).counted name = l.counted name :=
  (counted_foldl_increment_of_notMem _ h).trans (counted_foldl_put _ _ _)

/-- A changed holding has the balance of its change. -/
theorem find?_balances_apply {l : Ledger} {b : Batch}
    (distinct : (b.changes.map (·.holding)).Nodup) {c : Change} (mem : c ∈ b.changes) :
    (l.apply b).balances.find? c.holding = some ⟨c.value, c.block⟩ := by
  rw [balances_apply]
  refine Table.find?_foldl_insert_of_mem _ ?_ (List.mem_map.mpr ⟨c, mem, rfl⟩)
  rwa [List.map_map]

/-- Every other holding keeps its balance. -/
theorem find?_balances_apply_of_notMem {l : Ledger} {b : Batch} {h : Holding}
    (other : h ∉ b.changes.map (·.holding)) :
    (l.apply b).balances.find? h = l.balances.find? h := by
  rw [balances_apply]
  refine Table.find?_foldl_insert_of_notMem _ ?_
  rwa [List.map_map]

/-! ## The head

The head is the block with the greatest index, which is the last one in order. -/

/-- It is read off the last entry. -/
theorem head?_of_last? {l : Ledger} {i : Int} {hash : String}
    (h : l.blocks.last? = some (i, hash)) : l.head? = some ⟨i, hash⟩ := by
  rw [head?, h]
  rfl

/-- The head is stored under its index. -/
theorem find?_of_head? {l : Ledger} {head : BlockId} (found : l.head? = some head) :
    l.blocks.find? head.index = some head.hash := by
  rw [head?, Option.map_eq_some_iff] at found
  obtain ⟨_, last, rfl⟩ := found
  exact Table.find?_eq_some_iff.mpr (List.mem_of_getLast? last)

theorem contains_of_head? {l : Ledger} {head : BlockId} (found : l.head? = some head) :
    l.blocks.contains head.index = true := by
  rw [Table.contains, find?_of_head? found]
  rfl

/-- There is a head as soon as there is a block. -/
theorem exists_head? {l : Ledger} {i : Int} (stored : l.blocks.contains i = true) :
    ∃ head, l.head? = some head := by
  cases none : l.head? with
  | some head => exact ⟨head, rfl⟩
  | none =>
    rw [head?, Option.map_eq_none_iff, Table.last?_eq_none_iff] at none
    obtain ⟨hash, here⟩ := Table.contains_iff.mp stored
    rw [none] at here
    cases here

/-- No block lies behind the head. -/
theorem lt_of_head?_lt {l : Ledger} {i : Int}
    (behind : ∀ head, l.head? = some head → head.index < i) :
    ∀ e ∈ l.blocks.entries, e.1 < i := by
  intro e mem
  cases last : l.blocks.last? with
  | none =>
    rw [Table.last?_eq_none_iff.mp last] at mem
    cases mem
  | some entry =>
    have lt := behind _ (head?_of_last? last)
    rcases Table.eq_last?_or_lt mem last with rfl | before
    · exact lt
    · exact (Table.compare_int_lt.mp before).trans lt

/-- No block is behind it. -/
theorem le_head {l : Ledger} {head : BlockId} {i : Int} (found : l.head? = some head)
    (stored : l.blocks.contains i = true) : i ≤ head.index := by
  obtain ⟨hash, here⟩ := Table.contains_iff.mp stored
  refine Int.lt_add_one_iff.mp (lt_of_head?_lt (fun head' found' => ?_) (i, hash) here)
  cases found.symm.trans found'
  exact Int.lt_succ head.index

/-- A batch adds its block and keeps the others. -/
theorem contains_blocks_apply (l : Ledger) (b : Batch) (i : Int) :
    (l.apply b).blocks.contains i = true ↔ i = b.block.index ∨ l.blocks.contains i = true := by
  rw [blocks_apply, Table.contains_insert]

/-- A block behind all others becomes the head. -/
theorem head?_apply {l : Ledger} {b : Batch}
    (behind : ∀ head, l.head? = some head → head.index < b.block.index) :
    (l.apply b).head? = some b.block := by
  refine head?_of_last? ?_
  rw [blocks_apply]
  exact Table.last?_insert_of_lt _ fun e mem =>
    Table.compare_int_lt.mpr (lt_of_head?_lt behind e mem)

end Ledger

/-! ## Counts -/

namespace Count

/-- A counter never goes down. -/
theorem le_add (a b : Count) : a.value ≤ (a + b).value := by
  rw [value_add]
  have := a.value_lt
  simp only [greatest]
  omega

/-- A counter that was raised is not zero, even at the greatest count. -/
theorem add_one_ne_zero (a : Count) : (a + 1).value ≠ 0 := by
  have one : (1 : Count).value = 1 := by decide
  rw [value_add, one]
  simp only [greatest]
  omega

end Count

end BalanceAudit
