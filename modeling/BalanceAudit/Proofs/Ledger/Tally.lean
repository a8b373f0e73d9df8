import BalanceAudit.Proofs.Course
import BalanceAudit.Proofs.Store.Usage

/-!
# Counters that mirror a ledger

Some counters say what a ledger holds: how many blocks, with how many transactions and
operations, and how many balance records. Each of them is raised somewhere else than
where the thing it counts is put in.

- `Ledger.tally`: what such a counter should be at.
- `Ledger.Mirrors`: the counters are at it, after the blocks that were taken over.
- `Ledger.Mirrors.apply`, `Ledger.Mirrors.seed`, `Ledger.Mirrors.increment`: whatever is
  done to the ledger, **they keep up**.
-/

namespace BalanceAudit

/-! ## Sizes of tables -/

namespace Table

variable {κ ν : Type} [Ord κ]

theorem length_place (k : κ) (v : ν) (l : List (κ × ν)) :
    (place k v l).length = l.length + if (lookup k l).isSome then 0 else 1 := by
  induction l with
  | nil => rfl
  | cons e rest ih =>
    rw [place, lookup]
    split
    · simp
    · simp
    · rw [List.length_cons, ih, List.length_cons]
      omega

variable [Std.TransOrd κ]

/-- A write adds an entry if there was none under the key. -/
theorem length_insert (t : Table κ ν) (k : κ) (v : ν) :
    (t.insert k v).entries.length = t.entries.length + if t.contains k then 0 else 1 :=
  length_place k v t.entries

end Table

namespace Ledger

variable {l : Ledger} {kept : List Block} {b : Block} {k : Counter} {n : Nat}

/-! ## What counters should be at -/

/-- What the counter should be at, after the blocks that were taken over: none if it does
not count what the ledger holds. -/
def tally (l : Ledger) (kept : List Block) : Counter → Option Nat
  | .blocks => some kept.length
  | .transactions => some (kept.map (·.transactions.length)).sum
  | .operations => some (kept.map (·.operationCount)).sum
  | .seenAccounts => some l.balances.entries.length
  | _ => none

/-- The blocks are those that were taken over, each of them once, and the counters say so.
They stay at the greatest count. -/
structure Mirrors (l : Ledger) (kept : List Block) : Prop where
  stored : l.blocks.entries = kept.map fun b => (b.id.index, b.id.hash)
  counters : ∀ k n, l.tally kept k = some n →
    (l.counted k.name).value = min n Count.greatest

theorem mirrors_empty : ({} : Ledger).Mirrors [] where
  stored := rfl
  counters k n eq := by
    cases k <;> cases eq <;> decide

/-! ## Batches

A fresh batch counts as new what the ledger does not have. That is all the counter of seen
accounts rests on. -/

/-- The changes of a block on top of a ledger: there is one for each holding, which says
whether the holding had a balance before. -/
structure Fresh (l : Ledger) (cs : List Change) : Prop where
  distinct : (cs.map (·.holding)).Nodup
  isNew : ∀ c ∈ cs, c.isNew = !l.balances.contains c.holding

/-- The new holdings among the changes are as many as records are added. -/
theorem Fresh.length_foldl_put {cs : List Change} : ∀ {l : Ledger}, l.Fresh cs →
    (cs.foldl (fun l c => l.put c.holding ⟨c.value, c.block⟩) l).balances.entries.length =
      l.balances.entries.length + cs.countP (·.isNew) := by
  induction cs with
  | nil => exact fun _ => rfl
  | cons c cs ih =>
    intro l fresh
    obtain ⟨distinct, isNew⟩ := fresh
    rw [List.map_cons, List.nodup_cons] at distinct
    rw [List.forall_mem_cons] at isNew
    have later : (l.put c.holding ⟨c.value, c.block⟩).Fresh cs := by
      refine ⟨distinct.2, fun c' mem => ?_⟩
      have other : c'.holding ≠ c.holding := fun same =>
        distinct.1 (same ▸ List.mem_map_of_mem mem)
      rw [isNew.2 c' mem, Table.contains, Table.contains, put, Table.find?_insert, if_neg other]
    rw [List.foldl_cons, ih later, List.countP_cons, isNew.1]
    show (l.balances.insert c.holding _).entries.length + _ = _
    rw [Table.length_insert]
    cases l.balances.contains c.holding
    · simp
      omega
    · simp

/-- The batch of a block raises each counter by what it adds to the ledger. -/
theorem tally_apply {cs : List Change} (fresh : l.Fresh cs) (tally : l.tally kept k = some n) :
    ∃ more, (l.apply (Batch.changing b cs)).tally (kept ++ [b]) k = some (n + more) ∧
      (Batch.changing b cs).total k.name = min more Count.greatest := by
  have one : min 1 Count.greatest = 1 := by decide
  -- Seen accounts are the only tally that is read off the balances: it grows by the changes of
  -- holdings not there before.
  have seen : (l.apply (Batch.changing b cs)).balances.entries.length =
      l.balances.entries.length + cs.countP (·.isNew) := by
    rw [← fresh.length_foldl_put, balances_apply, balances_foldl_put, Batch.changing_changes]
  cases k with
  | blocks =>
    cases tally
    refine ⟨1, by simp [Ledger.tally], ?_⟩
    unfold Batch.changing
    split <;> simp [Batch.total, Batch.ofBlock, Batch.count, Counter.name, one] <;> rfl
  | transactions =>
    cases tally
    refine ⟨b.transactions.length, by simp [Ledger.tally], ?_⟩
    unfold Batch.changing
    split <;> simp [Batch.total, Batch.ofBlock, Batch.count, Counter.name, Count.ofNat]
  | operations =>
    cases tally
    refine ⟨b.operationCount, by simp [Ledger.tally], ?_⟩
    unfold Batch.changing
    split <;> simp [Batch.total, Batch.ofBlock, Batch.count, Counter.name, Count.ofNat]
  | seenAccounts =>
    cases tally
    refine ⟨cs.countP (·.isNew), congrArg some seen, ?_⟩
    unfold Batch.changing
    split
    · next none_ => simp [none_, Batch.total, Batch.ofBlock, Counter.name]
    · next added some_ =>
      simp [Batch.total, Batch.ofBlock, Batch.count, Counter.name, Count.ofNat]
  | _ => cases tally

namespace Mirrors

/-- **A block that is taken over** is one more, and so are its transactions, operations
and new holdings. -/
theorem apply {cs : List Change} (mirrors : l.Mirrors kept) (fresh : l.Fresh cs)
    (accepted : Store.extends? l b.id = .ok ()) :
    (l.apply (Batch.changing b cs)).Mirrors (kept ++ [b]) where
  stored := by
    -- A block that extends the head comes behind all others.
    have behind := Store.behind_of_extends accepted
    rw [blocks_apply, Batch.changing_block, Table.entries_insert_of_lt _ fun e mem =>
      Table.compare_int_lt.mpr (lt_of_head?_lt behind e mem), mirrors.stored, List.map_append]
    rfl
  counters k m eq := by
    obtain ⟨n, tally⟩ : ∃ n, l.tally kept k = some n := by
      cases k <;> first | exact ⟨_, rfl⟩ | cases eq
    obtain ⟨more, sum, total⟩ := tally_apply (b := b) fresh tally
    rw [sum] at eq
    cases eq
    rw [value_counted_apply, mirrors.counters k n tally, total]
    omega

/-- Checks raise other counters. -/
theorem increment (mirrors : l.Mirrors kept) (other : l.tally kept k = none) (amount : Count) :
    (l.increment k.name amount).Mirrors kept where
  stored := mirrors.stored
  counters k' n eq := by
    have apart : k'.name ≠ k.name := by
      intro same
      rw [Counter.name_injective same] at eq
      cases eq.symm.trans other
    rw [counted_increment, if_neg apart]
    exact mirrors.counters k' n eq

end Mirrors

/-! ## Manifests

A seeding enlists one holding after the other and counts those that were not there. -/

/-- One more listed holding, and how many had no record so far. -/
def enlist (genesis : BlockId) (p : Ledger × Nat) (s : Seed) : Ledger × Nat :=
  (p.1.put s.holding ⟨s.value, genesis⟩,
    if p.1.balances.contains s.holding then p.2 else p.2 + 1)

theorem seed_eq (l : Ledger) (seeds : List Seed) (genesis : BlockId) :
    l.seed seeds genesis =
      (seeds.foldl (enlist genesis) (l, 0)).1.increment Counter.seenAccounts.name
        (.ofNat (seeds.foldl (enlist genesis) (l, 0)).2) := rfl

/-- A holding that had no record is counted once, however often it is listed. -/
theorem length_foldl_enlist (seeds : List Seed) (genesis : BlockId) : ∀ p : Ledger × Nat,
    (seeds.foldl (enlist genesis) p).1.balances.entries.length + p.2 =
      p.1.balances.entries.length + (seeds.foldl (enlist genesis) p).2 := by
  induction seeds with
  | nil => exact fun p => rfl
  | cons s seeds ih =>
    intro p
    have later := ih (enlist genesis p s)
    have grown : (enlist genesis p s).1.balances.entries.length =
        p.1.balances.entries.length + if p.1.balances.contains s.holding then 0 else 1 :=
      Table.length_insert ..
    have counted : (enlist genesis p s).2 =
        p.2 + if p.1.balances.contains s.holding then 0 else 1 := by
      unfold enlist
      cases p.1.balances.contains s.holding <;> rfl
    rw [List.foldl_cons]
    omega

theorem counted_foldl_enlist (seeds : List Seed) (genesis : BlockId) (name : String) :
    ∀ p : Ledger × Nat, (seeds.foldl (enlist genesis) p).1.counted name = p.1.counted name := by
  induction seeds with
  | nil => exact fun p => rfl
  | cons s seeds ih => exact fun p => ih (enlist genesis p s)

/-- **A manifest** adds records, and those that are new are counted. -/
theorem Mirrors.seed (mirrors : l.Mirrors kept) (seeds : List Seed) (genesis : BlockId) :
    (l.seed seeds genesis).Mirrors kept where
  stored := by
    rw [blocks_seed]
    exact mirrors.stored
  counters k n eq := by
    have length := length_foldl_enlist seeds genesis (l, 0)
    have counted := fun name => counted_foldl_enlist seeds genesis name (l, 0)
    rw [seed_eq] at eq ⊢
    rw [counted_increment, counted, counted]
    by_cases seen : k = .seenAccounts
    · subst seen
      cases eq
      rw [if_pos rfl, Count.value_add, mirrors.counters .seenAccounts _ rfl]
      show min (min _ _ + min _ _) _ = _
      simp only [balances_increment]
      dsimp only at length
      omega
    · have apart : k.name ≠ Counter.seenAccounts.name :=
        fun same => seen (Counter.name_injective same)
      rw [if_neg apart]
      refine mirrors.counters k n ?_
      cases k <;> first | exact eq | exact absurd rfl seen

end Ledger

end BalanceAudit
