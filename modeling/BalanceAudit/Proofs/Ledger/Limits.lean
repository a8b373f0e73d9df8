import BalanceAudit.Index
import BalanceAudit.Proofs.Ledger

/-!
# The limits of words in a ledger

Block indices are words of 64 bits and the decimals of a currency words of 32.
Whatever is read from a file keeps to that, and so does what batches and
manifests within the limits make of it.

- `BlockId.InLimits`, `Holding.InLimits`, `Batch.InLimits`, `Ledger.InLimits`.
- `Ledger.inLimits_of_ofJson?`: what was read is within the limits.
- `Ledger.InLimits.apply`, `Ledger.InLimits.increment`, `Ledger.InLimits.seed`:
  it stays within them.
-/

namespace BalanceAudit

/-- The index is a word. -/
def BlockId.InLimits (b : BlockId) : Prop := Index.InRange b.index

/-- The decimals of the currency are a word of 32 bits. -/
def Holding.InLimits (h : Holding) : Prop := h.currency.decimals < 2 ^ 32

instance (b : BlockId) : Decidable b.InLimits := inferInstanceAs (Decidable (Index.InRange _))

instance (h : Holding) : Decidable h.InLimits := inferInstanceAs (Decidable (_ < _))

/-- Everything that a batch puts in is within the limits. -/
structure Batch.InLimits (b : Batch) : Prop where
  block : b.block.InLimits
  changes : ∀ c ∈ b.changes, c.holding.InLimits ∧ c.block.InLimits

/-- Every index and every number of decimals is a word. -/
structure Ledger.InLimits (l : Ledger) : Prop where
  blocks : ∀ e ∈ l.blocks.entries, Index.InRange e.1
  balances : ∀ e ∈ l.balances.entries, e.1.InLimits ∧ e.2.block.InLimits

/-! ## What was read

Readers refuse what lies outside the limits. -/

namespace Json

variable {α : Type} {read : Json → Option α}

/-- What a list was read as came from one of its elements. -/
theorem mem_of_mapM {β : Type} {f : β → Option α} {bs : List β} {as : List α} {a : α}
    (h : bs.mapM f = some as) (mem : a ∈ as) : ∃ b ∈ bs, f b = some a := by
  induction bs generalizing as with
  | nil =>
    cases h
    cases mem
  | cons b bs ih =>
    rw [List.mapM_cons] at h
    cases first : f b with
    | none => rw [first] at h; cases h
    | some a' =>
      cases later : bs.mapM f with
      | none => rw [first, later] at h; cases h
      | some as' =>
        rw [first, later] at h
        cases h
        rcases List.mem_cons.mp mem with rfl | mem
        · exact ⟨b, List.mem_cons_self, first⟩
        · obtain ⟨b', mem', eq⟩ := ih later mem
          exact ⟨b', List.mem_cons_of_mem _ mem', eq⟩

/-- An item that was read came from one of the array. -/
theorem exists_of_mem_toList? {v : Json} {as : List α} {a : α} (h : v.toList? read = some as)
    (mem : a ∈ as) : ∃ item, read item = some a := by
  cases v with
  | array items =>
    obtain ⟨item, -, eq⟩ := mem_of_mapM h mem
    exact ⟨item, eq⟩
  | _ => cases h

/-- A field that was read came from the record. -/
theorem exists_of_required? {r : Record} {name : String} {a : α}
    (h : r.required? name read = some a) : ∃ v, read v = some a := by
  cases found : r.find? name with
  | none => rw [Record.required?, found] at h; cases h
  | some v => exact ⟨v, by rw [Record.required?, found] at h; exact h⟩

/-- An integer is read inside the limits only. -/
theorem toIntIn?_limits {low high i : Int} {v : Json} (h : toIntIn? low high v = some i) :
    low ≤ i ∧ i ≤ high := by
  cases v with
  | number n =>
    rw [toIntIn?] at h
    cases read : n.toInt? with
    | none => rw [read] at h; cases h
    | some i' =>
      rw [read] at h
      simp only [Option.bind_eq_bind, Option.bind_some] at h
      split at h
      · next within => cases h; exact within
      · cases h
  | _ => cases h

end Json

/-- A currency is read with its decimals inside the limits. -/
theorem Currency.lt_of_ofJson? {v : Json} {c : Currency} (h : ofJson? v = some c) :
    c.decimals < 2 ^ 32 := by
  simp only [ofJson?, Option.bind_eq_bind, Option.bind_eq_some_iff] at h
  obtain ⟨r, -, symbol, -, decimals, read, h⟩ := h
  cases h
  obtain ⟨_, word⟩ := Json.exists_of_required? read
  rw [Json.toNat32?, Json.toNatBelow?, Option.map_eq_some_iff] at word
  obtain ⟨i, word, rfl⟩ := word
  have limits := Json.toIntIn?_limits word
  show i.toNat < 2 ^ 32
  omega

/-- A holding is inside the limits if its currency is. -/
theorem Holding.inLimits_of_ofJson? {v : Json} {h : Holding} (read : ofJson? v = some h) :
    h.InLimits := by
  simp only [ofJson?, Option.bind_eq_bind, Option.bind_eq_some_iff] at read
  obtain ⟨r, -, account, -, currency, read, eq⟩ := read
  cases eq
  obtain ⟨v, read⟩ := Json.exists_of_required? read
  exact Currency.lt_of_ofJson? read

theorem BlockId.inLimits_of_ofJson? {v : Json} {b : BlockId} (h : ofJson? v = some b) :
    b.InLimits := by
  simp only [ofJson?, Option.bind_eq_bind, Option.bind_eq_some_iff] at h
  obtain ⟨r, -, index, read, hash, -, h⟩ := h
  cases h
  obtain ⟨v, read⟩ := Json.exists_of_required? read
  exact Json.toIntIn?_limits read

theorem Record.inLimits_of_ofJson? {v : Json} {r : Record} (h : ofJson? v = some r) :
    r.holding.InLimits ∧ r.balance.block.InLimits := by
  simp only [ofJson?, Option.bind_eq_bind, Option.bind_eq_some_iff] at h
  obtain ⟨fields, -, holding, holding_read, value, -, block, block_read, h⟩ := h
  cases h
  obtain ⟨_, holding_read⟩ := Json.exists_of_required? holding_read
  obtain ⟨_, block_read⟩ := Json.exists_of_required? block_read
  exact ⟨Holding.inLimits_of_ofJson? holding_read, BlockId.inLimits_of_ofJson? block_read⟩

theorem Seed.inLimits_of_ofJson? {v : Json} {s : Seed} (h : ofJson? v = some s) :
    s.holding.InLimits := by
  simp only [ofJson?, Option.bind_eq_bind, Option.bind_eq_some_iff] at h
  obtain ⟨r, -, holding, read, value, -, h⟩ := h
  cases h
  obtain ⟨_, read⟩ := Json.exists_of_required? read
  exact Holding.inLimits_of_ofJson? read

namespace Ledger

variable {l : Ledger}

/-- An empty ledger has nothing outside. -/
theorem inLimits_empty : ({} : Ledger).InLimits :=
  ⟨fun _ mem => (nomatch mem), fun _ mem => (nomatch mem)⟩

/-- Whatever was read is within the limits. -/
theorem inLimits_of_ofJson? {v : Json} (h : ofJson? v = some l) : l.InLimits := by
  simp only [ofJson?, Option.bind_eq_bind, Option.bind_eq_some_iff] at h
  obtain ⟨r, -, blocks, blocks_read, records, records_read, counters, -, h⟩ := h
  cases h
  obtain ⟨_, blocks_read⟩ := Json.exists_of_required? blocks_read
  obtain ⟨_, records_read⟩ := Json.exists_of_required? records_read
  refine ⟨fun ⟨i, hash⟩ mem => ?_, fun ⟨h, balance⟩ mem => ?_⟩
  · have listed := Table.mem_of_find?_ofList (Table.find?_eq_some_iff.mpr mem)
    obtain ⟨b, found, eq⟩ := List.mem_map.mp listed
    cases eq
    obtain ⟨_, read⟩ := Json.exists_of_mem_toList? blocks_read found
    exact BlockId.inLimits_of_ofJson? read
  · have listed := Table.mem_of_find?_ofList (Table.find?_eq_some_iff.mpr mem)
    obtain ⟨r, found, eq⟩ := List.mem_map.mp listed
    cases eq
    obtain ⟨_, read⟩ := Json.exists_of_mem_toList? records_read found
    exact Record.inLimits_of_ofJson? read

/-! ## What is written

Every way of writing to a ledger keeps it inside the limits. -/

namespace InLimits

/-- A balance is put for a holding inside the limits, at a block inside them. -/
theorem put (within : l.InLimits) {h : Holding} {b : Balance} (holding : h.InLimits)
    (block : b.block.InLimits) : (l.put h b).InLimits := by
  refine ⟨within.blocks, fun e mem => ?_⟩
  rcases Table.mem_place mem with rfl | mem
  · exact ⟨holding, block⟩
  · exact within.balances e mem

theorem increment (within : l.InLimits) (name : String) (amount : Count) :
    (l.increment name amount).InLimits :=
  ⟨within.blocks, within.balances⟩

/-- So are all changes of a batch. -/
theorem foldl_put {changes : List Change}
    (each : ∀ c ∈ changes, c.holding.InLimits ∧ c.block.InLimits) :
    ∀ l : Ledger, l.InLimits →
      (changes.foldl (fun l c => l.put c.holding ⟨c.value, c.block⟩) l).InLimits := by
  induction changes with
  | nil => exact fun l within => within
  | cons c cs ih =>
    intro l within
    have first := each c List.mem_cons_self
    exact ih (fun c' mem => each c' (List.mem_cons_of_mem _ mem)) _ (within.put first.1 first.2)

theorem foldl_increment (counts : List (String × Count)) :
    ∀ l : Ledger, l.InLimits → (counts.foldl (fun l c => l.increment c.1 c.2) l).InLimits := by
  induction counts with
  | nil => exact fun l within => within
  | cons c cs ih => exact fun l within => ih _ (within.increment c.1 c.2)

/-- A batch inside the limits is taken over. -/
theorem apply (within : l.InLimits) {b : Batch} (batch : b.InLimits) : (l.apply b).InLimits := by
  have rest := foldl_increment b.counts _ (foldl_put batch.changes l within)
  refine ⟨fun e mem => ?_, rest.balances⟩
  rcases Table.mem_place mem with rfl | mem
  · exact batch.block
  · exact rest.blocks e mem

/-- Seeds are put one after another, counting those that are new. -/
theorem foldl_seed {seeds : List Seed} {genesis : BlockId}
    (holdings : ∀ s ∈ seeds, s.holding.InLimits) (block : genesis.InLimits) :
    ∀ (l : Ledger) (added : Nat), l.InLimits →
      (seeds.foldl (fun (p : Ledger × Nat) s =>
        (p.1.put s.holding ⟨s.value, genesis⟩,
          if p.1.balances.contains s.holding then p.2 else p.2 + 1)) (l, added)).1.InLimits := by
  induction seeds with
  | nil => exact fun l _ within => within
  | cons s ss ih =>
    intro l added within
    exact ih (fun s' mem => holdings s' (List.mem_cons_of_mem _ mem)) _ _
      (within.put (holdings s List.mem_cons_self) block)

theorem seed (within : l.InLimits) {seeds : List Seed} {genesis : BlockId}
    (holdings : ∀ s ∈ seeds, s.holding.InLimits) (block : genesis.InLimits) :
    (l.seed seeds genesis).InLimits :=
  (foldl_seed holdings block l 0 within).increment _ _

end InLimits

end Ledger

end BalanceAudit
