import BalanceAudit.Proofs.Omission

/-!
# Recorded balances are prefix sums

A history whose indices increase, with gaps or without, is recorded, and then operations
are left out of its blocks, any number of times.

- `Block.netThrough`: what the blocks up to an index add to a holding.
- `Recording.Running.Sums`: a running sum has that of every holding at every index:
  `Recording.Running.Sums.addBlock?` for one block, `Recording.exists_sums` for a
  history.
- `Block.lacking`: what is left of a block after many omissions:
  `Recording.blocks_leaveOutAll`. `Recording.countsLeftOut`: what was told of them.
- `Recording.answers_prefix_sums`: **the answers of a recorded chain**.
-/

namespace BalanceAudit

/-! ## Sums of blocks

The balance of a holding through an index is the sum over the blocks up to it. -/

namespace Block

variable {bs : List Block} {b : Block} {h : Holding} {i : Int}

/-- Every block has a greater index than those in front of it. -/
def Increasing (bs : List Block) : Prop := bs.Pairwise (·.id.index < ·.id.index)

instance (bs : List Block) : Decidable (Increasing bs) :=
  inferInstanceAs (Decidable (bs.Pairwise _))

/-- What the blocks up to an index add to a holding. -/
def netThrough (bs : List Block) (h : Holding) (i : Int) : ℚ :=
  ((bs.filter (·.id.index ≤ i)).map (·.net h)).sum

theorem Increasing.nodup (increasing : Increasing bs) : (bs.map (·.id.index)).Nodup :=
  List.pairwise_map.mpr (increasing.imp fun lt => lt.ne)

/-- Up to a block in the end, or behind it, that is everything. -/
theorem netThrough_of_le (all : ∀ b ∈ bs, b.id.index ≤ i) :
    netThrough bs h i = (bs.map (·.net h)).sum := by
  rw [netThrough, List.filter_eq_self.mpr (by simpa using all)]

/-- A later block adds nothing to it. -/
theorem netThrough_concat_of_lt (lt : i < b.id.index) :
    netThrough (bs ++ [b]) h i = netThrough bs h i := by
  have later : ¬b.id.index ≤ i := by omega
  rw [netThrough, List.filter_append, List.filter_singleton, netThrough]
  simp [later]

end Block

namespace Recording

/-! ## Running sums

By induction from the right, with exactness of every partial sum handed on. -/

namespace Running

variable {r r' : Running} {bs : List Block} {b : Block} {i : Int} {ds : List (Holding × Decimal)}

/-- A running sum has taken up the blocks: each holding has its sum over all of them,
and the balance recorded for an index is its sum up to there. -/
structure Sums (bs : List Block) (r : Running) : Prop where
  below : ∀ h i, (∀ b ∈ bs, b.id.index < i) → Below r.table h i
  total : ∀ h, ((r.balances.find? h).getD .zero).toRat = (bs.map (·.net h)).sum
  shown : ∀ h i, (valueAt r.table h i).toRat = Block.netThrough bs h i

theorem Sums.nil : Sums [] {} where
  below := fun _ _ _ _ found => nomatch found
  total := fun _ => Decimal.toRat_zero
  shown := fun _ _ => Decimal.toRat_zero

/-- Net changes of different holdings can be added if each one can. -/
theorem exists_foldlM_add? (distinct : (ds.map (·.1)).Nodup)
    (fits : ∀ h d, (h, d) ∈ ds → ∃ v, ((r.balances.find? h).getD .zero).add? d = some v) :
    ∃ r', ds.foldlM (·.add? i ·) r = some r' := by
  -- The holdings are different, so that a sum that was put in is not added to again.
  induction ds generalizing r with
  | nil => exact ⟨r, rfl⟩
  | cons e rest ih =>
    obtain ⟨k, d⟩ := e
    rw [List.map_cons, List.nodup_cons] at distinct
    obtain ⟨v, sum⟩ := fits k d List.mem_cons_self
    have added : r.add? i (k, d) = some ⟨r.balances.insert k v, ⟨k, i, v⟩ :: r.snapshots⟩ := by
      rw [add?, sum]
      rfl
    obtain ⟨r', run⟩ := ih (r := ⟨r.balances.insert k v, ⟨k, i, v⟩ :: r.snapshots⟩) distinct.2
      fun h d' mem => by
        have other : h ≠ k := by
          rintro rfl
          exact distinct.1 (List.mem_map.mpr ⟨_, mem, rfl⟩)
        rw [Table.find?_insert, if_neg other]
        exact fits h d' (List.mem_cons_of_mem _ mem)
    refine ⟨r', ?_⟩
    rw [List.foldlM_cons, added]
    exact run

/-- The net changes of one more block, behind all others. -/
theorem Sums.concat (sums : Sums bs r) (later : ∀ a ∈ bs, a.id.index < b.id.index)
    (deltas : b.deltas? = some ds) (takes : Takes b.id.index ds r r')
    (added : ∀ h, h ∈ ds.map (·.1) →
      ((r'.balances.find? h).getD .zero).toRat = (bs.map (·.net h)).sum + b.net h) :
    Sums (bs ++ [b]) r' := by
  have sum : ∀ h, ((bs ++ [b]).map (·.net h)).sum = (bs.map (·.net h)).sum + b.net h := by
    simp
  have silent : ∀ h, h ∉ ds.map (·.1) → b.net h = 0 := fun h unchanged =>
    Block.net_of_not_reports fun reports =>
      unchanged ((Block.mem_keys_deltas? deltas h).mpr reports)
  have total : ∀ h, ((r'.balances.find? h).getD .zero).toRat = ((bs ++ [b]).map (·.net h)).sum := by
    intro h
    rw [sum]
    by_cases changed : h ∈ ds.map (·.1)
    · exact added h changed
    · rw [(takes.others h changed).1, silent h changed, add_zero, sums.total]
  -- At the block itself a holding with a net change shows its new sum, and any other
  -- one what it showed before.
  have here : ∀ h, (valueAt r'.table h b.id.index).toRat = ((bs ++ [b]).map (·.net h)).sum := by
    intro h
    by_cases changed : h ∈ ds.map (·.1)
    · obtain ⟨⟨h, d⟩, mem, rfl⟩ := List.mem_map.mp changed
      obtain ⟨v, _, balance, value⟩ := takes.changed h d mem
      rw [← total, value, balance]
      rfl
    · rw [(takes.others h changed).2, sums.shown, sum, silent h changed, add_zero,
        Block.netThrough_of_le fun a mem => (later a mem).le]
  refine ⟨fun h i above => ?_, total, fun h i => ?_⟩
  · have last := above b (List.mem_append_right _ (List.mem_singleton_self b))
    exact (takes.below h).mono (by omega)
  -- Before the block nothing new shows; from there on its own sums do, since no block is later.
  · by_cases before : i < b.id.index
    · rw [takes.past h i before, sums.shown, Block.netThrough_concat_of_lt before]
    · have le : b.id.index ≤ i := by omega
      rw [(takes.below h).valueAt_eq le, here, Block.netThrough_of_le]
      intro a mem
      rcases List.mem_append.mp mem with mem | mem
      · exact (later a mem).le.trans le
      · rw [List.mem_singleton.mp mem]
        exact le

/-- **One more block.** Without rounding it can be added. -/
theorem Sums.addBlock? (sums : Sums bs r) (later : ∀ a ∈ bs, a.id.index < b.id.index)
    (exact_ : Block.ExactHistory (bs ++ [b])) :
    ∃ r', r.addBlock? b = some r' ∧ Sums (bs ++ [b]) r' := by
  obtain ⟨ds, deltas, nets⟩ := Block.deltas?_exact
    (exact_.within b (List.mem_append_right _ (List.mem_singleton_self b)))
  have distinct := Block.nodup_deltas? deltas
  -- Every delta fits because the longer history's totals are exact.
  have fits : ∀ h d, (h, d) ∈ ds → ∃ v, ((r.balances.find? h).getD .zero).add? d = some v ∧
      v.toRat = (bs.map (·.net h)).sum + b.net h := by
    intro h d mem
    have total := exact_.total h
    rw [List.map_append, List.sum_append, List.map_singleton, List.sum_singleton, ← nets h d mem,
      ← sums.total h] at total
    obtain ⟨v, added, value⟩ := Decimal.add?_exact total
    refine ⟨v, added, ?_⟩
    rw [value, nets h d mem, sums.total]
  obtain ⟨r', run⟩ := exists_foldlM_add? (i := b.id.index) distinct fun h d mem =>
    (fits h d mem).imp fun _ fits => fits.1
  have takes : Takes b.id.index ds r r' := foldlM_add? distinct run
    (fun h => sums.below h _ fun a mem => by have := later a mem; omega)
    fun h _ => sums.below h _ later
  refine ⟨r', ?_, sums.concat later deltas takes fun h changed => ?_⟩
  · rw [Running.addBlock?, deltas]
    exact run
  · obtain ⟨⟨h, d⟩, mem, rfl⟩ := List.mem_map.mp changed
    obtain ⟨v, sum, value⟩ := fits h d mem
    obtain ⟨w, sum', balance, _⟩ := takes.changed h d mem
    rw [sum] at sum'
    cases sum'
    rw [balance]
    exact value

end Running

variable {bs : List Block} {network : Network} {omissions : List (Int × (Operation → Bool))}

/-- **A whole history.** The induction is on the blocks, one more at the end. -/
theorem exists_sums (increasing : Block.Increasing bs) (exact_ : Block.ExactHistory bs) :
    ∃ r, bs.foldlM Running.addBlock? {} = some r ∧ r.Sums bs := by
  induction bs using List.reverseRecOn with
  | nil => exact ⟨{}, rfl, .nil⟩
  | append_singleton bs b ih =>
    obtain ⟨earlier, _, later⟩ := List.pairwise_append.mp increasing
    obtain ⟨r, run, sums⟩ := ih earlier exact_.left
    have behind : ∀ a ∈ bs, a.id.index < b.id.index := fun a mem =>
      later a mem b (List.mem_singleton_self b)
    obtain ⟨r', last, sums'⟩ := sums.addBlock? behind exact_
    refine ⟨r', ?_, sums'⟩
    rw [List.foldlM_append, run]
    exact congrArg (· >>= pure) last

/-- A history of which no sum is rounded is recorded. -/
theorem exists_ofHistory? (network : Network) (increasing : Block.Increasing bs)
    (exact_ : Block.ExactHistory bs) : ∃ r s, ofHistory? network bs = some r ∧ r.blocks = bs ∧
      r.balances.foldl record ∅ = Running.table s ∧ s.Sums bs := by
  obtain ⟨s, run, sums⟩ := exists_sums increasing exact_
  refine ⟨⟨network, bs, s.snapshots.reverse⟩, s, ?_, rfl, rfl, sums⟩
  rw [ofHistory?, run]
  rfl

end Recording

/-! ## Many omissions

Omissions act on one block each; several on one block act as one that leaves out whatever
any of them does. -/

/-- Whether an operation of the block at an index is left out by one of them. -/
def Recording.omits (omissions : List (Int × (Operation → Bool))) (index : Int)
    (op : Operation) : Bool :=
  omissions.any fun o => o.1 = index && o.2 op

namespace Block

variable {b : Block} {i : Int} {chosen : Operation → Bool}

/-- The block without the operations that are left out of it. -/
def lacking (omissions : List (Int × (Operation → Bool))) (b : Block) : Block :=
  { b with
    transactions := b.transactions.map (Recording.without (Recording.omits omissions b.id.index)) }

theorem lacking_eq_of_omits {omissions : List (Int × (Operation → Bool))}
    (same : Recording.omits omissions b.id.index = chosen) :
    b.lacking omissions =
      { b with transactions := b.transactions.map (Recording.without chosen) } := by
  rw [lacking, same]

/-- Of no omission, or of omissions at other indices, a block lacks nothing. -/
theorem lacking_eq_self {omissions : List (Int × (Operation → Bool))}
    (other : ∀ o ∈ omissions, o.1 ≠ b.id.index) : b.lacking omissions = b := by
  have none : Recording.omits omissions b.id.index = fun _ => false := by
    funext op
    rw [Recording.omits, List.any_eq_false]
    intro o mem
    simp [other o mem]
  have all : ∀ t, Recording.without (fun _ => false) t = t := by
    simp [Recording.without]
  rw [lacking_eq_of_omits none, List.map_id'' all]

/-- Omissions leave out what each of them does. -/
theorem lacking_lacking (o : Int × (Operation → Bool)) (rest : List (Int × (Operation → Bool)))
    (b : Block) : (b.lacking [o]).lacking rest = b.lacking (o :: rest) := by
  have both : ∀ t, Recording.without (Recording.omits rest b.id.index)
      (Recording.without (Recording.omits [o] b.id.index) t) =
        Recording.without (Recording.omits (o :: rest) b.id.index) t := by
    intro t
    simp [Recording.without, Recording.omits, List.filter_filter, Bool.and_comm]
  simp [lacking, both]

theorem operations_map_without (b : Block) (chosen : Operation → Bool) :
    operations { b with transactions := b.transactions.map (Recording.without chosen) } =
      b.operations.filter (!chosen ·) := by
  rw [operations, operations, List.filter_flatMap, List.flatMap_map]
  rfl

/-- The operations that are left, and those that are not. -/
theorem operationCount_map_without (b : Block) (chosen : Operation → Bool) :
    b.operations.countP chosen +
      operationCount { b with transactions := b.transactions.map (Recording.without chosen) } =
        b.operationCount := by
  rw [operationCount, operations_map_without, operationCount, ← List.countP_eq_length_filter,
    List.length_eq_countP_add_countP chosen]
  simp

end Block

namespace Recording

variable {bs : List Block} {network : Network} {omissions : List (Int × (Operation → Bool))}
  {r : Recording} {c : Chain}

/-- How many operations were left out each time. -/
def countsLeftOut : List (Int × (Operation → Bool)) → Recording → List Nat
  | [], _ => []
  | o :: rest, r => (r.leaveOut o.1 o.2).1 :: countsLeftOut rest (r.leaveOut o.1 o.2).2

/-- Of blocks with different indices, only the one at the index lacks something. -/
theorem leaveOutFrom_eq (index : Int) (chosen : Operation → Bool)
    (distinct : (bs.map (·.id.index)).Nodup) :
    (leaveOutFrom index chosen bs).2 = bs.map (Block.lacking [(index, chosen)]) := by
  induction bs with
  | nil => rfl
  | cons b rest ih =>
    rw [List.map_cons, List.nodup_cons] at distinct
    rw [leaveOutFrom, List.map_cons]
    split
    · next here =>
      have chosen_here : omits [(index, chosen)] b.id.index = chosen := by
        funext op
        simp [omits, here]
      -- Indices are distinct, so the choice leaves all blocks behind this one alone.
      have others : rest.map (Block.lacking [(index, chosen)]) = rest := by
        have each : ∀ a ∈ rest, a.lacking [(index, chosen)] = a := by
          intro a mem
          have other : index ≠ a.id.index := fun same =>
            distinct.1 (List.mem_map.mpr ⟨a, mem, same.symm.trans here.symm⟩)
          exact Block.lacking_eq_self (by simpa using other)
        rw [List.map_congr_left each, List.map_id']
      rw [Block.lacking_eq_of_omits chosen_here, others]
    · next elsewhere =>
      rw [Block.lacking_eq_self (by simpa using Ne.symm elsewhere)]
      exact congrArg (b :: ·) (ih distinct.2)

/-- What is told of an omission are the operations that are missing then. -/
theorem leaveOutFrom_count (index : Int) (chosen : Operation → Bool) (bs : List Block) :
    (leaveOutFrom index chosen bs).1 +
      ((leaveOutFrom index chosen bs).2.map (·.operationCount)).sum =
        (bs.map (·.operationCount)).sum := by
  induction bs with
  | nil => rfl
  | cons b rest ih =>
    rw [leaveOutFrom]
    split
    -- Only the first block at the index loses operations; the count stops there.
    · have here := b.operationCount_map_without chosen
      simp only [List.map_cons, List.sum_cons]
      omega
    · simp only [List.map_cons, List.sum_cons]
      omega

/-- **The blocks after many omissions.** -/
theorem blocks_leaveOutAll (distinct : (r.blocks.map (·.id.index)).Nodup) :
    (r.leaveOutAll omissions).blocks = r.blocks.map (Block.lacking omissions) := by
  induction omissions generalizing r with
  | nil =>
    have nothing : ∀ b : Block, b.lacking [] = b := fun b => Block.lacking_eq_self (by simp)
    exact (List.map_id'' nothing r.blocks).symm
  | cons o rest ih =>
    have once : (r.leaveOut o.1 o.2).2.blocks = r.blocks.map (Block.lacking [o]) :=
      leaveOutFrom_eq o.1 o.2 distinct
    show ((r.leaveOut o.1 o.2).2.leaveOutAll rest).blocks = _
    rw [ih (by rw [once, List.map_map]; exact distinct), once, List.map_map]
    exact List.map_congr_left fun b _ => Block.lacking_lacking o rest b

/-- All that was told of them is missing. -/
theorem countsLeftOut_sum (omissions : List (Int × (Operation → Bool))) (r : Recording) :
    (countsLeftOut omissions r).sum +
      ((r.leaveOutAll omissions).blocks.map (·.operationCount)).sum =
        (r.blocks.map (·.operationCount)).sum := by
  induction omissions generalizing r with
  | nil => simp [countsLeftOut, leaveOutAll]
  | cons o rest ih =>
    have once : (r.leaveOut o.1 o.2).1 +
        ((r.leaveOut o.1 o.2).2.blocks.map (·.operationCount)).sum =
          (r.blocks.map (·.operationCount)).sum := leaveOutFrom_count o.1 o.2 r.blocks
    have later := ih (r.leaveOut o.1 o.2).2
    show (countsLeftOut (o :: rest) r).sum +
      (((r.leaveOut o.1 o.2).2.leaveOutAll rest).blocks.map (·.operationCount)).sum = _
    rw [countsLeftOut, List.sum_cons]
    omega

end Recording

/-! ## Answers

What the chain serves is read off the two tables: blocks by index, balances by the last
entry. -/

/-- A chain answers for a history of which operations were left out: the balances are
the sums of everything that happened, and the blocks lack what was left out. -/
structure Chain.AnswersFor (c : Chain) (bs : List Block)
    (omissions : List (Int × (Operation → Bool))) : Prop where
  balance : ∀ b ∈ bs, ∀ h, ∃ v, c.node.balance h (some b.id) () =
    (.replied (.ok (b.id, v)), ()) ∧ v.toRat = Block.netThrough bs h b.id.index
  tip : ∀ b, bs.getLast? = some b → ∀ h, ∃ v, c.node.balance h none () =
    (.replied (.ok (b.id, v)), ()) ∧ v.toRat = Block.netThrough bs h b.id.index
  unknown : ∀ id, id ∉ bs.map (·.id) → ∀ h, c.node.balance h (some id) () =
    (.replied (.error (.notFound ("block " ++ id.toText))), ())
  block : ∀ b ∈ bs, c.node.block b.id.index () = (.replied (.ok (some (b.lacking omissions))), ())
  missing : ∀ i, i ∉ bs.map (·.id.index) → c.node.block i () = (.replied (.ok none), ())

namespace Recording

variable {bs : List Block} {network : Network} {omissions : List (Int × (Operation → Bool))}
  {r : Recording} {c : Chain}

/-- A chain serves blocks with increasing indices one for one. -/
theorem entries_of_chain (served : r.chain = .ok c) (increasing : Block.Increasing r.blocks) :
    c.blocks.entries = r.blocks.map fun b => (b.id.index, b) := by
  have ordered : (r.blocks.map fun b => (b.id.index, b)).Pairwise
      fun a b => compare a.1 b.1 = .lt :=
    List.pairwise_map.mpr (increasing.imp fun lt => Table.compare_int_lt.mpr lt)
  rw [(blocks_of_chain served).2]
  exact congrArg Table.entries (Table.ofList_entries ⟨_, ordered⟩)

theorem balanceAt_of_chain {s : Running} (served : r.chain = .ok c)
    (table : r.balances.foldl record ∅ = s.table) (h : Holding) (i : Int) :
    c.balanceAt h i = valueAt s.table h i := by
  rw [Chain.balanceAt, balances_of_chain served, table]
  rfl

/-- With the sums of a history and its blocks, less what was left out, a chain answers
for it. -/
theorem answersFor_of_chain {s : Running} (served : r.chain = .ok c)
    (increasing : Block.Increasing bs) (sums : s.Sums bs)
    (table : r.balances.foldl record ∅ = s.table)
    (blocks : r.blocks = bs.map (·.lacking omissions)) : c.AnswersFor bs omissions := by
  have entries : c.blocks.entries = bs.map fun b => (b.id.index, b.lacking omissions) := by
    rw [entries_of_chain served (by rw [blocks]; exact List.pairwise_map.mpr increasing), blocks,
      List.map_map]
    rfl
  have found : ∀ b ∈ bs, c.blocks.find? b.id.index = some (b.lacking omissions) := by
    intro b mem
    rw [Table.find?_eq_some_iff, entries]
    exact List.mem_map.mpr ⟨b, mem, rfl⟩
  -- Nothing else is found.
  have only : ∀ i x, c.blocks.find? i = some x → ∃ b ∈ bs, b.id.index = i ∧ x.id = b.id := by
    intro i x found
    rw [Table.find?_eq_some_iff, entries] at found
    obtain ⟨b, mem, eq⟩ := List.mem_map.mp found
    cases eq
    exact ⟨b, mem, rfl, rfl⟩
  have value : ∀ h i, (c.balanceAt h i).toRat = Block.netThrough bs h i := fun h i => by
    rw [balanceAt_of_chain served table, sums.shown]
  refine ⟨fun b mem h => ⟨_, ?_, value h b.id.index⟩, fun b last h => ⟨_, ?_, value h b.id.index⟩,
    fun id strange h => ?_, fun b mem => ?_, fun i strange => ?_⟩
  · have same : (b.lacking omissions).id = b.id := rfl
    show (Answer.replied (c.balance h (some b.id)), ()) = _
    rw [Chain.balance, found b mem]
    exact congrArg (Answer.replied ·, ()) (if_pos same)
  · have tip : c.blocks.last? = some (b.id.index, b.lacking omissions) := by
      rw [Table.last?, entries, List.getLast?_map, last]
      rfl
    obtain ⟨first, genesis⟩ : ∃ first, c.blocks.first? = some first := by
      cases first : c.blocks.first? with
      | some e => exact ⟨e, rfl⟩
      | none =>
        rw [Table.first?, List.head?_eq_none_iff] at first
        rw [Table.last?, first] at tip
        cases tip
    show (Answer.replied (c.balance h none), ()) = _
    rw [Chain.balance, Chain.bounds, genesis, tip]
    rfl
  · show (Answer.replied (c.balance h (some id)), ()) = _
    rw [Chain.balance]
    split
    · next x there =>
      obtain ⟨b, mem, _, same⟩ := only _ x there
      have other : x.id ≠ id := fun eq => strange (List.mem_map.mpr ⟨b, mem, same.symm.trans eq⟩)
      rw [if_neg other]
    · rfl
  · show (Answer.replied (.ok (c.blocks.find? b.id.index)), ()) = _
    rw [found b mem]
  · show (Answer.replied (.ok (c.blocks.find? i)), ()) = _
    cases there : c.blocks.find? i with
    | none => rfl
    | some x =>
      obtain ⟨b, mem, index, _⟩ := only i x there
      exact absurd (List.mem_map.mpr ⟨b, mem, index⟩) strange

/-- **A recorded chain answers with the sums of what happened**, whatever is left out of
its blocks. A history of which no sum is rounded is recorded. It is refused if it has no
blocks; else the chain answers for it, and as many operations are missing from the blocks
that it serves as was told. -/
theorem answers_prefix_sums (network : Network) (increasing : Block.Increasing bs)
    (exact_ : Block.ExactHistory bs) (omissions : List (Int × (Operation → Bool))) :
    ∃ r, ofHistory? network bs = some r ∧
      (bs = [] → (r.leaveOutAll omissions).chain = .error (.recording "chain has no blocks")) ∧
      (bs ≠ [] → ∃ c, (r.leaveOutAll omissions).chain = .ok c ∧ c.AnswersFor bs omissions ∧
        (countsLeftOut omissions r).sum + (c.blocks.values.map (·.operationCount)).sum =
          (bs.map (·.operationCount)).sum) := by
  obtain ⟨r, s, recorded, same, table, sums⟩ := exists_ofHistory? network increasing exact_
  refine ⟨r, recorded, ?_⟩
  have blocks : (r.leaveOutAll omissions).blocks = bs.map (·.lacking omissions) := by
    rw [blocks_leaveOutAll (by rw [same]; exact increasing.nodup), same]
  constructor
  · rintro rfl
    rw [chain, blocks]
    rfl
  · intro some_blocks
    have there : (r.leaveOutAll omissions).blocks.isEmpty = false := by
      rw [blocks, List.isEmpty_map]
      exact List.isEmpty_eq_false_iff.mpr some_blocks
    obtain ⟨c, served⟩ : ∃ c, (r.leaveOutAll omissions).chain = .ok c := by
      rw [chain, there]
      exact ⟨_, rfl⟩
    -- Leaving operations out keeps the recorded balances: the node still answers with the whole
    -- history's.
    have balances : (r.leaveOutAll omissions).balances.foldl record ∅ = s.table := by
      rw [(leaveOutAll_keeps omissions r).1, table]
    have ordered : Block.Increasing (r.leaveOutAll omissions).blocks := by
      rw [blocks]
      exact List.pairwise_map.mpr increasing
    have values : c.blocks.values = (r.leaveOutAll omissions).blocks := by
      rw [Table.values, entries_of_chain served ordered, List.map_map]
      exact List.map_id _
    refine ⟨c, served, answersFor_of_chain served increasing sums balances blocks, ?_⟩
    rw [values, countsLeftOut_sum, same]

/-- Blocks 2, 5 and 9; one of them changes two holdings, and one none. Two omissions meet
at one operation, and two find nothing. -/
theorem answers_prefix_sums_gaps :
    let op : Holding → Nat → Operation := fun h n => ⟨n, h.account, ⟨.whole n, h.currency⟩⟩
    let bob : Holding := ⟨⟨"bob", none⟩, ⟨"BTC", 8⟩⟩
    let last : Block :=
      ⟨⟨9, "c"⟩, ⟨5, "b"⟩, [⟨"t", [op .alice 3, op .alice 4]⟩, ⟨"u", [op .alice 5]⟩]⟩
    let bs : List Block :=
      [⟨⟨2, "a"⟩, ⟨1, "z"⟩, [⟨"s", [op .alice 1, op bob 2]⟩]⟩, ⟨⟨5, "b"⟩, ⟨2, "a"⟩, []⟩, last]
    let omissions : List (Int × (Operation → Bool)) := [(9, fun o => o.index < 5),
      (9, fun o => o.index < 4), (4, fun _ => true), (2, fun o => o.account = bob.account)]
    Block.Increasing bs ∧ Block.ExactHistory bs ∧
      ∃ r, ofHistory? ⟨"bitcoin", "regtest"⟩ bs = some r ∧
        countsLeftOut omissions r = [2, 0, 0, 1] ∧
        ∃ c, (r.leaveOutAll omissions).chain = .ok c ∧ c.AnswersFor bs omissions ∧
          (∃ v, c.node.balance .alice none () = (.replied (.ok (⟨9, "c"⟩, v)), ()) ∧
            v.toRat = 13) ∧
          c.node.balance .alice (some ⟨4, "b"⟩) () =
            (.replied (.error (.notFound "block 4:b")), ()) ∧
          c.node.block 9 () = (.replied (.ok (some ⟨⟨9, "c"⟩, ⟨5, "b"⟩,
            [⟨"t", []⟩, ⟨"u", [op .alice 5]⟩]⟩)), ()) := by
  intro op bob last bs omissions
  have increasing : Block.Increasing bs := by decide
  have exact_ : Block.ExactHistory bs :=
    Block.exactHistory_of_places (k := 0) (by decide) (by decide) (by decide)
  obtain ⟨r, recorded, _, served⟩ :=
    answers_prefix_sums ⟨"bitcoin", "regtest"⟩ increasing exact_ omissions
  obtain ⟨c, chain, answers, _⟩ := served (List.cons_ne_nil _ _)
  refine ⟨increasing, exact_, r, recorded, ?_, c, chain, answers, ?_,
    answers.unknown _ (by decide) _, ?_⟩
  · obtain ⟨network, blocks, balances⟩ := r
    obtain rfl : blocks = bs := (ofHistory?_eq recorded).2.1
    rfl
  · obtain ⟨v, balance, value⟩ := answers.tip last rfl .alice
    have units : ((Block.amountsOf .alice ((bs.filter (·.id.index ≤ 9)).flatMap
        (·.operations))).map Decimal.units).sum = 13 := by decide
    rw [Block.netThrough, Block.sum_net, Decimal.sum_toRat_eq (k := 0) (by decide), units] at value
    refine ⟨v, balance, ?_⟩
    rw [value]
    norm_num
  · exact answers.block last (List.mem_cons_of_mem _ (List.mem_cons_of_mem _ List.mem_cons_self))

end Recording

end BalanceAudit
