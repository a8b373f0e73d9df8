import BalanceAudit.Proofs.Chain

/-!
# Recorded histories

What a recording of consecutive blocks answers.

- `Block.Consecutive`: blocks without gaps, a genesis block in front.
- `Chain.spans_of_consecutive`: the chain of such blocks has no gaps.
- `Chain.Follows`: the balances of a chain add up the net changes of blocks, one
  decimal addition after the other.
- `Recording.follows_of_ofHistory?`: those of a recorded history do.
- `Chain.AddsUp`: the chain has no gaps and its balances follow its own blocks, as
  in a history of which nothing was left out: `Recording.addsUp_of_ofHistory?`.
-/

namespace BalanceAudit

/-! ## Consecutive blocks -/

/-- The blocks have the indices from `genesis` on. Each points at the one before,
and the first one is a genesis block. -/
structure Block.Consecutive (bs : List Block) (genesis : Int) : Prop where
  index : ∀ (n : Nat) b, bs[n]? = some b → b.id.index = genesis + n
  start : ∀ b, bs[0]? = some b → b.isGenesis = true
  parent : ∀ (n : Nat) b p, bs[n + 1]? = some b → bs[n]? = some p → b.parent = p.id
  low : Index.least ≤ genesis
  high : genesis + bs.length - 1 ≤ Index.greatest

theorem Block.consecutive_iff {bs : List Block} {genesis : Int} : Block.Consecutive bs genesis ↔
    (∀ (n : Nat) (lt : n < bs.length), bs[n].id.index = genesis + n) ∧
      (∀ b ∈ bs.head?, b.isGenesis = true) ∧
      (∀ (n : Nat) (lt : n < bs.length - 1), bs[n + 1].parent = bs[n].id) ∧
      Index.least ≤ genesis ∧ genesis + bs.length - 1 ≤ Index.greatest := by
  constructor
  · rintro ⟨index, start, parent, low, high⟩
    refine ⟨fun n lt => index n _ (List.getElem?_eq_getElem lt), ?_, fun n lt => ?_, low, high⟩
    · rwa [List.head?_eq_getElem?]
    · exact parent n _ _ (List.getElem?_eq_getElem _) (List.getElem?_eq_getElem _)
  · rintro ⟨index, start, parent, low, high⟩
    refine ⟨fun n b found => ?_, ?_, fun n b p found before => ?_, low, high⟩
    · obtain ⟨lt, rfl⟩ := List.getElem?_eq_some_iff.mp found
      exact index n lt
    · rwa [List.head?_eq_getElem?] at start
    · obtain ⟨lt, rfl⟩ := List.getElem?_eq_some_iff.mp found
      obtain ⟨_, rfl⟩ := List.getElem?_eq_some_iff.mp before
      exact parent n (by omega)

instance (bs : List Block) (genesis : Int) : Decidable (Block.Consecutive bs genesis) :=
  decidable_of_iff _ Block.consecutive_iff.symm

namespace Block.Consecutive

variable {bs : List Block} {genesis : Int} {b : Block}

/-- Only identifiers and parents matter. -/
theorem congr (consecutive : Block.Consecutive bs genesis) {bs' : List Block}
    (same : bs'.map (fun b => (b.id, b.parent)) = bs.map fun b => (b.id, b.parent)) :
    Block.Consecutive bs' genesis := by
  have length : bs'.length = bs.length := by
    have lengths := congrArg List.length same
    rwa [List.length_map, List.length_map] at lengths
  -- The two lists agree place by place, in identifiers and parents alone.
  have other : ∀ (n : Nat) b', bs'[n]? = some b' →
      ∃ b, bs[n]? = some b ∧ b'.id = b.id ∧ b'.parent = b.parent := by
    intro n b' found
    have entry := congrArg (·[n]?) same
    simp only [List.getElem?_map, found, Option.map_some] at entry
    obtain ⟨b, found', eq⟩ := Option.map_eq_some_iff.mp entry.symm
    obtain ⟨id, parent⟩ := Prod.mk.inj eq
    exact ⟨b, found', id.symm, parent.symm⟩
  refine ⟨fun n b' found => ?_, fun b' found => ?_, fun n b' p' found found' => ?_,
    consecutive.low, by rw [length]; exact consecutive.high⟩
  · obtain ⟨b, found, id, _⟩ := other n b' found
    rw [id]
    exact consecutive.index n b found
  · obtain ⟨b, found, id, parent⟩ := other 0 b' found
    unfold Block.isGenesis
    rw [id, parent]
    exact consecutive.start b found
  · obtain ⟨b, found, _, parent⟩ := other (n + 1) b' found
    obtain ⟨p, found', id, _⟩ := other n p' found'
    rw [id, parent]
    exact consecutive.parent n b p found found'

theorem nodup (consecutive : Block.Consecutive bs genesis) : (bs.map (·.id.index)).Nodup := by
  refine List.pairwise_iff_getElem.mpr fun i j hi hj lt same => ?_
  rw [List.getElem_map, List.getElem_map] at same
  rw [List.length_map] at hi hj
  rw [consecutive.index i _ (List.getElem?_eq_getElem hi),
    consecutive.index j _ (List.getElem?_eq_getElem hj)] at same
  omega

end Block.Consecutive

namespace Chain

variable {c : Chain} {bs : List Block} {genesis : Int}
  (blocks : c.blocks = Table.ofList (bs.map fun b => (b.id.index, b)))
  (consecutive : Block.Consecutive bs genesis)

include blocks consecutive

/-- The chain serves every block at its place. -/
theorem find?_of_consecutive {i : Int} {b : Block} :
    c.blocks.find? i = some b ↔ ∃ n : Nat, bs[n]? = some b ∧ i = genesis + n := by
  rw [blocks]
  constructor
  · intro found
    obtain ⟨b', mem, eq⟩ := List.mem_map.mp (Table.mem_of_find?_ofList found)
    cases eq
    obtain ⟨n, found⟩ := List.getElem?_of_mem mem
    exact ⟨n, found, consecutive.index n b found⟩
  · rintro ⟨n, found, rfl⟩
    refine Table.find?_foldl_insert_of_mem _ ?_ ?_
    · rw [List.map_map]
      exact consecutive.nodup
    · refine List.mem_map.mpr ⟨b, List.mem_of_getElem? found, ?_⟩
      rw [consecutive.index n b found]

/-- **The chain of consecutive blocks has no gaps.** -/
theorem spans_of_consecutive : c.Spans genesis (genesis + bs.length - 1) where
  served := by
    intro i ge le
    obtain ⟨b, found⟩ : ∃ b, bs[(i - genesis).toNat]? = some b :=
      ⟨_, List.getElem?_eq_getElem (by omega)⟩
    have place : i = genesis + ((i - genesis).toNat : Int) := by omega
    refine ⟨b, (find?_of_consecutive blocks consecutive).mpr ⟨_, found, place⟩, ?_⟩
    rw [consecutive.index _ b found]
    omega
  parent := by
    intro i b p gt le found found'
    obtain ⟨n, here, rfl⟩ := (find?_of_consecutive blocks consecutive).mp found
    obtain ⟨n', there, before⟩ := (find?_of_consecutive blocks consecutive).mp found'
    obtain rfl : n = n' + 1 := by omega
    exact consecutive.parent n' b p here there
  start := by
    intro b found
    obtain ⟨n, here, place⟩ := (find?_of_consecutive blocks consecutive).mp found
    obtain rfl : n = 0 := by omega
    exact consecutive.start b here
  only := by
    intro i b found
    obtain ⟨n, here, rfl⟩ := (find?_of_consecutive blocks consecutive).mp found
    obtain ⟨lt, _⟩ := List.getElem?_eq_some_iff.mp here
    omega
  low := consecutive.low
  high := consecutive.high

end Chain

namespace Recording

variable {r : Recording} {c : Chain} {genesis : Int} {b : Block} {i : Int}

theorem blocks_of_chain (served : r.chain = .ok c) :
    r.blocks ≠ [] ∧ c.blocks = Table.ofList (r.blocks.map fun b => (b.id.index, b)) := by
  unfold chain at served
  split at served
  · cases served
  · next some =>
    cases served
    exact ⟨fun none => some (by rw [none]; rfl), rfl⟩

theorem network_of_chain (served : r.chain = .ok c) : c.network = r.network := by
  unfold chain at served
  split at served
  · cases served
  · cases served
    rfl

theorem balances_of_chain (served : r.chain = .ok c) :
    c.balances = r.balances.foldl record ∅ := by
  unfold chain at served
  split at served
  · cases served
  · cases served
    rfl

/-- Every block of a chain was recorded, and stands under its own index. -/
theorem mem_of_chain (served : r.chain = .ok c) (found : c.blocks.find? i = some b) :
    b ∈ r.blocks ∧ b.id.index = i := by
  rw [(blocks_of_chain served).2] at found
  obtain ⟨b', mem, eq⟩ := List.mem_map.mp (Table.mem_of_find?_ofList found)
  cases eq
  exact ⟨mem, rfl⟩

/-- No block of a chain lies in front of genesis. -/
theorem genesis_le {st : NetworkStatus} (served : r.chain = .ok c) (status : c.status = .ok st)
    (found : c.blocks.find? i = some b) :
    (∃ g ∈ r.blocks, g.id = st.genesis) ∧ st.genesis.index ≤ i := by
  unfold Chain.status Chain.bounds at status
  split at status
  · next i₀ g _ _ first? _ =>
    cases status
    have entry : (i₀, g) ∈ c.blocks.entries := List.mem_of_mem_head? first?
    obtain ⟨mem, index⟩ := mem_of_chain served (Table.find?_eq_some_iff.mpr entry)
    refine ⟨⟨g, mem, rfl⟩, ?_⟩
    show g.id.index ≤ i
    rw [index]
    rcases Table.eq_first?_or_lt (Table.find?_eq_some_iff.mp found) first? with same | lt
    · rw [(Prod.mk.inj same).1]
    · exact (Table.compare_int_lt.mp lt).le
  · cases status

/-! ## Balances of a history

Balances are recorded at increasing indices, so that a look-up finds the last one at or
before an index. -/

/-- The balance that a table of recorded balances shows at an index. -/
def valueAt (t : Table Holding (Table Int Decimal)) (h : Holding) (i : Int) : Decimal :=
  match (t.find? h).bind (·.atMost? i) with
  | some (_, value) => value
  | none => .zero

/-- No balance of the holding is recorded at `i` or behind it. -/
def Below (t : Table Holding (Table Int Decimal)) (h : Holding) (i : Int) : Prop :=
  ∀ ht, t.find? h = some ht → ∀ e ∈ ht.entries, e.1 < i

theorem Below.mono {t : Table Holding (Table Int Decimal)} {h : Holding} (below : Below t h i)
    {j : Int} (le : i ≤ j) : Below t h j := fun ht found e mem =>
  lt_of_lt_of_le (below ht found e mem) le

/-- Without later entries the balance stays. -/
theorem Below.valueAt_eq {t : Table Holding (Table Int Decimal)} {h : Holding}
    (below : Below t h (i + 1)) {j : Int} (le : i ≤ j) : valueAt t h j = valueAt t h i := by
  unfold valueAt
  cases found : t.find? h with
  | none => rfl
  | some ht =>
    have all : ∀ k, i ≤ k → ht.atMost? k = ht.entries.getLast? := by
      intro k le
      rw [Table.atMost?, List.takeWhile_eq_self_iff.mpr]
      intro e mem
      have := below ht found e mem
      have : e.1 ≤ k := by omega
      simpa [compare_gt_iff_gt] using this
    show (match ht.atMost? j with | some (_, value) => value | none => Decimal.zero) =
      match ht.atMost? i with | some (_, value) => value | none => Decimal.zero
    rw [all j le, all i (le_refl i)]

/-- A balance recorded behind all others of its holding is shown from there on;
every other balance stays. -/
theorem valueAt_record {t : Table Holding (Table Int Decimal)} {k : Holding} {v : Decimal}
    (below : Below t k i) (h : Holding) (j : Int) :
    valueAt (record t ⟨k, i, v⟩) h j = if h = k ∧ i ≤ j then v else valueAt t h j := by
  unfold valueAt record
  rw [Table.find?_insert]
  -- Only the recorded holding's own table changes, and there only from the index on.
  by_cases same : h = k
  · subst same
    rw [if_pos rfl]
    show (match (((t.find? h).getD ∅).insert i v).atMost? j with
      | some (_, value) => value | none => Decimal.zero) = _
    cases found : t.find? h with
    | none =>
      rw [Table.atMost?_insert_of_lt v fun e mem => absurd mem List.not_mem_nil]
      by_cases le : i ≤ j
      · rw [if_pos le, if_pos ⟨rfl, le⟩]
      · rw [if_neg le, if_neg fun both => le both.2]
        rfl
    | some ht =>
      rw [Option.getD_some, Table.atMost?_insert_of_lt v (below ht found)]
      by_cases le : i ≤ j
      · rw [if_pos le, if_pos ⟨rfl, le⟩]
      · rw [if_neg le, if_neg fun both => le both.2]
        rfl
  · rw [if_neg same, if_neg fun both => same both.1]

/-- It is the last one of its holding, and no other holding has a new one. -/
theorem Below.record {t : Table Holding (Table Int Decimal)} {k h : Holding} {v : Decimal}
    (below : Below t h (i + 1)) : Below (record t ⟨k, i, v⟩) h (i + 1) := by
  intro ht found e mem
  unfold Recording.record at found
  rw [Table.find?_insert] at found
  by_cases same : h = k
  · subst same
    rw [if_pos rfl] at found
    cases found
    rcases Table.mem_place mem with rfl | mem
    · exact Int.lt_add_one_of_le (le_refl i)
    · cases found : t.find? h with
      | none =>
        rw [found] at mem
        cases mem
      | some ht =>
        rw [found] at mem
        exact below ht found e mem
  · rw [if_neg same] at found
    exact below ht found e mem

/-- The recorded balances of a running sum. -/
def Running.table (r : Running) : Table Holding (Table Int Decimal) :=
  r.snapshots.reverse.foldl record ∅

theorem Running.table_add {r : Running} {k : Holding} {v : Decimal}
    {bs : Table Holding Decimal} :
    (Running.mk bs (⟨k, i, v⟩ :: r.snapshots)).table = record r.table ⟨k, i, v⟩ := by
  unfold Running.table
  rw [List.reverse_cons, List.foldl_append]
  rfl

/-- What the net changes `ds` of the block at `i` make of a running sum: each holding
that has one gets its sum, recorded at the block, and every other balance stays. -/
structure Running.Takes (i : Int) (ds : List (Holding × Decimal)) (r r' : Running) : Prop where
  below : ∀ h, Below r'.table h (i + 1)
  past : ∀ h j, j < i → valueAt r'.table h j = valueAt r.table h j
  others : ∀ h, h ∉ ds.map (·.1) → r'.balances.find? h = r.balances.find? h ∧
    valueAt r'.table h i = valueAt r.table h i
  changed : ∀ h d, (h, d) ∈ ds → ∃ v, ((r.balances.find? h).getD .zero).add? d = some v ∧
    r'.balances.find? h = some v ∧ valueAt r'.table h i = v

theorem Running.Takes.nil {r : Running} (bounded : ∀ h, Below r.table h (i + 1)) :
    Takes i [] r r where
  below := bounded
  past := fun _ _ _ => rfl
  others := fun _ _ => ⟨rfl, rfl⟩
  changed := fun _ _ mem => absurd mem List.not_mem_nil

/-- One net change in front, of a holding that has no other one. -/
theorem Running.Takes.cons {k : Holding} {d v : Decimal} {ds : List (Holding × Decimal)}
    {r r' : Running} (distinct : k ∉ ds.map (·.1)) (here : Below r.table k i)
    (sum : ((r.balances.find? k).getD .zero).add? d = some v)
    (takes : Takes i ds ⟨r.balances.insert k v, ⟨k, i, v⟩ :: r.snapshots⟩ r') :
    Takes i ((k, d) :: ds) r r' := by
  have recorded := valueAt_record (v := v) here
  refine ⟨takes.below, ?_, ?_, ?_⟩
  · intro h j lt
    rw [takes.past h j lt, table_add, recorded, if_neg fun both => absurd both.2 (by omega)]
  · intro h notMem
    rw [List.map_cons, List.mem_cons, not_or] at notMem
    obtain ⟨balance, value⟩ := takes.others h notMem.2
    rw [balance, value, table_add, recorded, if_neg fun both => notMem.1 both.1,
      Table.find?_insert, if_neg notMem.1]
    exact ⟨rfl, rfl⟩
  -- The delta in front is not touched again, since its holding is not among the rest.
  · intro h d' listed
    rcases List.mem_cons.mp listed with same | mem
    · cases same
      obtain ⟨balance, value⟩ := takes.others k distinct
      refine ⟨v, sum, ?_, ?_⟩
      · rw [balance, Table.find?_insert, if_pos rfl]
      · rw [value, table_add, recorded, if_pos ⟨rfl, le_refl i⟩]
    · have other : h ≠ k := by
        rintro rfl
        exact distinct (List.mem_map.mpr ⟨_, mem, rfl⟩)
      obtain ⟨v', sum', balance, value⟩ := takes.changed h d' mem
      rw [Table.find?_insert, if_neg other] at sum'
      exact ⟨v', sum', balance, value⟩

/-- **The net changes of one block**, added one after the other. A holding that has
got its balance at `i` gets no second one, so only the holdings still to come have
to lie below `i`. -/
theorem Running.foldlM_add? {ds : List (Holding × Decimal)} :
    ∀ {r r' : Running}, (ds.map (·.1)).Nodup → ds.foldlM (·.add? i ·) r = some r' →
      (∀ h, Below r.table h (i + 1)) → (∀ h ∈ ds.map (·.1), Below r.table h i) →
      Takes i ds r r' := by
  induction ds with
  | nil =>
    intro r _ _ run bounded _
    cases run
    exact .nil bounded
  | cons delta rest ih =>
    obtain ⟨k, d⟩ := delta
    intro r r' distinct run bounded below
    rw [List.map_cons, List.nodup_cons] at distinct
    rw [List.foldlM_cons, Option.bind_eq_bind, Option.bind_eq_some_iff] at run
    obtain ⟨mid, added, run⟩ := run
    unfold add? at added
    rw [Option.bind_eq_bind, Option.bind_eq_some_iff] at added
    obtain ⟨v, sum, eq⟩ := added
    cases eq
    refine .cons distinct.1 (below k List.mem_cons_self) sum (ih distinct.2 run ?_ ?_)
    · intro h
      rw [table_add]
      exact (bounded h).record
    -- Later deltas are of other holdings, so their tables still end below i.
    · intro h mem ht found
      have other : h ≠ k := by
        rintro rfl
        exact distinct.1 mem
      rw [table_add, record, Table.find?_insert, if_neg other] at found
      exact below h (List.mem_cons_of_mem _ mem) ht found

end Recording

/-! ## What the balances follow

By induction from the right: what was recorded for the blocks in front is not touched by the
last one. -/

/-- The balances of a chain add up the net changes of blocks from `genesis` on:
nothing before, and each block adds its own ones by one decimal addition each. -/
structure Chain.Follows (c : Chain) (bs : List Block) (genesis : Int) : Prop where
  before : ∀ h i, i < genesis → c.balanceAt h i = .zero
  deltas : ∀ (n : Nat) b, bs[n]? = some b → ∃ ds, b.deltas? = some ds ∧ ∀ h d, (h, d) ∈ ds →
    (c.balanceAt h (genesis + n - 1)).add? d = some (c.balanceAt h (genesis + n))
  stays : ∀ (n : Nat) b, bs[n]? = some b → ∀ h, b.reports h = false →
    c.balanceAt h (genesis + n) = c.balanceAt h (genesis + n - 1)

namespace Recording

variable {genesis : Int} {bs : List Block}

/-- A block of a longer history is an earlier one or the last one. -/
theorem getElem?_concat_cases {b b' : Block} {n : Nat} (found : (bs ++ [b])[n]? = some b') :
    n < bs.length ∧ bs[n]? = some b' ∨ n = bs.length ∧ b' = b := by
  by_cases lt : n < bs.length
  · rw [List.getElem?_append_left lt] at found
    exact .inl ⟨lt, found⟩
  · rw [List.getElem?_append_right (by omega), List.getElem?_singleton] at found
    split at found
    · cases found
      exact .inr ⟨by omega, rfl⟩
    · cases found

/-- A running sum has taken up the blocks from `genesis` on: the sum of a holding is
its recorded balance at the last one of them. -/
structure Running.Covers (genesis : Int) (bs : List Block) (r : Running) : Prop where
  below : ∀ h, Below r.table h (genesis + bs.length)
  sums : ∀ h, (r.balances.find? h).getD .zero = valueAt r.table h (genesis + bs.length - 1)
  follows : ∀ c : Chain, c.balances = r.table → c.Follows bs genesis

theorem Running.Covers.nil : Covers genesis [] {} where
  below := fun h ht found => (nomatch found)
  sums := fun h => rfl
  follows := by
    intro c eq
    refine ⟨fun h i _ => ?_, fun n b found => (nomatch found), fun n b found => (nomatch found)⟩
    rw [Chain.balanceAt, eq]
    rfl

/-- One more block at the end. -/
theorem Running.Covers.concat {b : Block} {ds : List (Holding × Decimal)} {r r' : Running}
    (covers : Covers genesis bs r) (deltas : b.deltas? = some ds)
    (takes : Takes (genesis + bs.length) ds r r') : Covers genesis (bs ++ [b]) r' := by
  have stays : ∀ h, valueAt r.table h (genesis + bs.length) =
      valueAt r.table h (genesis + bs.length - 1) := fun h =>
    Below.valueAt_eq (by rw [Int.sub_add_cancel]; exact covers.below h) (by omega)
  have length : genesis + (bs ++ [b]).length - 1 = genesis + bs.length := by
    rw [List.length_append, List.length_singleton]
    omega
  refine ⟨fun h => ?_, fun h => ?_, fun c eq => ?_⟩
  · rw [List.length_append, List.length_singleton, Nat.cast_add, ← Int.add_assoc]
    exact takes.below h
  · rw [length]
    by_cases mem : h ∈ ds.map (·.1)
    · obtain ⟨⟨h, d⟩, listed, rfl⟩ := List.mem_map.mp mem
      obtain ⟨v, _, balance, value⟩ := takes.changed h d listed
      rw [balance, value]
      rfl
    · obtain ⟨balance, value⟩ := takes.others h mem
      rw [balance, value, covers.sums, stays]
  -- The earlier blocks are followed because the balances at them have not changed.
  · have shown : ∀ h i, c.balanceAt h i = valueAt r'.table h i := fun h i => by
      rw [Chain.balanceAt, eq]
      rfl
    have earlier := covers.follows ⟨c.network, c.blocks, r.table⟩ rfl
    have same : ∀ h i, i < genesis + bs.length →
        c.balanceAt h i = Chain.balanceAt ⟨c.network, c.blocks, r.table⟩ h i :=
      fun h i lt => (shown h i).trans (takes.past h i lt)
    refine ⟨fun h i lt => ?_, fun n b' found => ?_, fun n b' found h silent => ?_⟩
    · rw [same h i (by omega)]
      exact earlier.before h i lt
    · rcases getElem?_concat_cases found with ⟨lt, found⟩ | ⟨rfl, rfl⟩
      · obtain ⟨ds, deltas, adds⟩ := earlier.deltas n b' found
        refine ⟨ds, deltas, fun h d mem => ?_⟩
        rw [same h _ (by omega), same h _ (by omega)]
        exact adds h d mem
      · refine ⟨ds, deltas, fun h d mem => ?_⟩
        obtain ⟨v, sum, _, value⟩ := takes.changed h d mem
        rw [shown h (genesis + bs.length), value, same h _ (by omega), ← sum, covers.sums]
        rfl
    · rcases getElem?_concat_cases found with ⟨lt, found⟩ | ⟨rfl, rfl⟩
      · rw [same h _ (by omega), same h _ (by omega)]
        exact earlier.stays n b' found h silent
      · have unchanged : h ∉ ds.map (·.1) := by
          rw [Block.mem_keys_deltas? deltas, silent]
          exact Bool.false_ne_true
        rw [shown, shown, (takes.others h unchanged).2, stays, takes.past h _ (by omega)]

/-- **The balances of a recorded history follow its operations.** The induction is
on the blocks, one more at the end. -/
theorem foldlM_addBlock? (index : ∀ (n : Nat) b, bs[n]? = some b → b.id.index = genesis + n) :
    ∀ {r : Running}, bs.foldlM Running.addBlock? {} = some r → r.Covers genesis bs := by
  -- From the right: what the blocks before have recorded is all below the last one's index.
  induction bs using List.reverseRecOn with
  | nil =>
    intro r run
    cases run
    exact .nil
  | append_singleton bs b ih =>
    intro r' run
    rw [List.foldlM_append, Option.bind_eq_bind, Option.bind_eq_some_iff] at run
    obtain ⟨r, run, last⟩ := run
    rw [List.foldlM_cons, Option.bind_eq_bind, Option.bind_eq_some_iff] at last
    obtain ⟨_, last, eq⟩ := last
    cases eq
    unfold Running.addBlock? at last
    rw [Option.bind_eq_bind, Option.bind_eq_some_iff] at last
    obtain ⟨ds, deltas, last⟩ := last
    have place : b.id.index = genesis + bs.length :=
      index bs.length b List.getElem?_concat_length
    rw [place] at last
    have covers : r.Covers genesis bs := ih (fun n b found => index n b (by
      rw [List.getElem?_append_left (List.getElem?_eq_some_iff.mp found).1]
      exact found)) run
    exact covers.concat deltas (Running.foldlM_add? (Block.nodup_deltas? deltas) last
      (fun h => (covers.below h).mono (by omega)) fun h _ => covers.below h)

theorem ofHistory?_eq {network : Network} {r : Recording} (eq : ofHistory? network bs = some r) :
    r.network = network ∧ r.blocks = bs ∧ ∃ s : Running, bs.foldlM Running.addBlock? {} = some s ∧
      r.balances.foldl record ∅ = s.table := by
  unfold ofHistory? at eq
  rw [Option.bind_eq_bind, Option.bind_eq_some_iff] at eq
  obtain ⟨s, run, eq⟩ := eq
  cases eq
  exact ⟨rfl, rfl, s, run, rfl⟩

theorem follows_of_ofHistory? {network : Network} {r r' : Recording} {c : Chain}
    (recorded : ofHistory? network bs = some r) (consecutive : Block.Consecutive bs genesis)
    (balances : r'.balances = r.balances) (served : r'.chain = .ok c) : c.Follows bs genesis := by
  obtain ⟨_, _, s, run, table⟩ := ofHistory?_eq recorded
  refine (foldlM_addBlock? consecutive.index run).follows c ?_
  rw [balances_of_chain served, balances, table]

end Recording

/-- A chain without gaps whose balances add up the net changes of its blocks, in
their order and by one decimal addition each. -/
structure Chain.AddsUp (c : Chain) (genesis tip : Int) : Prop where
  spans : c.Spans genesis tip
  before : ∀ h, c.balanceAt h (genesis - 1) = .zero
  deltas : ∀ i b, c.blocks.find? i = some b → ∃ ds, b.deltas? = some ds ∧ ∀ h d, (h, d) ∈ ds →
    (c.balanceAt h (i - 1)).add? d = some (c.balanceAt h i)
  stays : ∀ i b, c.blocks.find? i = some b → ∀ h, b.reports h = false →
    c.balanceAt h i = c.balanceAt h (i - 1)

/-- **A recorded history adds up**, whatever its sums are rounded to. -/
theorem Recording.addsUp_of_ofHistory? {genesis : Int} {bs : List Block} {network : Network}
    {r : Recording} {c : Chain} (recorded : ofHistory? network bs = some r)
    (consecutive : Block.Consecutive bs genesis) (served : r.chain = .ok c) :
    c.AddsUp genesis (genesis + bs.length - 1) := by
  obtain ⟨_, blocks, _⟩ := ofHistory?_eq recorded
  have follows := follows_of_ofHistory? recorded consecutive rfl served
  rw [← blocks] at consecutive follows ⊢
  have places := (blocks_of_chain served).2
  refine ⟨Chain.spans_of_consecutive places consecutive, fun h => follows.before h _ (by omega),
    ?_, ?_⟩
  · intro i b found
    obtain ⟨n, here, rfl⟩ := (Chain.find?_of_consecutive places consecutive).mp found
    exact follows.deltas n b here
  · intro i b found
    obtain ⟨n, here, rfl⟩ := (Chain.find?_of_consecutive places consecutive).mp found
    exact follows.stays n b here

end BalanceAudit
