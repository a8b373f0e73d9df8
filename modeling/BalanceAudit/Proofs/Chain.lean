import BalanceAudit.Recording
import BalanceAudit.Proofs.Block.Deltas
import BalanceAudit.Proofs.Served
import Mathlib.Data.List.Induction
import Mathlib.Data.List.Perm.Subperm

/-!
# Ranges of a chain

What a chain says of the blocks of a range, without a look at any run.

- `Chain.segment`: the blocks of a range; `Chain.Linked`: there is one for every
  index, each pointing at the one before; `Chain.Spans`: a chain from genesis on.
- `Chain.computed?`: the balance of a holding that the operations of a range
  lead to, from what the node reports just before its first touch.
- `Chain.Faulty`: a block at which that differs from the balance of the node.
- `Chain.Unexplained`: a block whose operations do not lead from the balance at
  the touch before to its own; `Chain.FirstFaulty.firstUnexplained` compares the
  two.
-/

namespace BalanceAudit

namespace Block

variable {h : Holding} {b : Block} {bs : List Block}

/-- The net changes of consecutive blocks on top of what there was before the
first block that names the holding; none if no block does. -/
def running? (opening : Block → ℚ) (h : Holding) (bs : List Block) : Option ℚ :=
  (bs.find? (·.reports h)).map fun b => opening b + (bs.map (·.net h)).sum

theorem net_eq_zero_of_find? (none : bs.find? (·.reports h) = none) :
    (bs.map (·.net h)).sum = 0 := by
  refine List.sum_eq_zero fun q mem => ?_
  obtain ⟨b, mem', rfl⟩ := List.mem_map.mp mem
  exact net_of_not_reports (List.find?_eq_none.mp none b mem')

/-- One more block adds its net change, to the opening balance if it is the
first to name the holding. -/
theorem running?_concat (opening : Block → ℚ) : running? opening h (bs ++ [b]) =
    if b.reports h then some ((running? opening h bs).getD (opening b) + b.net h)
    else running? opening h bs := by
  rw [running?, List.find?_append, List.map_append, List.sum_append, List.map_singleton,
    List.sum_singleton]
  by_cases reports : b.reports h = true
  · rw [if_pos reports, List.find?_singleton, if_pos reports]
    cases earlier : bs.find? (·.reports h) with
    | none => simp [running?, earlier, net_eq_zero_of_find? earlier]
    | some b' => simp [running?, earlier, add_assoc]
  · rw [if_neg reports, List.find?_singleton, if_neg reports, Option.or_none,
      net_of_not_reports reports, add_zero, running?]

end Block

namespace Chain

variable {c : Chain} {first last : Int} {h : Holding} {b : Block} {bs : List Block}

/-! ## Blocks of a range

The segment of a range grows at its end, which is how all inductions on it go. -/

/-- The blocks from `first` to `last`, in order. -/
def segment (c : Chain) (first last : Int) : List Block :=
  (List.range (last + 1 - first).toNat).filterMap fun n : Nat => c.blocks.find? (first + n)

theorem mem_segment : b ∈ c.segment first last ↔
    ∃ i, first ≤ i ∧ i ≤ last ∧ c.blocks.find? i = some b := by
  rw [segment, List.mem_filterMap]
  constructor
  · rintro ⟨n, mem, found⟩
    rw [List.mem_range] at mem
    exact ⟨first + n, by omega, by omega, found⟩
  · rintro ⟨i, ge, le, found⟩
    refine ⟨(i - first).toNat, List.mem_range.mpr (by omega), ?_⟩
    have index : first + ((i - first).toNat : Int) = i := by omega
    rwa [index]

/-- They are some of the blocks of the chain. -/
theorem segment_subperm (c : Chain) (first last : Int) :
    List.Subperm (c.segment first last) (c.blocks.entries.map (·.2)) := by
  let entry (n : Nat) := (c.blocks.find? (first + n)).map fun b => (first + (n : Int), b)
  have blocks : c.segment first last =
      ((List.range (last + 1 - first).toNat).filterMap entry).map (·.2) := by
    rw [segment, List.map_filterMap]
    refine List.filterMap_congr fun n _ => ?_
    rw [Option.map_map]
    exact (Option.map_id_apply).symm
  -- Different indices give different entries, each of them in the table.
  have some_ : List.Subperm ((List.range (last + 1 - first).toNat).filterMap entry)
      c.blocks.entries := by
    refine List.subperm_of_subset ?_ ?_
    · refine List.nodup_range.filterMap fun n n' e mem mem' => ?_
      obtain ⟨_, _, rfl⟩ := Option.map_eq_some_iff.mp mem
      obtain ⟨_, _, same⟩ := Option.map_eq_some_iff.mp mem'
      have := (Prod.mk.inj same).1
      omega
    · intro e mem
      obtain ⟨n, _, found⟩ := List.mem_filterMap.mp mem
      obtain ⟨b, here, rfl⟩ := Option.map_eq_some_iff.mp found
      exact Table.find?_eq_some_iff.mp here
  obtain ⟨part, perm, sub⟩ := some_
  rw [blocks]
  exact ⟨part.map (·.2), perm.map _, sub.map _⟩

theorem segment_of_lt (lt : last < first) : c.segment first last = [] := by
  have none_left : (last + 1 - first).toNat = 0 := by omega
  rw [segment, none_left, List.range_zero, List.filterMap_nil]

/-- One more block at the end. -/
theorem segment_concat (le : first ≤ last) (found : c.blocks.find? last = some b) :
    c.segment first last = c.segment first (last - 1) ++ [b] := by
  have more : (last + 1 - first).toNat = (last - 1 + 1 - first).toNat + 1 := by omega
  have here : first + ((last - 1 + 1 - first).toNat : Int) = last := by omega
  have one : [(last - 1 + 1 - first).toNat].filterMap
      (fun n : Nat => c.blocks.find? (first + n)) = [b] := by
    rw [List.filterMap_cons, here, found, List.filterMap_nil]
  rw [segment, more, List.range_succ, List.filterMap_append, one]
  rfl

/-- A range falls apart into two. -/
theorem segment_append {mid : Int} (le : first ≤ mid + 1) (le' : mid ≤ last) :
    c.segment first last = c.segment first mid ++ c.segment (mid + 1) last := by
  have more : (last + 1 - first).toNat =
      (mid + 1 - first).toNat + (last + 1 - (mid + 1)).toNat := by omega
  have shift : ∀ n : Nat, first + (((mid + 1 - first).toNat + n : Nat) : Int) = mid + 1 + n := by
    intro n
    omega
  rw [segment, segment, segment, more, List.range_add, List.filterMap_append, List.filterMap_map]
  congr 1
  refine List.filterMap_congr fun n _ => ?_
  show c.blocks.find? (first + (((mid + 1 - first).toNat + n : Nat) : Int)) = _
  rw [shift]

/-- Every index of the range has a block. Each block points at the one before,
and the first one is genesis or points at a block of the chain. -/
structure Linked (c : Chain) (first last : Int) : Prop where
  served : ∀ i, first ≤ i → i ≤ last → ∃ b, c.blocks.find? i = some b ∧ b.id.index = i
  parent : ∀ i b prev, first < i → i ≤ last → c.blocks.find? i = some b →
    c.blocks.find? (i - 1) = some prev → b.parent = prev.id
  start : ∀ b, first ≤ last → c.blocks.find? first = some b → b.isGenesis = true ∨ c.Has b.parent

namespace Linked

theorem sub (linked : c.Linked first last) {first' last' : Int} (le : first ≤ first')
    (le' : last' ≤ last) : c.Linked first' last' where
  served := fun i ge lt => linked.served i (by omega) (by omega)
  parent := fun i b prev gt lt => linked.parent i b prev (by omega) (by omega)
  start := by
    intro b le'' found
    by_cases same : first' = first
    · rw [same] at found
      exact linked.start b (by omega) found
    · obtain ⟨prev, before, _⟩ := linked.served (first' - 1) (by omega) (by omega)
      have parent := linked.parent first' b prev (by omega) (by omega) found before
      obtain ⟨p, found', index⟩ := linked.served (first' - 1) (by omega) (by omega)
      rw [before] at found'
      cases found'
      right
      rw [parent]
      exact ⟨prev, by rwa [index], rfl⟩

/-- Every block of the range is genesis or points at a block of the chain. -/
theorem opens (linked : c.Linked first last) {i : Int} (ge : first ≤ i) (le : i ≤ last)
    (found : c.blocks.find? i = some b) : b.isGenesis = true ∨ c.Has b.parent :=
  (linked.sub ge (le_refl last)).start b le found

theorem index (linked : c.Linked first last) {i : Int} (ge : first ≤ i) (le : i ≤ last)
    (found : c.blocks.find? i = some b) : b.id.index = i := by
  obtain ⟨b', found', same⟩ := linked.served i ge le
  rw [found] at found'
  cases found'
  exact same

theorem has (linked : c.Linked first last) {i : Int} (ge : first ≤ i) (le : i ≤ last)
    (found : c.blocks.find? i = some b) : c.Has b.id :=
  ⟨b, by rwa [linked.index ge le found], rfl⟩

end Linked

/-- The chain has exactly the blocks from `genesis` to `tip`, each pointing at the
one before, with a genesis block in front. -/
structure Spans (c : Chain) (genesis tip : Int) : Prop where
  served : ∀ i, genesis ≤ i → i ≤ tip → ∃ b, c.blocks.find? i = some b ∧ b.id.index = i
  parent : ∀ i b prev, genesis < i → i ≤ tip → c.blocks.find? i = some b →
    c.blocks.find? (i - 1) = some prev → b.parent = prev.id
  start : ∀ b, c.blocks.find? genesis = some b → b.isGenesis = true
  only : ∀ i b, c.blocks.find? i = some b → genesis ≤ i ∧ i ≤ tip
  low : Index.least ≤ genesis
  high : tip ≤ Index.greatest

theorem Spans.linked {genesis tip : Int} (spans : c.Spans genesis tip) :
    c.Linked genesis tip :=
  ⟨spans.served, spans.parent, fun b _ found => .inl (spans.start b found)⟩

/-- There is no block behind the tip. -/
theorem Spans.missing_next {genesis tip : Int} (spans : c.Spans genesis tip) :
    c.blocks.find? (tip + 1) = none := by
  cases found : c.blocks.find? (tip + 1) with
  | none => rfl
  | some b =>
    have := spans.only (tip + 1) b found
    omega

/-- The node names the first block as genesis. -/
theorem Spans.status {genesis tip : Int} (spans : c.Spans genesis tip) (le : genesis ≤ tip) :
    ∃ st, c.status = .ok st ∧ st.network = c.network ∧ st.genesis.index = genesis := by
  obtain ⟨b, found, _⟩ := spans.served genesis (le_refl _) le
  have mem := Table.find?_eq_some_iff.mp found
  have increasing := c.blocks.increasing
  obtain ⟨e, rest, split⟩ := List.exists_cons_of_ne_nil (List.ne_nil_of_mem mem)
  have first : c.blocks.first? = some e := by
    rw [Table.first?, split]
    rfl
  obtain ⟨l, last⟩ : ∃ l, c.blocks.last? = some l := by
    rw [Table.last?, split]
    exact ⟨_, List.getLast?_eq_some_getLast (List.cons_ne_nil e rest)⟩
  refine ⟨⟨c.network, e.2.id, l.2.id⟩, ?_, rfl, ?_⟩
  · unfold Chain.status bounds
    rw [first, last]
    rfl
  · show e.2.id.index = genesis
    have here : c.blocks.find? e.1 = some e.2 := by
      rw [Table.find?_eq_some_iff, split]
      exact List.mem_cons_self
    obtain ⟨ge, le'⟩ := spans.only e.1 e.2 here
    rw [spans.linked.index ge le' here]
    -- The keys increase, so that no other entry comes before genesis.
    rw [split] at mem increasing
    rcases List.mem_cons.mp mem with rfl | later
    · rfl
    · have lt := Table.compare_int_lt.mp ((List.pairwise_cons.mp increasing).1 _ later)
      have : e.1 < genesis := lt
      omega

/-! ## Balances of a range

The balance is folded over the blocks of a segment. A holding that none of them reports has
none. -/

/-- What the node reports of a holding just before a block: nothing before
genesis. -/
def opening (c : Chain) (b : Block) (h : Holding) : Decimal :=
  if b.isGenesis then .zero else c.balanceAt h b.parent.index

/-- In a chain without gaps that is the balance at the index before. -/
theorem Spans.opening_eq {genesis tip i : Int} (spans : c.Spans genesis tip) (ge : genesis ≤ i)
    (le : i ≤ tip) (found : c.blocks.find? i = some b) (h : Holding) :
    c.opening b h = if i = genesis then .zero else c.balanceAt h (i - 1) := by
  unfold opening
  by_cases start : i = genesis
  · subst start
    rw [if_pos (spans.start b found), if_pos rfl]
  · obtain ⟨p, before, index'⟩ := spans.served (i - 1) (by omega) (by omega)
    have index : b.id.index = i := spans.linked.index ge le found
    have parent := spans.parent i b p (by omega) le found before
    have later : ¬b.isGenesis = true := by
      unfold Block.isGenesis
      rw [parent, decide_eq_true_eq]
      omega
    rw [if_neg later, if_neg start, parent, index']

/-- The balance that the operations of consecutive blocks lead to, from the one
before the first block that names the holding; none if no block does. -/
def computed? (c : Chain) (h : Holding) (bs : List Block) : Option ℚ :=
  (bs.find? (·.reports h)).map fun b => (c.opening b h).toRat + (bs.map (·.net h)).sum

theorem computed?_concat : c.computed? h (bs ++ [b]) =
    if b.reports h then some ((c.computed? h bs).getD (c.opening b h).toRat + b.net h)
    else c.computed? h bs :=
  Block.running?_concat fun b => (c.opening b h).toRat

/-- No sum over the range has to be rounded. -/
structure ExactSums (c : Chain) (first last : Int) : Prop where
  within : ∀ i b, first ≤ i → i ≤ last → c.blocks.find? i = some b → b.SumsExact
  running : ∀ i h q, first ≤ i → i ≤ last → c.computed? h (c.segment first i) = some q →
    Decimal.Representable q

theorem ExactSums.sub {last' : Int} (exact_ : c.ExactSums first last) (le : last' ≤ last) :
    c.ExactSums first last' :=
  ⟨fun i b ge le' => exact_.within i b ge (by omega),
    fun i h q ge le' => exact_.running i h q ge (by omega)⟩

/-- All balances that the node knows, and the amounts of all operations. -/
def values (c : Chain) : List Decimal :=
  c.balances.entries.flatMap (fun e => e.2.entries.map (·.2)) ++
    Block.amountsIn (c.blocks.entries.map (·.2))

/-- What the node reports just before a block is nothing or a balance that it knows. -/
theorem opening_cases (c : Chain) (b : Block) (h : Holding) : c.opening b h = .zero ∨
    c.opening b h ∈ c.balances.entries.flatMap fun e => e.2.entries.map (·.2) := by
  unfold opening balanceAt
  split
  · exact .inl rfl
  · split
    · next i value found =>
      obtain ⟨t, held, latest⟩ := Option.bind_eq_some_iff.mp found
      have mem : (i, value) ∈ t.entries :=
        (List.takeWhile_sublist _).subset (List.mem_of_getLast? latest)
      refine .inr (List.mem_flatMap.mpr ⟨(h, t), Table.find?_eq_some_iff.mp held, ?_⟩)
      exact List.mem_map_of_mem mem
    · exact .inl rfl

/-- **Ranges have exact sums** if all values of the chain have the same number of places and
all of them together fit. -/
theorem exactSums_of_places {k : Nat} (places : ∀ x ∈ c.values, x.scale = k) (le : k ≤ 28)
    (small : (c.values.map (·.units.natAbs)).sum < 2 ^ 96) : c.ExactSums first last where
  within i b _ _ found h n := by
    have mem : b ∈ c.blocks.entries.map (·.2) :=
      List.mem_map_of_mem (Table.find?_eq_some_iff.mp found)
    exact Decimal.representable_sum_of_subperm ((List.take_sublist ..).subperm.trans
      ((Block.amounts_subperm mem h).trans (List.sublist_append_right ..).subperm)) places le small
  running i h q _ _ computed := by
    obtain ⟨b, _, rfl⟩ := Option.map_eq_some_iff.mp computed
    have amounts := Block.amountsOf_subperm (c.segment_subperm first i) h
    rw [Block.sum_net]
    rcases c.opening_cases b h with zero | known
    · rw [zero, Decimal.toRat_zero, zero_add]
      exact Decimal.representable_sum_of_subperm
        (amounts.trans (List.sublist_append_right ..).subperm) places le small
    · rw [← List.sum_cons, ← List.map_cons]
      refine Decimal.representable_sum_of_subperm ?_ places le small
      exact (List.singleton_sublist.mpr known).subperm.append amounts

/-! ## Blocks at fault

Two ways to find fault: a balance computed from the start of the range against the node's,
or each touch against the one before. At the first block they find the same. -/

/-- A block names a holding of `W` whose balance is not the one that the
operations from `first` on lead to. -/
def Faulty (c : Chain) (W : Holding → Prop) (first : Int) (b : Block) : Prop :=
  ∃ h, W h ∧ b.reports h = true ∧
    c.computed? h (c.segment first b.id.index) ≠ some (c.balanceAt h b.id.index).toRat

/-- Only holdings of its own operations can put a block at fault. -/
theorem faulty_iff {W : Holding → Prop} : c.Faulty W first b ↔ ∃ op ∈ b.operations, W op.holding ∧
    c.computed? op.holding (c.segment first b.id.index) ≠
      some (c.balanceAt op.holding b.id.index).toRat := by
  constructor
  · rintro ⟨h, watched, reports, differs⟩
    obtain ⟨op, mem, rfl⟩ := List.mem_map.mp (Block.reports_iff.mp reports)
    exact ⟨op, mem, watched, differs⟩
  · rintro ⟨op, mem, watched, differs⟩
    exact ⟨_, watched, Block.reports_iff.mpr (List.mem_map_of_mem mem), differs⟩

instance {W : Holding → Prop} [DecidablePred W] : Decidable (c.Faulty W first b) :=
  decidable_of_iff _ faulty_iff.symm

/-- No block of a range is at fault. -/
def Faultless (c : Chain) (W : Holding → Prop) (first last : Int) : Prop :=
  ∀ b ∈ c.segment first last, ¬c.Faulty W first b

instance {W : Holding → Prop} [DecidablePred W] : Decidable (c.Faultless W first last) :=
  inferInstanceAs (Decidable (∀ b ∈ c.segment first last, ¬c.Faulty W first b))

/-- The block is the first one of a range that is at fault. -/
structure FirstFaulty (c : Chain) (W : Holding → Prop) (first last : Int) (b : Block) : Prop where
  found : c.blocks.find? b.id.index = some b
  ge : first ≤ b.id.index
  le : b.id.index ≤ last
  faulty : c.Faulty W first b
  before : c.Faultless W first (b.id.index - 1)

theorem FirstFaulty.not_faultless {W : Holding → Prop} (h : c.FirstFaulty W first last b) :
    ¬c.Faultless W first last := fun clean =>
  clean b (mem_segment.mpr ⟨_, h.ge, h.le, h.found⟩) h.faulty

/-- The balance of a holding at the last of the blocks `before` that names it,
or else just before `b`. -/
def reference (c : Chain) (h : Holding) (before : List Block) (b : Block) : Decimal :=
  match (before.filter (·.reports h)).getLast? with
  | some p => c.balanceAt h p.id.index
  | none => c.opening b h

/-- The operations of `b` do not lead from the reference to its own balance. -/
def Unexplained (c : Chain) (h : Holding) (before : List Block) (b : Block) : Prop :=
  b.reports h = true ∧
    (c.balanceAt h b.id.index).toRat ≠ (c.reference h before b).toRat + b.net h

instance (before : List Block) : Decidable (c.Unexplained h before b) :=
  inferInstanceAs (Decidable (_ ∧ _))

/-- Every block of the list is explained by those before it. -/
def Explained (c : Chain) (h : Holding) (bs : List Block) : Prop :=
  ∀ before b after, bs = before ++ b :: after → ¬c.Unexplained h before b

theorem explained_iff :
    c.Explained h bs ↔ ∀ (n : Nat) (lt : n < bs.length), ¬c.Unexplained h (bs.take n) bs[n] := by
  constructor
  · intro all n lt
    refine all (bs.take n) bs[n] (bs.drop (n + 1)) ?_
    rw [← List.drop_eq_getElem_cons lt, List.take_append_drop]
  · intro all before b after split
    have here := all before.length (by simp [split])
    simpa [split] using here

instance : Decidable (c.Explained h bs) := decidable_of_iff _ explained_iff.symm

theorem Explained.concat_iff :
    c.Explained h (bs ++ [b]) ↔ c.Explained h bs ∧ ¬c.Unexplained h bs b := by
  constructor
  · intro all
    refine ⟨fun before x after split => ?_, ?_⟩
    · refine all before x (after ++ [b]) ?_
      rw [split, List.append_assoc]
      rfl
    · exact all bs b [] rfl
  · rintro ⟨all, last⟩ before x after split
    rcases List.eq_nil_or_concat after with rfl | ⟨init, e, rfl⟩
    · obtain ⟨rfl, same⟩ := List.append_inj' split rfl
      cases same
      exact last
    · rw [List.concat_eq_append, ← List.cons_append, ← List.append_assoc] at split
      obtain ⟨rfl, _⟩ := List.append_inj' split rfl
      exact all before x init rfl

/-- **Up to the last explained touch the operations lead to the balance of the
node.** The induction is on the blocks, one more at the end. -/
theorem computed?_of_explained (all : c.Explained h bs) :
    c.computed? h bs =
      (bs.filter (·.reports h)).getLast?.map fun p => (c.balanceAt h p.id.index).toRat := by
  induction bs using List.reverseRecOn with
  | nil => rfl
  | append_singleton bs b ih =>
    obtain ⟨earlier, last⟩ := Explained.concat_iff.mp all
    have before := ih earlier
    rw [computed?_concat, List.filter_append]
    by_cases reports : b.reports h = true
    · have explained : (c.balanceAt h b.id.index).toRat = (c.reference h bs b).toRat + b.net h := by
        by_contra differs
        exact last ⟨reports, differs⟩
      rw [if_pos reports, List.filter_cons, if_pos reports, List.filter_nil,
        List.getLast?_concat, Option.map_some, explained, reference, before]
      cases (bs.filter (·.reports h)).getLast? <;> rfl
    · rw [if_neg reports, List.filter_cons, if_neg reports, List.filter_nil, List.append_nil,
        before]

/-- Behind explained blocks, the balance computed for `b` is off iff `b` itself
is unexplained. -/
theorem computed?_ne_iff_unexplained (all : c.Explained h bs) (reports : b.reports h = true) :
    c.computed? h (bs ++ [b]) ≠ some (c.balanceAt h b.id.index).toRat ↔
      c.Unexplained h bs b := by
  have value : (c.computed? h bs).getD (c.opening b h).toRat = (c.reference h bs b).toRat := by
    rw [computed?_of_explained all, reference]
    cases (bs.filter (·.reports h)).getLast? <;> rfl
  rw [computed?_concat, if_pos reports, value, Unexplained, ne_eq, Option.some.injEq]
  constructor
  · intro differs
    exact ⟨reports, fun same => differs same.symm⟩
  · rintro ⟨_, differs⟩ same
    exact differs same.symm

/-- The block is the first unexplained one of a range. -/
def FirstUnexplained (c : Chain) (h : Holding) (first last : Int) (b : Block) : Prop :=
  ∃ before after, c.segment first last = before ++ b :: after ∧ c.Explained h before ∧
    c.Unexplained h before b

theorem FirstUnexplained.not_explained (fault : c.FirstUnexplained h first last b) :
    ¬c.Explained h (c.segment first last) := by
  obtain ⟨before, after, split, _, unexplained⟩ := fault
  exact fun all => all before b after split unexplained

/-- A range is explained if each of its blocks is, behind explained ones. The
induction is on the number of the blocks. -/
theorem explained_of_forall (linked : c.Linked first last)
    (each : ∀ i b, first ≤ i → i ≤ last → c.blocks.find? i = some b →
      c.Explained h (c.segment first (i - 1)) → ¬c.Unexplained h (c.segment first (i - 1)) b) :
    c.Explained h (c.segment first last) := by
  have gen : ∀ (n : Nat) (i : Int), (i + 1 - first).toNat = n → i ≤ last →
      c.Explained h (c.segment first i) := by
    intro n
    induction n with
    | zero =>
      intro i size _ before b after split
      rw [segment_of_lt (by omega)] at split
      cases before <;> cases split
    | succ n ih =>
      intro i size le
      obtain ⟨b, found, _⟩ := linked.served i (by omega) le
      have earlier := ih (i - 1) (by omega) (by omega)
      rw [segment_concat (by omega : first ≤ i) found, Explained.concat_iff]
      exact ⟨earlier, each i b (by omega) le found earlier⟩
  exact gen _ last rfl (le_refl last)

section OneHolding

variable {W : Holding → Prop}

/-- A range without a fault in the holding is explained. -/
theorem explained_of_faultless (only : ∀ h', W h' ↔ h' = h) (linked : c.Linked first last)
    (clean : c.Faultless W first last) : c.Explained h (c.segment first last) := by
  refine explained_of_forall linked fun i b ge le found earlier unexplained => ?_
  obtain rfl := linked.index ge le found
  have faulty : c.Faulty W first b := by
    refine ⟨h, (only h).mpr rfl, unexplained.1, ?_⟩
    rw [segment_concat ge found]
    exact (computed?_ne_iff_unexplained earlier unexplained.1).mpr unexplained
  exact clean b (mem_segment.mpr ⟨_, ge, le, found⟩) faulty

/-- The first fault in the holding is the first unexplained block. -/
theorem FirstFaulty.firstUnexplained (only : ∀ h', W h' ↔ h' = h)
    (linked : c.Linked first last) (fault : c.FirstFaulty W first last b) :
    c.FirstUnexplained h first last b := by
  have explained := explained_of_faultless only
    (linked.sub (le_refl _) (by have := fault.le; omega)) fault.before
  have blocks := segment_concat fault.ge fault.found
  refine ⟨c.segment first (b.id.index - 1), c.segment (b.id.index + 1) last, ?_, explained, ?_⟩
  · have ge := fault.ge
    rw [segment_append (by omega : first ≤ b.id.index + 1) fault.le, blocks, List.append_assoc]
    rfl
  · obtain ⟨h', watched, reports, differs⟩ := fault.faulty
    cases (only h').mp watched
    rw [blocks] at differs
    exact (computed?_ne_iff_unexplained explained reports).mp differs

end OneHolding

end Chain

end BalanceAudit
