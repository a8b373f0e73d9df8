import BalanceAudit.Proofs.Count
import BalanceAudit.Proofs.Decimal.Text
import BalanceAudit.Proofs.Json
import BalanceAudit.Proofs.Ledger.Limits

/-!
# The stored form of a ledger

The stored form gives the ledger back as it was: every text, every place of
every value, every count, as long as indices and decimals are within the limits
of their words.

- `Ledger.ofJson?_toJson`: reading is the inverse of writing.
- `Ledger.parse?_pretty`: the same for the text of the file.
- `Ledger.mergeSort_records`, `Ledger.Same.eq`: sorting records gives their
  one order, and ledgers that show the same are the same, so that a ledger has
  one text.
-/

namespace BalanceAudit

namespace Json

/-! ## Fields

A written record has its fields once each, and no others. -/

/-- All members of a written record are read, in their order. -/
theorem knownMembers?_record {names : List String} {members : List (String × Json)}
    (known : ∀ m ∈ members, m.1 ∈ names) (distinct : (members.map (·.1)).Nodup) :
    knownMembers? names (members.map fun m => (some m.1, m.2)) = some members := by
  induction members with
  | nil => rfl
  | cons m ms ih =>
    rw [List.map_cons, List.nodup_cons] at distinct
    have absent : ms.any (·.1 == m.1) = false := by
      rw [List.any_eq_false]
      intro m' mem same
      exact distinct.1 (eq_of_beq same ▸ List.mem_map_of_mem mem)
    rw [List.map_cons, knownMembers?, ih (fun m' mem => known m' (List.mem_cons_of_mem _ mem))
      distinct.2]
    simp only [Option.bind_eq_bind, Option.bind_some, if_pos (known m List.mem_cons_self), absent,
      Bool.false_eq_true, if_false]
    rfl

/-- A record shows the fields it was written with. -/
theorem record?_record {names : List String} {members : List (String × Json)}
    (known : ∀ m ∈ members, m.1 ∈ names) (distinct : (members.map (·.1)).Nodup) :
    record? names (.record members) = some ⟨members, false⟩ := by
  simp only [record, record?, knownMembers?_record known distinct, Option.bind_eq_bind,
    Option.bind_some]
  rfl

/-! ## Lists and members -/

variable {α : Type} {write : α → Json} {read : Json → Option α} {as : List α}

/-- A list is read back if each of its elements is. -/
theorem mapM_map_of_inverse {β : Type} {f : α → β} {g : β → Option α}
    (inverse : ∀ a ∈ as, g (f a) = some a) : (as.map f).mapM g = some as := by
  induction as with
  | nil => rfl
  | cons a as ih =>
    rw [List.map_cons, List.mapM_cons, inverse a List.mem_cons_self,
      ih fun b mem => inverse b (List.mem_cons_of_mem _ mem)]
    rfl

/-- An array of what its elements are written as is read back. -/
theorem toList?_list (inverse : ∀ a ∈ as, read (write a) = some a) :
    toList? read (.list write as) = some as :=
  mapM_map_of_inverse inverse

/-- An object with such members is read back, with its names. -/
theorem toMembers?_record {members : List (String × α)}
    (inverse : ∀ m ∈ members, read (write m.2) = some m.2) :
    toMembers? read (.record (members.map fun m => (m.1, write m.2))) = some members := by
  simp only [record, toMembers?, List.map_map]
  refine mapM_map_of_inverse fun m mem => ?_
  simp only [Function.comp_apply, inverse m mem]
  rfl

/-! ## Integers -/

/-- The digits of an integer and its sign give it back. -/
theorem toInt?_int (i : Int) :
    Number.toInt? ⟨i < 0, Nat.toDigits 10 i.natAbs, [], none⟩ = some i := by
  have value : Nat.ofDigitChars 10 (Nat.toDigits 10 i.natAbs) 0 = i.natAbs :=
    Nat.ofDigitChars_ten_toDigits
  rw [Number.toInt?]
  simp only [and_self, if_true, value, decide_eq_true_eq]
  by_cases negative : i < 0
  · rw [if_pos negative, if_neg (by omega)]
    congr 1
    omega
  · rw [if_neg negative]
    congr 1
    omega

/-- It is read if it lies within the limits. -/
theorem toIntIn?_int {low high i : Int} (within : low ≤ i ∧ i ≤ high) :
    toIntIn? low high (.int i) = some i := by
  simp only [int, toIntIn?, toInt?_int, Option.bind_eq_bind, Option.bind_some, if_pos within]

theorem toNat32?_nat {n : Nat} (small : n < 2 ^ 32) : toNat32? (.nat n) = some n := by
  rw [toNat32?, toNatBelow?, nat, toIntIn?_int (by omega)]
  rfl

end Json

/-! ## Reading what was written

Every reader gives back what was written, inside the limits of the numbers it reads. -/

theorem Account.ofJson?_toJson (a : Account) : Account.ofJson? a.toJson = some a := by
  rcases a with ⟨address, _ | sub⟩
  · rw [Account.ofJson?, Account.toJson, Json.record?_record (by simp) (by simp)]
    rfl
  · rw [Account.ofJson?, Account.toJson, Json.record?_record (by simp) (by simp)]
    rfl

theorem Currency.ofJson?_toJson {c : Currency} (small : c.decimals < 2 ^ 32) :
    Currency.ofJson? c.toJson = some c := by
  rw [Currency.ofJson?, Currency.toJson, Json.record?_record (by simp) (by simp)]
  show (do return (⟨c.symbol, ← Json.toNat32? (.nat c.decimals)⟩ : Currency)) = some c
  rw [Json.toNat32?_nat small]
  rfl

theorem Holding.ofJson?_toJson {h : Holding} (within : h.InLimits) :
    Holding.ofJson? h.toJson = some h := by
  rw [Holding.ofJson?, Holding.toJson, Json.record?_record (by simp) (by simp)]
  show (do return (⟨← Account.ofJson? h.account.toJson, ← Currency.ofJson? h.currency.toJson⟩ :
    Holding)) = some h
  rw [Account.ofJson?_toJson, Currency.ofJson?_toJson within]
  rfl

theorem BlockId.ofJson?_toJson {b : BlockId} (within : b.InLimits) :
    BlockId.ofJson? b.toJson = some b := by
  have word : Json.toInt64? (.int b.index) = some b.index := Json.toIntIn?_int within
  rw [BlockId.ofJson?, BlockId.toJson, Json.record?_record (by simp) (by simp)]
  show (do return (⟨← Json.toInt64? (.int b.index), b.hash⟩ : BlockId)) = some b
  rw [word]
  rfl

theorem Record.ofJson?_toJson {r : Record}
    (within : r.holding.InLimits ∧ r.balance.block.InLimits) :
    Record.ofJson? r.toJson = some r := by
  rw [Record.ofJson?, Record.toJson, Json.record?_record (by simp) (by simp)]
  show (do return (⟨← Holding.ofJson? r.holding.toJson, ← Decimal.ofJson? r.balance.value.toJson,
    ← BlockId.ofJson? r.balance.block.toJson⟩ : Record)) = some r
  rw [Holding.ofJson?_toJson within.1, Decimal.ofJson?_toJson, BlockId.ofJson?_toJson within.2]
  rfl

namespace Ledger

variable {l : Ledger}

/-! ### Ledgers -/

/-- The stored form of lists in the order they are given. -/
def document (blocks : List BlockId) (records : List Record) (counters : List (String × Count)) :
    Json :=
  .record [("blocks", .list BlockId.toJson blocks), ("balances", .list Record.toJson records),
    ("counters", .record (counters.map fun c => (c.1, c.2.toJson)))]

/-- The blocks in the order of their indices. -/
def blockIds (l : Ledger) : List BlockId := l.blocks.entries.map fun (index, hash) => ⟨index, hash⟩

theorem toJson_eq (l : Ledger) : l.toJson = document l.blockIds l.records l.counters.entries := by
  rw [toJson, document, blockIds, Json.list, Json.list, Json.list, List.map_map]
  rfl

/-- A document is read back, of several entries for one thing the last one. -/
theorem ofJson?_document {blocks : List BlockId} {records : List Record}
    {counters : List (String × Count)} (blocks_within : ∀ b ∈ blocks, b.InLimits)
    (records_within : ∀ r ∈ records, r.holding.InLimits ∧ r.balance.block.InLimits) :
    ofJson? (document blocks records counters) = some {
      blocks := Table.ofList (blocks.map fun b => (b.index, b.hash))
      balances := Table.ofList (records.map fun r => (r.holding, r.balance))
      counters := Table.ofList counters } := by
  have blocks_read := Json.toList?_list fun b mem => BlockId.ofJson?_toJson (blocks_within b mem)
  have records_read := Json.toList?_list fun r mem => Record.ofJson?_toJson (records_within r mem)
  have counters_read := Json.toMembers?_record fun (m : String × Count) (_ : m ∈ counters) =>
    m.2.ofJson?_toJson
  rw [ofJson?, document, Json.record?_record (by simp) (by simp)]
  show (do
    let blocks ← Json.toList? BlockId.ofJson? (.list BlockId.toJson blocks)
    let records ← Json.toList? Record.ofJson? (.list Record.toJson records)
    let counters ← Json.toMembers? Count.ofJson?
      (.record (counters.map fun (c : String × Count) => (c.1, c.2.toJson)))
    return ({ blocks := Table.ofList (blocks.map fun (b : BlockId) => (b.index, b.hash))
              balances := Table.ofList (records.map fun (r : Record) => (r.holding, r.balance))
              counters := Table.ofList counters } : Ledger)) = _
  rw [blocks_read, records_read, counters_read]
  rfl

/-- Reading is the inverse of writing. -/
theorem ofJson?_toJson (within : l.InLimits) : ofJson? l.toJson = some l := by
  have blocks : Table.ofList (l.blockIds.map fun b => (b.index, b.hash)) = l.blocks := by
    rw [blockIds, List.map_map]
    exact (congrArg Table.ofList (List.map_id _)).trans l.blocks.ofList_entries
  have balances : Table.ofList (l.records.map fun r => (r.holding, r.balance)) = l.balances := by
    rw [records, List.map_map]
    exact (congrArg Table.ofList (List.map_id _)).trans l.balances.ofList_entries
  rw [toJson_eq, ofJson?_document, blocks, balances, l.counters.ofList_entries]
  · intro b mem
    obtain ⟨e, entry, rfl⟩ := List.mem_map.mp mem
    exact within.blocks e entry
  · intro r mem
    obtain ⟨e, entry, rfl⟩ := List.mem_map.mp mem
    exact within.balances e entry

end Ledger

/-! ### Texts

What is written is made of the values that are read back from their text. -/

theorem Account.spelled_toJson (a : Account) : a.toJson.Spelled := by
  rcases a with ⟨address, _ | sub⟩
  · exact .record (by simpa using .text address)
  · exact .record (by simpa using ⟨.text address, .text sub⟩)

theorem Currency.spelled_toJson (c : Currency) : c.toJson.Spelled :=
  .record (by simpa using ⟨.text c.symbol, .int c.decimals⟩)

theorem Holding.spelled_toJson (h : Holding) : h.toJson.Spelled :=
  .record (by simpa using ⟨h.account.spelled_toJson, h.currency.spelled_toJson⟩)

theorem BlockId.spelled_toJson (b : BlockId) : b.toJson.Spelled :=
  .record (by simpa using ⟨.int b.index, .text b.hash⟩)

theorem Record.spelled_toJson (r : Record) : r.toJson.Spelled :=
  .record (by
    simpa using ⟨r.holding.spelled_toJson, .text r.balance.value.toText,
      r.balance.block.spelled_toJson⟩)

namespace Ledger

variable {l : Ledger}

theorem spelled_toJson (l : Ledger) : l.toJson.Spelled := by
  have counters : (Json.record (l.counters.entries.map fun c => (c.1, c.2.toJson))).Spelled := by
    refine .record fun m mem => ?_
    obtain ⟨c, -, rfl⟩ := List.mem_map.mp mem
    exact .text c.2.toHex
  rw [toJson_eq, document]
  exact .record (by
    simpa using ⟨.list _ BlockId.spelled_toJson, .list _ Record.spelled_toJson, counters⟩)

/-- The text of the file reads as the ledger. -/
theorem parse?_pretty (within : l.InLimits) :
    Json.parse? l.toJson.pretty >>= ofJson? = some l := by
  rw [Json.parse?_pretty l.spelled_toJson]
  exact ofJson?_toJson within

/-! ### One text for each ledger -/

/-- The order in which records are stored. -/
def inOrder (a b : Record) : Bool := (compare a.holding b.holding).isLE

/-- Records sorted from any order are in the order of the table. -/
theorem mergeSort_records {rs : List Record} (perm : rs.Perm l.records) :
    rs.mergeSort inOrder = l.records := by
  have total : ∀ a b : Record, (inOrder a b || inOrder b a) = true := by
    intro a b
    rw [Bool.or_eq_true, inOrder, inOrder, ← Std.OrientedCmp.isGE_iff_isLE (a := a.holding)]
    cases compare a.holding b.holding <;> simp
  have sorted : (rs.mergeSort inOrder).Pairwise (fun a b => inOrder a b = true) :=
    List.pairwise_mergeSort (fun _ _ _ => Std.TransCmp.isLE_trans) total rs
  have stored : l.records.Pairwise (fun a b => inOrder a b = true) := by
    rw [records, List.pairwise_map]
    exact l.balances.increasing.imp Ordering.isLE_of_eq_lt
  refine ((List.mergeSort_perm rs inOrder).trans perm).eq_of_pairwise ?_ sorted stored
  intro a b a_mem b_mem le ge
  -- Both are records of the table, which has one for each holding.
  have shown : ∀ r ∈ l.records, l.balances.find? r.holding = some r.balance := by
    intro r mem
    obtain ⟨e, entry, rfl⟩ := List.mem_map.mp mem
    exact Table.find?_eq_some_iff.mpr entry
  have same : a.holding = b.holding :=
    Std.LawfulEqOrd.eq_of_compare (Std.OrientedCmp.isLE_antisymm le ge)
  have balances := shown a (((List.mergeSort_perm rs inOrder).trans perm).mem_iff.mp a_mem)
  rw [same, shown b b_mem] at balances
  cases a
  cases b
  cases same
  cases balances
  rfl

/-- The ledgers show the same, whatever was put into them in which order. -/
structure Same (l l' : Ledger) : Prop where
  blocks : ∀ i, l.blocks.find? i = l'.blocks.find? i
  balances : ∀ h, l.balances.find? h = l'.balances.find? h
  counters : ∀ name, l.counters.find? name = l'.counters.find? name

/-- They are the same by their entries, which tables have in order. -/
theorem Same.eq {l l' : Ledger} (same : l.Same l') : l = l' := by
  rcases l with ⟨_, _, _⟩
  rcases l' with ⟨_, _, _⟩
  cases Table.ext_find? same.blocks
  cases Table.ext_find? same.balances
  cases Table.ext_find? same.counters
  rfl

end Ledger

end BalanceAudit
