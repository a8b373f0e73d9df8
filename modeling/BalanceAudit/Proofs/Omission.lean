import BalanceAudit.Proofs.History
import BalanceAudit.Proofs.Search

/-!
# Operations that a node leaves out

A recorded history in which one block reports less of a holding than happened.

- `Recording.leaveOutAll`: operations left out of any blocks.
- `Block.ExactHistory`: no sum over what happened is rounded;
  `Block.exactHistory_of_places`: amounts of which that is true.
- `Chain.Lacks`: the reported operations lead from block to block, except at one.
- `Chain.Lacks.unexplained_iff`: no other block is unexplained, wherever the window
  starts.
- `Auditor.findMissing_names_omission`: when the search names that block.
-/

namespace BalanceAudit

/-! ## Leaving operations out

Only the operations of one block change; identifiers, parents and recorded balances stay. -/

namespace Recording

/-- The recording with the chosen operations left out of the blocks at some
indices. -/
def leaveOutAll (omissions : List (Int × (Operation → Bool))) (r : Recording) : Recording :=
  omissions.foldl (fun r o => (r.leaveOut o.1 o.2).2) r

theorem leaveOutFrom_links (index : Int) (chosen : Operation → Bool) (bs : List Block) :
    (leaveOutFrom index chosen bs).2.map (fun b => (b.id, b.parent)) =
      bs.map fun b => (b.id, b.parent) := by
  induction bs with
  | nil => rfl
  | cons b rest ih =>
    unfold leaveOutFrom
    split
    · rfl
    · rw [List.map_cons, List.map_cons]
      exact congrArg _ ih

/-- Balances, identifiers and parents stay. -/
theorem leaveOutAll_keeps (omissions : List (Int × (Operation → Bool))) (r : Recording) :
    (r.leaveOutAll omissions).balances = r.balances ∧
      (r.leaveOutAll omissions).blocks.map (fun b => (b.id, b.parent)) =
        r.blocks.map fun b => (b.id, b.parent) := by
  induction omissions generalizing r with
  | nil => exact ⟨rfl, rfl⟩
  | cons o rest ih =>
    obtain ⟨balances, links⟩ := ih (r.leaveOut o.1 o.2).2
    have once : (r.leaveOut o.1 o.2).2.blocks.map (fun b => (b.id, b.parent)) =
        r.blocks.map fun b => (b.id, b.parent) := leaveOutFrom_links o.1 o.2 r.blocks
    constructor
    · show ((r.leaveOut o.1 o.2).2.leaveOutAll rest).balances = r.balances
      rw [balances]
      rfl
    · show ((r.leaveOut o.1 o.2).2.leaveOutAll rest).blocks.map _ = _
      rw [links, once]

end Recording

/-! ## Exact histories

Exact sums turn the recorded decimals into sums of rationals, where leaving out an amount
can be seen. -/

/-- No sum over what happened is rounded. -/
structure Block.ExactHistory (bs : List Block) : Prop where
  within : ∀ b ∈ bs, b.SumsExact
  running : ∀ h n, Decimal.Representable (((bs.take n).map (·.net h)).sum)

namespace Block

variable {bs : List Block}

/-- The sums of an earlier part of a history are exact too. -/
theorem ExactHistory.left {more : List Block} (exact_ : ExactHistory (bs ++ more)) :
    ExactHistory bs where
  within := fun b mem => exact_.within b (List.mem_append_left _ mem)
  running := fun h n => by
    have sum := exact_.running h (min n bs.length)
    rwa [List.take_append_of_le_length (Nat.min_le_right ..), ← List.take_eq_take_min] at sum

theorem ExactHistory.total (exact_ : ExactHistory bs) (h : Holding) :
    Decimal.Representable (bs.map (·.net h)).sum := by
  have sum := exact_.running h bs.length
  rwa [List.take_length] at sum

/-- **A history has exact sums** if its amounts have the same number of places and all
of them together fit. -/
theorem exactHistory_of_places {k : Nat}
    (places : ∀ x ∈ amountsIn bs, x.scale = k) (le : k ≤ 28)
    (small : ((amountsIn bs).map (·.units.natAbs)).sum < 2 ^ 96) : ExactHistory bs where
  within b mem h n :=
    Decimal.representable_sum_of_subperm
      ((List.take_sublist ..).subperm.trans (amounts_subperm mem h)) places le small
  running h n := by
    rw [sum_net]
    exact Decimal.representable_sum_of_subperm
      (amountsOf_subperm (List.take_sublist n bs).subperm h) places le small

end Block

namespace Chain

variable {c : Chain} {bs : List Block} {genesis tip first last m i : Int} {h : Holding}
  {b : Block}

/-- Without rounding the balances are the sums of what happened. The induction is
on the number of blocks. -/
theorem Follows.toRat_eq (follows : c.Follows bs genesis) (exact_ : Block.ExactHistory bs)
    (h : Holding) : ∀ n : Nat, n ≤ bs.length →
      (c.balanceAt h (genesis + n - 1)).toRat = ((bs.take n).map (·.net h)).sum := by
  intro n
  induction n with
  | zero =>
    intro _
    rw [follows.before h _ (by omega), Decimal.toRat_zero, List.take_zero, List.map_nil,
      List.sum_nil]
  | succ n ih =>
    intro le
    have here : bs[n]? = some bs[n] := List.getElem?_eq_getElem le
    have earlier := ih (by omega)
    have sum : ((bs.take (n + 1)).map (·.net h)).sum =
        ((bs.take n).map (·.net h)).sum + bs[n].net h := by
      rw [List.take_succ_eq_append_getElem le, List.map_append, List.sum_append,
        List.map_singleton, List.sum_singleton]
    have place : genesis + ((n + 1 : Nat) : Int) - 1 = genesis + n := by omega
    rw [place, sum, ← earlier]
    obtain ⟨ds, deltas, adds⟩ := follows.deltas n _ here
    -- A block that reports h adds its delta exactly; any other leaves the balance alone and
    -- nets zero.
    by_cases reports : bs[n].reports h = true
    · obtain ⟨ds', deltas', nets⟩ := Block.deltas?_exact (exact_.within _ (List.getElem_mem le))
      rw [deltas] at deltas'
      cases deltas'
      have listed := (Block.mem_keys_deltas? deltas h).mpr reports
      obtain ⟨⟨h, d⟩, mem, rfl⟩ := List.mem_map.mp listed
      have value := nets h d mem
      have fits : Decimal.Representable
          ((c.balanceAt h (genesis + n - 1)).toRat + d.toRat) := by
        rw [value, earlier, ← sum]
        exact exact_.running h (n + 1)
      obtain ⟨v, added, total⟩ := Decimal.add?_exact fits
      rw [adds h d mem] at added
      cases added
      rw [total, value]
    · have silent : bs[n].reports h = false := Bool.eq_false_iff.mpr reports
      rw [follows.stays n _ here h silent, Block.net_of_not_reports reports, add_zero]

/-! ## A chain that lacks operations at one block

The chain still serves the balances of the whole history. So the only block that its
operations do not explain is the one that lacks some, if the chain's block still reports the
holding. -/

/-- The reported operations of a holding lead from each balance to the next one,
except at `m`. -/
structure Lacks (c : Chain) (h : Holding) (genesis tip m : Int) : Prop where
  start : (c.balanceAt h (genesis - 1)).toRat = 0
  adds : ∀ i b, genesis ≤ i → i ≤ tip → c.blocks.find? i = some b →
    ((c.balanceAt h i).toRat = (c.balanceAt h (i - 1)).toRat + b.net h ↔ i ≠ m)

namespace Lacks

/-- Since the last report of the holding its balance has not changed. The
induction is on the number of blocks; a block without a report is not the one at
`m`. -/
theorem toRat_getLast? (lacks : c.Lacks h genesis tip m) (spans : c.Spans genesis tip)
    (touched : ∀ b, c.blocks.find? m = some b → b.reports h = true) (ge : genesis ≤ first) :
    ∀ (n : Nat) (i : Int), (i + 1 - first).toNat = n → i ≤ tip → ∀ p,
      ((c.segment first i).filter (·.reports h)).getLast? = some p →
        (c.balanceAt h p.id.index).toRat = (c.balanceAt h i).toRat := by
  intro n
  induction n with
  | zero =>
    intro i size _ p last
    rw [segment_of_lt (by omega)] at last
    cases last
  | succ n ih =>
    intro i size le p last
    obtain ⟨b, found, index⟩ := spans.served i (by omega) le
    rw [segment_concat (by omega) found, List.filter_append] at last
    by_cases reports : b.reports h = true
    · rw [List.filter_cons, if_pos reports, List.filter_nil, List.getLast?_concat] at last
      cases last
      rw [index]
    · rw [List.filter_cons, if_neg reports, List.filter_nil, List.append_nil] at last
      -- The block that lacks operations still reports h, so a silent block keeps the balance.
      have other : i ≠ m := by
        rintro rfl
        exact reports (touched b found)
      have same := (lacks.adds i b (by omega) le found).mpr other
      rw [Block.net_of_not_reports reports, add_zero] at same
      rw [ih (i - 1) (by omega) (by omega) p last, same]

/-- Wherever a window starts, a block in it is compared with the balance just
before it. -/
theorem toRat_reference (lacks : c.Lacks h genesis tip m) (spans : c.Spans genesis tip)
    (touched : ∀ b, c.blocks.find? m = some b → b.reports h = true) (ge : genesis ≤ first)
    (le : first ≤ i) (le' : i ≤ tip) (found : c.blocks.find? i = some b) :
    (c.reference h (c.segment first (i - 1)) b).toRat = (c.balanceAt h (i - 1)).toRat := by
  unfold reference
  split
  · next p last =>
    exact lacks.toRat_getLast? spans touched ge _ (i - 1) rfl (by omega) p last
  · rw [spans.opening_eq (by omega) le' found]
    by_cases start : i = genesis
    · rw [if_pos start, Decimal.toRat_zero, start, lacks.start]
    · rw [if_neg start]

/-- **The only unexplained block is the one at `m`.** -/
theorem unexplained_iff (lacks : c.Lacks h genesis tip m) (spans : c.Spans genesis tip)
    (touched : ∀ b, c.blocks.find? m = some b → b.reports h = true) (ge : genesis ≤ first)
    (le : first ≤ i) (le' : i ≤ tip) (found : c.blocks.find? i = some b) :
    c.Unexplained h (c.segment first (i - 1)) b ↔ i = m := by
  have index : b.id.index = i := spans.linked.index (by omega) le' found
  have adds := lacks.adds i b (by omega) le' found
  unfold Unexplained
  rw [lacks.toRat_reference spans touched ge le le' found, index]
  constructor
  · rintro ⟨_, differs⟩
    by_contra other
    exact differs (adds.mpr other)
  · rintro rfl
    exact ⟨touched b found, fun same => adds.mp same rfl⟩

theorem explained (lacks : c.Lacks h genesis tip m) (spans : c.Spans genesis tip)
    (touched : ∀ b, c.blocks.find? m = some b → b.reports h = true) (ge : genesis ≤ first)
    (le : last ≤ tip) (outside : m < first ∨ last < m) : c.Explained h (c.segment first last) := by
  refine explained_of_forall (spans.linked.sub ge le) fun i b ge' le' found _ unexplained => ?_
  have here := (lacks.unexplained_iff spans touched ge ge' (by omega) found).mp unexplained
  omega

theorem firstUnexplained (lacks : c.Lacks h genesis tip m) (spans : c.Spans genesis tip)
    (touched : ∀ b, c.blocks.find? m = some b → b.reports h = true) (ge : genesis ≤ first)
    (le : last ≤ tip) (ge' : first ≤ m) (le' : m ≤ last) (found : c.blocks.find? m = some b) :
    c.FirstUnexplained h first last b := by
  refine ⟨c.segment first (m - 1), c.segment (m + 1) last, ?_, ?_, ?_⟩
  · rw [segment_append (by omega : first ≤ m + 1) le', segment_concat ge' found, List.append_assoc]
    rfl
  · exact lacks.explained spans touched ge (by omega) (.inr (by omega))
  · exact (lacks.unexplained_iff spans touched ge ge' (by omega) found).mpr rfl

/-- A window is explained iff it ends before `m` or starts behind it. -/
theorem not_explained_iff (lacks : c.Lacks h genesis tip m) (spans : c.Spans genesis tip)
    (touched : ∀ b, c.blocks.find? m = some b → b.reports h = true) (ge : genesis ≤ first)
    (le : last ≤ tip) (le' : m ≤ last) (found : c.blocks.find? m = some b) :
    ¬c.Explained h (c.segment first last) ↔ first ≤ m := by
  constructor
  · intro unexplained
    by_contra behind
    exact unexplained (lacks.explained spans touched ge le (.inl (by omega)))
  · intro ge'
    exact (lacks.firstUnexplained spans touched ge le ge' le' found).not_explained

/-- **The answer of the windows is the block at `m`.** No gap between two windows
hides it, since each one ends where the one behind it starts. -/
theorem answer_eq (lacks : c.Lacks h genesis tip m) (spans : c.Spans genesis tip)
    (touched : ∀ b, c.blocks.find? m = some b → b.reports h = true)
    (found : c.blocks.find? m = some b) {step : Int} (pos : 0 < step) {w : SearchWindow}
    {r : Except LocalizeError BlockId} (answer : c.Answer h step genesis w r)
    (regular : w.Regular step genesis) (le : w.last ≤ tip) (ge' : genesis ≤ m)
    (le' : m ≤ w.last) : r = .ok b.id := by
  -- A window that is explained does not hold m: the search has to go on to one further back.
  have behind : ∀ {w : SearchWindow}, w.Regular step genesis → w.last ≤ tip → m ≤ w.last →
      c.Explained h (c.segment w.first w.last) → m < w.first := by
    intro w regular le le' explained
    by_contra inside
    exact (lacks.firstUnexplained spans touched regular.genesis_le le (by omega) le'
      found).not_explained explained
  induction answer with
  | @found w x fault =>
    have ge := regular.genesis_le
    by_cases inside : w.first ≤ m
    · rw [fault.unique (lacks.firstUnexplained spans touched ge le inside le' found)]
    -- A fault cannot lie in a window behind m, where every block is explained.
    · exact absurd (lacks.explained spans touched ge le (.inl (by omega))) fault.not_explained
  | @earlier w _ _ explained before _ ih =>
    have before_m := behind regular le le' explained
    rw [SearchWindow.preceding?_eq regular pos] at before
    split at before
    · next later =>
      cases before
      exact ih (regular.before_regular pos later) (w.first_le_last.trans le) before_m.le
    · cases before
  | exhausted explained before =>
    have before_m := behind regular le le' explained
    rw [SearchWindow.preceding?_eq regular pos] at before
    split at before
    · cases before
    · omega

end Lacks

/-- What a search names is a block that reports the holding. -/
theorem Answer.reports {step : Int} {w : SearchWindow} {r : Except LocalizeError BlockId}
    (answer : c.Answer h step genesis w r) (spans : c.Spans genesis tip) {id : BlockId}
    (named : r = .ok id) : ∃ b, c.blocks.find? id.index = some b ∧ b.reports h = true := by
  induction answer with
  | @found w b fault =>
    cases named
    obtain ⟨before, after, split, _, reports, _⟩ := fault
    have mem : b ∈ c.segment w.first w.last := by
      rw [split]
      exact List.mem_append_right _ List.mem_cons_self
    obtain ⟨i, _, _, found⟩ := mem_segment.mp mem
    obtain ⟨ge, le⟩ := spans.only i b found
    rw [← spans.linked.index ge le found] at found
    exact ⟨b, found, reports⟩
  | earlier _ _ _ ih => exact ih named
  | exhausted _ _ => cases named

/-- A chain is served from a recorded history with operations left out, so that the
`n`th block, which was `b`, is reported as `b'` with another net change of a
holding. The other blocks report all changes of it. -/
structure Omits (c : Chain) (h : Holding) (bs : List Block) (genesis : Int) (n : Nat)
    (b b' : Block) : Prop where
  consecutive : Block.Consecutive bs genesis
  exact_ : Block.ExactHistory bs
  served : ∃ network r omissions, Recording.ofHistory? network bs = some r ∧
    (r.leaveOutAll omissions).chain = .ok c
  happened : bs[n]? = some b
  reported : c.blocks.find? (genesis + n) = some b'
  differs : b'.net h ≠ b.net h
  others : ∀ (k : Nat) x x', k ≠ n → bs[k]? = some x → c.blocks.find? (genesis + k) = some x' →
    x'.amounts h = x.amounts h

namespace Omits

variable {n : Nat} {b' : Block}

/-- Every block is served with the identifier that it had. -/
theorem spans (omits : c.Omits h bs genesis n b b') :
    c.Spans genesis (genesis + bs.length - 1) ∧ b'.id = b.id := by
  obtain ⟨network, r, omissions, recorded, served⟩ := omits.served
  obtain ⟨_, rfl, _⟩ := Recording.ofHistory?_eq recorded
  have links := (Recording.leaveOutAll_keeps omissions r).2
  have consecutive := omits.consecutive.congr links
  have places := (Recording.blocks_of_chain served).2
  have spans := spans_of_consecutive places consecutive
  have length : (r.leaveOutAll omissions).blocks.length = r.blocks.length := by
    have lengths := congrArg List.length links
    rwa [List.length_map, List.length_map] at lengths
  rw [length] at spans
  refine ⟨spans, ?_⟩
  obtain ⟨k, found, place⟩ := (find?_of_consecutive places consecutive).mp omits.reported
  obtain rfl : k = n := by omega
  have entry := congrArg (·[k]?) links
  simp only [List.getElem?_map, found, omits.happened, Option.map_some] at entry
  exact (Prod.mk.inj (Option.some.inj entry)).1

theorem lacks (omits : c.Omits h bs genesis n b b') :
    c.Lacks h genesis (genesis + bs.length - 1) (genesis + n) := by
  obtain ⟨network, r, omissions, recorded, served⟩ := omits.served
  have follows := Recording.follows_of_ofHistory? recorded omits.consecutive
    (Recording.leaveOutAll_keeps omissions r).1 served
  have values := follows.toRat_eq omits.exact_ h
  constructor
  · rw [follows.before h _ (by omega), Decimal.toRat_zero]
  · intro i x' ge le found
    obtain ⟨k, rfl⟩ : ∃ k : Nat, i = genesis + k := ⟨(i - genesis).toNat, by omega⟩
    have lt : k < bs.length := by omega
    have here : bs[k]? = some bs[k] := List.getElem?_eq_getElem lt
    -- the true net change of the block leads to its balance
    have change : (c.balanceAt h (genesis + k)).toRat =
        (c.balanceAt h (genesis + k - 1)).toRat + bs[k].net h := by
      have place : genesis + ((k + 1 : Nat) : Int) - 1 = genesis + k := by omega
      have value := values (k + 1) lt
      rw [place] at value
      rw [value, values k lt.le, List.take_succ_eq_append_getElem lt, List.map_append,
        List.sum_append, List.map_singleton, List.sum_singleton]
    rw [change, add_right_inj]
    constructor
    · intro same eq
      obtain rfl : k = n := by omega
      rw [omits.reported] at found
      cases found
      rw [omits.happened] at here
      refine omits.differs ?_
      rw [Option.some.inj here, same]
    · intro other
      have amounts := omits.others k _ x' (fun same => other (by rw [same])) here found
      unfold Block.net
      rw [amounts]

end Omits

end Chain

namespace Auditor

variable {c : Chain} {h : Holding} {bs : List Block} {genesis observed step : Int} {n : Nat}
  {b b' : Block} {settings : Settings} {s : Search Unit}

/-- A search does not name a block that reports nothing of the holding. -/
theorem findMissing_ne_silent (omits : c.Omits h bs genesis n b b')
    (lookup : settings.lookup = true) (ge : genesis + n ≤ observed)
    (le : observed ≤ genesis + bs.length - 1) (pos : 0 < step)
    (sums : ∀ first, genesis ≤ first → first ≤ observed → c.ExactSums first observed)
    (ready : s.Ready) (silent : b'.reports h = false) :
    (((⟨c.node, settings⟩ : Auditor Unit).findMissing h observed step genesis).eval s).1 ≠
      .ok b.id := by
  intro named
  have index := omits.consecutive.index n b omits.happened
  obtain ⟨w, _, answer⟩ := answer_of_findMissing omits.spans.1 lookup (by omega) le pos sums
    ready named
  obtain ⟨x, found, reports⟩ := answer.reports omits.spans.1 rfl
  rw [index, omits.reported] at found
  cases found
  rw [silent] at reports
  cases reports

/-- **The block that lacks operations is named** iff it still reports one of the
holding and the search does not start at the greatest index, or else its first
window has the block. -/
theorem findMissing_names_omission (omits : c.Omits h bs genesis n b b')
    (lookup : settings.lookup = true) (ge : genesis + n ≤ observed)
    (le : observed ≤ genesis + bs.length - 1) (pos : 0 < step)
    (sums : ∀ first, genesis ≤ first → first ≤ observed → c.ExactSums first observed)
    (ready : s.Ready) :
    ∃ w, SearchWindow.initial observed step genesis = .ok w ∧
      ((((⟨c.node, settings⟩ : Auditor Unit).findMissing h observed step genesis).eval s).1 =
          .ok b.id ↔
        b'.reports h = true ∧ (observed < Index.greatest ∨ w.first ≤ genesis + n)) := by
  obtain ⟨spans, id⟩ := omits.spans
  have high := spans.high
  have lacks := omits.lacks
  obtain ⟨w, initial, last, regular⟩ :=
    SearchWindow.initial_eq pos spans.low (by omega : observed ≤ Index.greatest) (by omega)
  refine ⟨w, initial, ?_⟩
  by_cases reports : b'.reports h = true
  · have touched : ∀ x, c.blocks.find? (genesis + n) = some x → x.reports h = true := by
      intro x found
      rw [omits.reported] at found
      cases found
      exact reports
    obtain ⟨r, answer⟩ := Chain.Answer.exists (c := c) (h := h) pos _ w regular
      (Nat.lt_succ_self _)
    -- With the block touched, the only answer the search can come to names it.
    have named := lacks.answer_eq spans touched omits.reported pos answer regular (by omega)
      (by omega) (by omega)
    subst named
    have outcome := findMissing_eq_iff spans lookup (by omega) le pos sums ready initial answer
    rw [lacks.not_explained_iff spans touched regular.genesis_le (by omega) (by omega)
      omits.reported, id] at outcome
    constructor
    · intro named
      exact ⟨reports, outcome.mp named⟩
    · rintro ⟨_, condition⟩
      exact outcome.mpr condition
  · have silent : b'.reports h = false := Bool.eq_false_iff.mpr reports
    constructor
    · intro named
      exact absurd named (findMissing_ne_silent omits lookup ge le pos sums ready silent)
    · rintro ⟨some, _⟩
      exact absurd some reports

/-- One holding that gets one, and then one and two. -/
def happened : List Block :=
  [.changing .alice ⟨0, "a"⟩ ⟨0, "a"⟩ [.whole 1],
    .changing .alice ⟨1, "b"⟩ ⟨0, "a"⟩ [.whole 1, .whole 2]]

/-- What the node serves if the second block reports other amounts. -/
def served (ys : List Decimal) : Chain := .pair .alice 0 [.whole 1] ys (.whole 1) (.whole 4)

/-- It serves the history without the operations that are left out of the second block. -/
theorem served_omits (ys : List Decimal) (chosen : Operation → Bool)
    (chain : Recording.chain (.leaveOutAll [(1, chosen)]
      ⟨⟨"bitcoin", "regtest"⟩, happened, [⟨.alice, 0, .whole 1⟩, ⟨.alice, 1, .whole 4⟩]⟩) =
        .ok (served ys))
    (differs : (Block.changing .alice ⟨1, "b"⟩ ⟨0, "a"⟩ ys).net .alice ≠
      (Block.changing .alice ⟨1, "b"⟩ ⟨0, "a"⟩ [.whole 1, .whole 2]).net .alice) :
    (served ys).Omits .alice happened 0 1
      (.changing .alice ⟨1, "b"⟩ ⟨0, "a"⟩ [.whole 1, .whole 2])
      (.changing .alice ⟨1, "b"⟩ ⟨0, "a"⟩ ys) where
  consecutive := by decide +kernel
  exact_ := Block.exactHistory_of_places (k := 0) (by decide) (by decide) (by decide)
  served := ⟨⟨"bitcoin", "regtest"⟩, _, _, by decide +kernel, chain⟩
  happened := rfl
  reported := rfl
  differs := differs
  others := by
    intro k x x' other found found'
    obtain _ | _ | k := k
    · cases found
      cases found'
      rfl
    · exact absurd rfl other
    · cases found

/-- One of two operations is left out. -/
theorem findMissing_names_second :
    ∃ w, SearchWindow.initial 1 1 0 = .ok w ∧
      ((((⟨(served [.whole 1]).node, {}⟩ : Auditor Unit).findMissing .alice 1 1 0).eval idle).1 =
          .ok ⟨1, "b"⟩ ↔
        (Block.changing .alice ⟨1, "b"⟩ ⟨0, "a"⟩ [.whole 1]).reports .alice = true ∧
          (1 < Index.greatest ∨ w.first ≤ 0 + (1 : Nat))) :=
  findMissing_names_omission
    (served_omits _ (fun op => op.amount.value = .whole 2) rfl (by decide +kernel)) rfl
    (by decide) (by decide) (by decide)
    (fun _ _ _ => Chain.exactSums_of_places (k := 0) (by decide +kernel) (by decide)
      (by decide +kernel))
    idle_ready

/-- Both are left out, and the search does not name the block. -/
theorem findMissing_omits_silent :
    (served []).Omits .alice happened 0 1
        (.changing .alice ⟨1, "b"⟩ ⟨0, "a"⟩ [.whole 1, .whole 2])
        (.changing .alice ⟨1, "b"⟩ ⟨0, "a"⟩ []) ∧
      (((⟨(served []).node, {}⟩ : Auditor Unit).findMissing .alice 1 1 0).eval idle).1 ≠
        .ok ⟨1, "b"⟩ := by
  have omits := served_omits [] (fun _ => true) rfl (by decide +kernel)
  refine ⟨omits, ?_⟩
  exact findMissing_ne_silent omits rfl (by decide) (by decide) (by decide)
    (fun _ _ _ => Chain.exactSums_of_places (k := 0) (by decide +kernel) (by decide)
      (by decide +kernel)) idle_ready rfl

end Auditor

end BalanceAudit
