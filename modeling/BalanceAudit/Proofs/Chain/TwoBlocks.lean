import BalanceAudit.Proofs.History

/-!
# Chains of two blocks

The shortest chains on which a fault of a block behind genesis can show: each
block changes one holding, and the node reports what it likes. What there is to
say of one of them is computed.

- `Chain.pair`: the chain.
- `Chain.gap`: one with a fault; `Chain.brim`: one without, up to the greatest
  index.
-/

namespace BalanceAudit

/-- Somebody's balance. -/
def Holding.alice : Holding := ⟨⟨"alice", none⟩, ⟨"BTC", 8⟩⟩

namespace Decimal

theorem natAbs_mod_lt (n : Nat) : ((n % 2 ^ 96 : Nat) : Int).natAbs < 2 ^ 96 := by
  rw [Int.natAbs_natCast]
  exact Nat.mod_lt n (by decide)

/-- A whole number without places, within the limits. -/
def whole (n : Nat) : Decimal := ⟨(n % 2 ^ 96 : Nat), 0, natAbs_mod_lt n, zero.scale_le⟩

end Decimal

/-- A block whose operations change one holding. -/
def Block.changing (h : Holding) (id parent : BlockId) (xs : List Decimal) : Block :=
  ⟨id, parent, [⟨"t", xs.map fun x => ⟨0, h.account, ⟨x, h.currency⟩⟩⟩]⟩

namespace Chain

/-- The blocks at `g` and `g + 1` change a holding, for which the node reports `v`
and `w`. -/
def pair (h : Holding) (g : Int) (xs ys : List Decimal) (v w : Decimal) : Chain where
  network := ⟨"bitcoin", "regtest"⟩
  blocks := ((∅ : Table Int Block).insert g (.changing h ⟨g, "a"⟩ ⟨g, "a"⟩ xs)).insert (g + 1)
    (.changing h ⟨g + 1, "b"⟩ ⟨g, "a"⟩ ys)
  balances := (∅ : Table Holding (Table Int Decimal)).insert h
    (((∅ : Table Int Decimal).insert g v).insert (g + 1) w)

/-- It has no gaps. -/
theorem pair_spans {h : Holding} {g : Int} {xs ys : List Decimal} {v w : Decimal}
    (consecutive : Block.Consecutive
      [.changing h ⟨g, "a"⟩ ⟨g, "a"⟩ xs, .changing h ⟨g + 1, "b"⟩ ⟨g, "a"⟩ ys] g) :
    (pair h g xs ys v w).Spans g (g + 1) := by
  have blocks : (pair h g xs ys v w).blocks = Table.ofList
      ([.changing h ⟨g, "a"⟩ ⟨g, "a"⟩ xs, .changing h ⟨g + 1, "b"⟩ ⟨g, "a"⟩ ys].map
        fun b : Block => (b.id.index, b)) := rfl
  have tip : g + (2 : Nat) - 1 = g + 1 := by omega
  exact tip ▸ spans_of_consecutive blocks consecutive

/-- Two blocks, of which the second one lacks an operation. -/
def gap : Chain := pair .alice 0 [.whole 1] [.whole 1] (.whole 1) (.whole 3)

theorem gap_spans : gap.Spans 0 1 := pair_spans (by decide +kernel)

/-- It reports little enough for all sums to be exact. -/
theorem gap_exactSums (first last : Int) : gap.ExactSums first last :=
  exactSums_of_places (k := 0) (by decide +kernel) (by decide) (by decide +kernel)

/-- The last two blocks that a chain can have. -/
def brim : Chain := pair .alice (Index.greatest - 1) [.whole 1] [.whole 1] (.whole 1) (.whole 2)

theorem brim_spans : brim.Spans (Index.greatest - 1) Index.greatest :=
  pair_spans (by decide +kernel)

end Chain

end BalanceAudit
