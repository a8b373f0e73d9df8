import BalanceAudit.Index
import Mathlib.Data.List.Nodup

/-!
# Consecutive indices

- `Index.upTo`: the indices from one on, up to another one.
- `Index.upTo_cons`: the first of them, and the others.
-/

namespace BalanceAudit

namespace Index

/-- The indices from `first` on, up to the one before `next`. -/
def upTo (first next : Int) : List Int :=
  (List.range (next - first).toNat).map fun n : Nat => first + n

variable {first next i : Int}

theorem mem_upTo : i ∈ upTo first next ↔ first ≤ i ∧ i < next := by
  rw [upTo, List.mem_map]
  constructor
  · rintro ⟨n, below, rfl⟩
    have := List.mem_range.mp below
    omega
  · rintro ⟨low, high⟩
    exact ⟨(i - first).toNat, List.mem_range.mpr (by omega), by omega⟩

@[simp] theorem length_upTo (first next : Int) :
    (upTo first next).length = (next - first).toNat := by
  rw [upTo, List.length_map, List.length_range]

theorem nodup_upTo (first next : Int) : (upTo first next).Nodup :=
  List.nodup_range.map fun _ _ same => by omega

@[simp] theorem upTo_self (i : Int) : upTo i i = [] := by
  rw [upTo, Int.sub_self]
  rfl

theorem upTo_cons (lt : first < next) : upTo first next = first :: upTo (first + 1) next := by
  rw [upTo, show (next - first).toNat = (next - (first + 1)).toNat + 1 by omega,
    List.range_succ_eq_map, List.map_cons, List.map_map, upTo]
  refine List.cons_eq_cons.mpr ⟨Int.add_zero first, List.map_congr_left fun n _ => ?_⟩
  show first + ((n + 1 : Nat) : Int) = first + 1 + (n : Int)
  omega

end Index

end BalanceAudit
