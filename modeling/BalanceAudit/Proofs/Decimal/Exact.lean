import BalanceAudit.Decimal.Basic
import Mathlib.Algebra.BigOperators.Group.List.Basic
import Mathlib.Algebra.Order.Ring.Rat
import Mathlib.Data.List.Perm.Subperm
import Mathlib.Tactic.FieldSimp
import Mathlib.Tactic.Linarith
import Mathlib.Tactic.NormNum
import Mathlib.Tactic.Push
import Mathlib.Tactic.Ring

/-!
# Exact sums of decimals

Adding decimals rounds only when it has to: a sum whose value some decimal has
is never rounded and never overflows.

- `Decimal.toRat`: the number that a decimal stands for; `Decimal.same_iff` says
  that comparing decimals compares these numbers.
- `Decimal.Representable`: a number that some decimal stands for.
- `Decimal.add?_exact`: **a representable sum is the sum**, whatever the places
  of the operands.
- `Decimal.representable_sum_of_subperm`: sums of amounts with the same places that fit
  all together.
-/

namespace BalanceAudit

namespace Decimal

/-- The number that a decimal stands for. -/
def toRat (d : Decimal) : ℚ := d.units / 10 ^ d.scale

/-- Some decimal stands for the number. -/
def Representable (q : ℚ) : Prop := ∃ d : Decimal, d.toRat = q

@[simp] theorem toRat_zero : zero.toRat = 0 := by
  simp [toRat, zero]

theorem pow_ten_ne_zero (n : Nat) : (10 : ℚ) ^ n ≠ 0 := pow_ne_zero n (by norm_num)

/-- Decimals are the same amount iff they stand for the same number. -/
theorem same_iff (a b : Decimal) : a.Same b ↔ a.toRat = b.toRat := by
  rw [toRat, toRat, div_eq_div_iff (pow_ten_ne_zero _) (pow_ten_ne_zero _), Same]
  exact_mod_cast Iff.rfl

theorem isZero_iff (d : Decimal) : d.isZero = true ↔ d.toRat = 0 := by
  rw [isZero, beq_iff_eq, toRat, div_eq_zero_iff]
  constructor
  · intro h
    exact .inl (by exact_mod_cast h)
  · rintro (h | h)
    · exact_mod_cast h
    · exact absurd h (pow_ten_ne_zero _)

/-! ## Fitting

Places are dropped until the magnitude fits. Those of an exact result that fits in the end
are all zeros, so that nothing is rounded. -/

theorem divideToEven_mul {d : Nat} (pos : 0 < d) (m : Nat) : divideToEven (m * d) d = m := by
  have q : m * d / d = m := Nat.mul_div_cancel m pos
  have r : m * d % d = 0 := Nat.mul_mod_left m d
  rw [divideToEven, q, r]
  split
  · next h => omega
  · rfl

theorem ofUnits?_of_fits {units : Int} {scale : Nat} (h : units.natAbs < 2 ^ 96)
    (places : scale ≤ 28) : ofUnits? units scale = some ⟨units, scale, h, places⟩ :=
  dif_pos ⟨h, places⟩

theorem ofUnits?_of_large {units : Int} (scale : Nat) (h : ¬units.natAbs < 2 ^ 96) :
    ofUnits? units scale = none :=
  dif_neg fun both => h both.1

theorem natAbs_signed (negative : Bool) (m : Nat) :
    (if negative then -(m : Int) else m).natAbs = m := by
  cases negative <;> simp

/-- A magnitude that fits once some places are dropped, all of them zeros, is
found without rounding. The induction is on the places that are left. -/
theorem fit?_exact (negative : Bool) :
    ∀ (scale dropped m u s : Nat), scale ≤ 28 → u < 2 ^ 96 → m * 10 ^ s = u * 10 ^ scale →
      ∃ d, fit? negative (m * 10 ^ dropped) scale dropped = some d ∧
        d.toRat = ((if negative then -(m : Int) else m : Int) : ℚ) / 10 ^ scale := by
  intro scale
  induction scale with
  | zero =>
    intro dropped m u s places small eq
    have fits : m < 2 ^ 96 := by
      have le : m ≤ m * 10 ^ s := Nat.le_mul_of_pos_right m (by positivity)
      omega
    rw [fit?, divideToEven_mul (by positivity),
      ofUnits?_of_fits (by rwa [natAbs_signed]) places]
    exact ⟨_, rfl, rfl⟩
  | succ scale ih =>
    intro dropped m u s places small eq
    rw [fit?, divideToEven_mul (by positivity)]
    by_cases fits : m < 2 ^ 96
    · rw [ofUnits?_of_fits (by rwa [natAbs_signed]) places]
      exact ⟨_, rfl, rfl⟩
    · have short : s < scale + 1 := by
        by_contra long
        have pow : 10 ^ (scale + 1) ≤ 10 ^ s := Nat.pow_le_pow_right (by decide) (by omega)
        have below : u * 10 ^ (scale + 1) < m * 10 ^ s :=
          Nat.mul_lt_mul_of_lt_of_le (by omega) pow (by positivity)
        omega
      -- more places than the fitting form has, so the last one is a zero
      obtain ⟨k, rfl⟩ : ∃ k, scale = s + k := ⟨scale - s, by omega⟩
      have split : m = u * 10 ^ k * 10 := by
        have cancel : m * 10 ^ s = (u * 10 ^ k * 10) * 10 ^ s := by
          rw [eq]
          ring
        exact Nat.eq_of_mul_eq_mul_right (by positivity) cancel
      have shift : m * 10 ^ dropped = u * 10 ^ k * 10 ^ (dropped + 1) := by
        rw [split]
        ring
      obtain ⟨d, found, value⟩ := ih (dropped + 1) (u * 10 ^ k) u s (by omega) small (by ring)
      refine ⟨d, ?_, ?_⟩
      · rw [ofUnits?_of_large _ (by rwa [natAbs_signed]), shift]
        exact found
      · rw [value, split]
        cases negative <;> simp <;> field_simp <;> ring

/-! ## Adding -/

/-- The units of a sum at the finer places. -/
theorem add_toRat (a b : Decimal) :
    a.toRat + b.toRat =
      ((a.units * 10 ^ (max a.scale b.scale - a.scale) +
        b.units * 10 ^ (max a.scale b.scale - b.scale) : Int) : ℚ) / 10 ^ max a.scale b.scale := by
  have left : (10 : ℚ) ^ max a.scale b.scale =
      10 ^ a.scale * 10 ^ (max a.scale b.scale - a.scale) := by
    rw [← pow_add, Nat.add_sub_cancel' (Nat.le_max_left _ _)]
  have right : (10 : ℚ) ^ max a.scale b.scale =
      10 ^ b.scale * 10 ^ (max a.scale b.scale - b.scale) := by
    rw [← pow_add, Nat.add_sub_cancel' (Nat.le_max_right _ _)]
  rw [toRat, toRat, Int.cast_add, add_div, Int.cast_mul, Int.cast_mul]
  congr 1
  · rw [left]
    push_cast
    rw [mul_div_mul_right _ _ (pow_ten_ne_zero _)]
  · rw [right]
    push_cast
    rw [mul_div_mul_right _ _ (pow_ten_ne_zero _)]

/-- **A representable sum is the sum.** -/
theorem add?_exact {a b : Decimal} (h : Representable (a.toRat + b.toRat)) :
    ∃ c, a.add? b = some c ∧ c.toRat = a.toRat + b.toRat := by
  by_cases za : a.isZero
  · refine ⟨b, by rw [add?, if_pos za], ?_⟩
    rw [(isZero_iff a).mp za, zero_add]
  by_cases zb : b.isZero
  · refine ⟨a, by rw [add?, if_neg za, if_pos zb], ?_⟩
    rw [(isZero_iff b).mp zb, add_zero]
  obtain ⟨d, value⟩ := h
  rw [add_toRat] at value ⊢
  set scale := max a.scale b.scale with scaleDef
  set sum := a.units * 10 ^ (scale - a.scale) + b.units * 10 ^ (scale - b.scale) with sumDef
  have places : scale ≤ 28 := Nat.max_le.mpr ⟨a.scale_le, b.scale_le⟩
  -- Both writings of the sum, brought to one denominator, are one integer equation; the search
  -- for a representation only looks at magnitudes.
  have cross : sum * 10 ^ d.scale = d.units * 10 ^ scale := by
    rw [toRat, div_eq_div_iff (pow_ten_ne_zero _) (pow_ten_ne_zero _)] at value
    exact_mod_cast value.symm
  have magnitudes : sum.natAbs * 10 ^ d.scale = d.units.natAbs * 10 ^ scale := by
    simpa [Int.natAbs_mul, Int.natAbs_pow] using congrArg Int.natAbs cross
  obtain ⟨c, found, exact_⟩ := fit?_exact (decide (sum < 0)) scale 0 sum.natAbs d.units.natAbs
    d.scale places d.units_lt magnitudes
  refine ⟨c, ?_, ?_⟩
  · rw [add?, if_neg za, if_neg zb]
    simpa using found
  · have signed : (if decide (sum < 0) then -(sum.natAbs : Int) else sum.natAbs) = sum := by
      by_cases neg : sum < 0
      · rw [if_pos (by simpa using neg)]
        omega
      · rw [if_neg (by simpa using neg)]
        omega
    rw [exact_, signed]

/-! ## Sums

With few places and few digits no sum of parts can leave the limits, in whatever order it is
formed. -/

section Sums

variable {xs ys : List Decimal} {k : Nat}

/-- Amounts with the same number of places add up in their last place. -/
theorem sum_toRat_eq (places : ∀ x ∈ xs, x.scale = k) :
    (xs.map toRat).sum = ((xs.map units).sum : ℤ) / 10 ^ k := by
  induction xs with
  | nil => simp
  | cons x rest ih =>
    simp only [List.forall_mem_cons] at places
    rw [List.map_cons, List.sum_cons, ih places.2, toRat, places.1]
    push_cast [List.map_cons, List.sum_cons]
    ring

theorem natAbs_sum_units_le (sub : xs.Sublist ys) :
    (xs.map units).sum.natAbs ≤ (ys.map (·.units.natAbs)).sum := by
  induction sub with
  | slnil => exact Nat.le_refl 0
  | cons y _ ih =>
    rw [List.map_cons, List.sum_cons]
    omega
  | cons_cons x _ ih =>
    rw [List.map_cons, List.sum_cons, List.map_cons, List.sum_cons]
    omega

/-- Sums of some of them, in any order, are exact as long as all of them together fit. -/
theorem representable_sum_of_subperm (sub : List.Subperm xs ys) (places : ∀ y ∈ ys, y.scale = k)
    (le : k ≤ 28) (small : (ys.map (·.units.natAbs)).sum < 2 ^ 96) :
    Representable (xs.map toRat).sum := by
  obtain ⟨zs, perm, sub⟩ := sub
  rw [← (perm.map toRat).sum_eq]
  exact ⟨⟨_, k, (natAbs_sum_units_le sub).trans_lt small, le⟩,
    (sum_toRat_eq fun z mem => places z (sub.subset mem)).symm⟩

end Sums

end Decimal

end BalanceAudit
