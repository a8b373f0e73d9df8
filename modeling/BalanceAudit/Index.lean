/-!
# Block indices

Blocks are numbered by signed 64-bit words. An index is an integer inside those limits.
Arithmetic that leaves them has no result, except where it is to stop at the limit.

- `Index.InRange`: the limits.
- `Index.next?`, `Index.distance?`: successor and difference, where these are words.
- `Index.back`: going back a number of blocks, stopping at the least index.
-/

namespace BalanceAudit

namespace Index

/-- The least index. -/
def least : Int := -9223372036854775808

/-- The greatest index. -/
def greatest : Int := 9223372036854775807

/-- The limits of a word. -/
def InRange (i : Int) : Prop := least ≤ i ∧ i ≤ greatest

instance (i : Int) : Decidable (InRange i) := inferInstanceAs (Decidable (_ ∧ _))

/-- The word that an integer is, if it is one. -/
def word? (i : Int) : Option Int := if InRange i then some i else none

/-- The word after `i`, if there is one. -/
def next? (i : Int) : Option Int := word? (i + 1)

/-- How far `i` is ahead of `j`, if that is a word. -/
def distance? (i j : Int) : Option Int := word? (i - j)

/-- The index `step` blocks before `i`, or the limit on that side. -/
def back (i step : Int) : Int := max least (min greatest (i - step))

/-- The number of distinct indices. -/
def count : Nat := 18446744073709551616

/-! ## Words -/

/-- An integer inside the limits is its own word, and no other one has any. -/
theorem word?_eq_some_iff {i j : Int} : word? i = some j ↔ InRange i ∧ i = j := by
  unfold word?
  split
  · next word => simp [word]
  · next beyond => simp [beyond]

theorem word?_eq_none_iff {i : Int} : word? i = none ↔ ¬InRange i := by
  unfold word?
  split
  · next word => simp [word]
  · next beyond => simp [beyond]

/-- Below the greatest index there is a next one. -/
theorem next?_of_lt {i : Int} (h : InRange i) (lt : i < greatest) : next? i = some (i + 1) := by
  simp only [InRange, least, greatest] at h lt
  exact word?_eq_some_iff.mpr ⟨⟨by simp only [least]; omega, by simp only [greatest]; omega⟩, rfl⟩

/-- A next index is a word greater by one. -/
theorem next?_eq_some_iff {i j : Int} (h : InRange i) :
    next? i = some j ↔ i < greatest ∧ i + 1 = j := by
  rw [next?, word?_eq_some_iff]
  simp only [InRange, least, greatest] at h ⊢
  omega

/-- The greatest index is the only one without a next one. -/
theorem next?_eq_none_iff {i : Int} (h : InRange i) : next? i = none ↔ i = greatest := by
  rw [next?, word?_eq_none_iff]
  simp only [InRange, least, greatest] at h ⊢
  omega

theorem next?_greatest : next? greatest = none := by decide

end Index

end BalanceAudit
