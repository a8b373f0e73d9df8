import BalanceAudit.Count
import Mathlib.Data.Nat.Notation

/-!
# The stored form of a count

The stored form has no leading zeros and may have an odd number of digits; the
reader, which works byte by byte, still gives the count back.

- `Count.hexDigits?_toDigits`: the digits of a number read as its value.
- `Count.valueOf_bytesOf`: making whole bytes does not change the value.
- `Count.ofHex?_toHex`: reading is the inverse of writing.
-/

namespace BalanceAudit

namespace Count

/-- The value of hexadecimal digits. -/
def valueOf (digits : List Nat) : Nat := digits.foldl (fun n d => n * 16 + d) 0

theorem hexDigits?_digitChar {d : Nat} (small : d < 16) :
    hexDigits? [Nat.digitChar d] = some [d] := by
  revert d
  decide

theorem hexDigits?_append {as bs : List Char} {ds es : List Nat} (left : hexDigits? as = some ds)
    (right : hexDigits? bs = some es) : hexDigits? (as ++ bs) = some (ds ++ es) := by
  induction as generalizing ds with
  | nil =>
    cases left
    exact right
  | cons a as ih =>
    rw [List.cons_append]
    rw [hexDigits?] at left ⊢
    split at left
    · next blank => rw [if_pos blank]; exact ih left
    · next solid =>
      rw [if_neg solid]
      cases first : Json.Reader.hexDigit? a with
      | none => rw [first] at left; cases left
      | some d =>
        cases later : hexDigits? as with
        | none => rw [first, later] at left; cases left
        | some more =>
          rw [first, later] at left
          cases left
          rw [ih later]
          rfl

/-- The digits of a number read as its value. -/
theorem hexDigits?_toDigits (n : Nat) :
    ∃ ds, hexDigits? (Nat.toDigits 16 n) = some ds ∧ ds.length = (Nat.toDigits 16 n).length ∧
      valueOf ds = n := by
  induction n using Nat.strongRecOn with
  | ind n ih =>
    rw [Nat.toDigits_eq_if (by decide)]
    split
    · next small =>
      exact ⟨[n], hexDigits?_digitChar small, rfl, by simp [valueOf]⟩
    · next large =>
      obtain ⟨ds, read, length, value⟩ := ih (n / 16) (by omega)
      refine ⟨ds ++ [n % 16],
        hexDigits?_append read (hexDigits?_digitChar (Nat.mod_lt n (by decide))),
        by simp [length], ?_⟩
      rw [valueOf, List.foldl_append, List.foldl_cons, List.foldl_nil, ← valueOf, value]
      omega

/-- Making whole bytes of all digits does not change the value. -/
theorem valueOf_bytesOf (ds : List Nat) : valueOf (bytesOf ds.length ds) = valueOf ds := by
  rw [bytesOf]
  by_cases odd : ds.length % 2 = 1
  · have all : (0 :: ds).length - (0 :: ds).length % 2 = (0 :: ds).length := by
      rw [List.length_cons]
      omega
    simp only [if_pos odd, all, List.take_length]
    rfl
  · have all : ds.length - ds.length % 2 = ds.length := by omega
    simp only [if_neg odd, all, List.take_length]

theorem length_toDigits_le (c : Count) : (Nat.toDigits 16 c.value).length ≤ 64 :=
  (Nat.length_toDigits_le_iff (by decide) (by decide)).mpr c.value_lt

/-- Reading is the inverse of writing. -/
theorem ofHex?_toHex (c : Count) : ofHex? c.toHex = some c := by
  obtain ⟨ds, read, length, value⟩ := hexDigits?_toDigits c.value
  have room : ¬((Nat.toDigits 16 c.value).isEmpty ∨ 64 < (Nat.toDigits 16 c.value).length) := by
    rw [not_or, List.isEmpty_iff]
    exact ⟨Nat.toDigits_ne_nil, Nat.not_lt.mpr c.length_toDigits_le⟩
  have whole := valueOf_bytesOf ds
  rw [value, length, valueOf] at whole
  rw [ofHex?, toHex, String.toList_ofList]
  simp only [if_neg room, read, Option.bind_eq_bind, Option.bind_some, whole, dif_pos c.value_lt]

theorem ofJson?_toJson (c : Count) : ofJson? c.toJson = some c := c.ofHex?_toHex

end Count

end BalanceAudit
