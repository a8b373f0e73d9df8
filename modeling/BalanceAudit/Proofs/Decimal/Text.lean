import BalanceAudit.Decimal.Json

/-!
# The written form of a decimal

The written form keeps units and places, so reading it gives the decimal back
and not only the same amount.

- `Decimal.digits?_whole`, `Decimal.digits?_places`: reading digits before and
  after the point, as long as they stay within the limits.
- `Decimal.ofText?_toText`: reading is the inverse of writing.
-/

namespace BalanceAudit

namespace Decimal

variable {ds : List Char}

/-- More digits make no smaller number. -/
theorem le_ofDigitChars (ds : List Char) (n : Nat) : n ≤ Nat.ofDigitChars 10 ds n := by
  induction ds generalizing n with
  | nil => exact Nat.le_refl n
  | cons d ds ih =>
    rw [Nat.ofDigitChars_cons]
    exact Nat.le_trans (by omega) (ih _)

/-- A digit has a value. -/
theorem digitOf?_of_isDigit {d : Char} (digit : d.isDigit = true) :
    digitOf? d = some (d.toNat - '0'.toNat) :=
  if_pos digit

/-! ## Reading digits -/

/-- Digits before the point are taken over while they stay within the limits. -/
theorem digits?_whole (all : ∀ d ∈ ds, d.isDigit = true) (rest : List Char) :
    ∀ units started, Nat.ofDigitChars 10 ds units < unitsBound →
      digits? (ds ++ rest) units 0 false started =
        digits? rest (Nat.ofDigitChars 10 ds units) 0 false (started || !ds.isEmpty) := by
  induction ds with
  | nil => intro units started _; simp
  | cons d ds ih =>
    intro units started small
    have digit := all d List.mem_cons_self
    have grown : units * 10 + (d.toNat - '0'.toNat) = 10 * units + (d.toNat - '0'.toNat) := by
      rw [Nat.mul_comm]
    rw [Nat.ofDigitChars_cons] at small ⊢
    have fits := Nat.lt_of_le_of_lt (le_ofDigitChars ds _) small
    rw [List.cons_append, digits?, if_neg (by simp), digitOf?_of_isDigit digit]
    simp only [grown]
    rw [if_pos fits, if_neg (by simp),
      ih (fun d mem => all d (List.mem_cons_of_mem _ mem)) _ _ small]
    simp

/-- Digits after the point are taken over while they and their number stay
within the limits. -/
theorem digits?_places (all : ∀ d ∈ ds, d.isDigit = true) :
    ∀ units scale, Nat.ofDigitChars 10 ds units < unitsBound → scale + ds.length ≤ maxScale →
      digits? ds units scale true true =
        some (Nat.ofDigitChars 10 ds units, scale + ds.length) := by
  induction ds with
  | nil => intro units scale _ _; rfl
  | cons d ds ih =>
    intro units scale small room
    have digit := all d List.mem_cons_self
    have grown : units * 10 + (d.toNat - '0'.toNat) = 10 * units + (d.toNat - '0'.toNat) := by
      rw [Nat.mul_comm]
    rw [Nat.ofDigitChars_cons] at small ⊢
    rw [List.length_cons] at room ⊢
    have fits := Nat.lt_of_le_of_lt (le_ofDigitChars ds _) small
    rw [digits?, if_neg (by omega), digitOf?_of_isDigit digit]
    simp only [grown]
    rw [if_pos fits, if_pos trivial,
      ih (fun d mem => all d (List.mem_cons_of_mem _ mem)) _ _ small (by omega)]
    congr 2
    omega

/-! ## Padded digits -/

/-- Padding adds digits only. -/
theorem isDigit_of_mem_paddedDigits {width n : Nat} {c : Char} (mem : c ∈ paddedDigits width n) :
    c.isDigit = true := by
  rcases List.mem_append.mp mem with mem | mem
  · rw [List.eq_of_mem_replicate mem]
    rfl
  · exact Nat.isDigit_of_mem_toDigits (by decide) (by decide) mem

/-- It leaves the number. -/
theorem ofDigitChars_paddedDigits (width n : Nat) :
    Nat.ofDigitChars 10 (paddedDigits width n) 0 = n := by
  rw [paddedDigits, Nat.ofDigitChars_append, Nat.ofDigitChars_replicate_zero, Nat.mul_zero,
    Nat.ofDigitChars_ten_toDigits]

/-- It fills the width. -/
theorem le_length_paddedDigits (width n : Nat) : width ≤ (paddedDigits width n).length := by
  simp only [paddedDigits, List.length_append, List.length_replicate]
  omega

/-! ## The written form -/

/-- The digits before the point. -/
def wholeDigits (d : Decimal) : List Char :=
  let digits := paddedDigits (d.scale + 1) d.units.natAbs
  digits.take (digits.length - d.scale)

/-- The digits after the point. -/
def placeDigits (d : Decimal) : List Char :=
  let digits := paddedDigits (d.scale + 1) d.units.natAbs
  digits.drop (digits.length - d.scale)

variable (d : Decimal)

/-- The text of a decimal is its sign, its whole part and its places. -/
theorem toChars_eq :
    d.toChars = (if d.units < 0 then ['-'] else []) ++
      (d.wholeDigits ++ if d.scale = 0 then [] else '.' :: d.placeDigits) :=
  List.append_assoc _ _ _

theorem wholeDigits_append_placeDigits :
    d.wholeDigits ++ d.placeDigits = paddedDigits (d.scale + 1) d.units.natAbs :=
  List.take_append_drop _ _

/-- There are as many places as the scale says. -/
theorem length_placeDigits : d.placeDigits.length = d.scale := by
  have := le_length_paddedDigits (d.scale + 1) d.units.natAbs
  rw [placeDigits, List.length_drop]
  omega

/-- There is a digit in front of them. -/
theorem wholeDigits_ne_nil : d.wholeDigits ≠ [] := by
  have := le_length_paddedDigits (d.scale + 1) d.units.natAbs
  rw [wholeDigits, ← List.length_pos_iff, List.length_take]
  omega

theorem isDigit_of_mem_wholeDigits {c : Char} (mem : c ∈ d.wholeDigits) : c.isDigit = true :=
  isDigit_of_mem_paddedDigits (List.mem_of_mem_take mem)

theorem isDigit_of_mem_placeDigits {c : Char} (mem : c ∈ d.placeDigits) : c.isDigit = true :=
  isDigit_of_mem_paddedDigits (List.mem_of_mem_drop mem)

/-- Together they are the digits of the units. -/
theorem ofDigitChars_wholeDigits_placeDigits :
    Nat.ofDigitChars 10 d.placeDigits (Nat.ofDigitChars 10 d.wholeDigits 0) = d.units.natAbs := by
  rw [← Nat.ofDigitChars_append, wholeDigits_append_placeDigits, ofDigitChars_paddedDigits]

/-- The digits read as the units and places of the decimal. -/
theorem digits?_unsigned :
    digits? (d.wholeDigits ++ if d.scale = 0 then [] else '.' :: d.placeDigits) 0 0 false false =
      some (d.units.natAbs, d.scale) := by
  have total := d.ofDigitChars_wholeDigits_placeDigits
  have small : Nat.ofDigitChars 10 d.placeDigits (Nat.ofDigitChars 10 d.wholeDigits 0) <
      unitsBound := by
    rw [total]
    exact d.units_lt
  have started : (false || !d.wholeDigits.isEmpty) = true := by
    simp [d.wholeDigits_ne_nil]
  rw [digits?_whole (fun c => d.isDigit_of_mem_wholeDigits) _ _ _
    (Nat.lt_of_le_of_lt (le_ofDigitChars _ _) small), started]
  -- A text without places has no point either, so the reader ends with the whole part.
  by_cases none_left : d.scale = 0
  · have no_places : d.placeDigits = [] :=
      List.eq_nil_of_length_eq_zero (d.length_placeDigits.trans none_left)
    rw [no_places] at total
    rw [if_pos none_left, digits?, none_left]
    exact congrArg (fun n => some (n, 0)) total
  · have point : digitOf? '.' = none := by decide
    rw [if_neg none_left, digits?, if_neg (by simp), point]
    simp only [not_false_eq_true, and_self, if_true, Bool.false_eq_true]
    rw [digits?_places (fun c => d.isDigit_of_mem_placeDigits) _ _ small
      (by rw [d.length_placeDigits]; have := d.scale_le; simp only [maxScale]; omega), total,
      d.length_placeDigits, Nat.zero_add]

theorem ofUnits?_self : ofUnits? d.units d.scale = some d :=
  dif_pos ⟨d.units_lt, d.scale_le⟩

/-- The positional reading of the text is the decimal. -/
theorem positional?_toChars : positional? d.toChars = some d := by
  have digits := d.digits?_unsigned
  rw [toChars_eq]
  by_cases negative : d.units < 0
  · have units : -(d.units.natAbs : Int) = d.units := by omega
    rw [if_pos negative]
    simp only [positional?, List.cons_append, List.nil_append, digits, Option.bind_eq_bind,
      Option.bind_some, if_true, units, ofUnits?_self]
  · have units : (d.units.natAbs : Int) = d.units := by omega
    -- The first character is a digit and hence no sign.
    have unsigned : ∀ sign rest, sign.isDigit = false →
        (d.wholeDigits ++ if d.scale = 0 then [] else '.' :: d.placeDigits) = sign :: rest →
        False := by
      intro sign rest other eq
      obtain ⟨c, cs, first⟩ := List.exists_cons_of_ne_nil d.wholeDigits_ne_nil
      have digit := d.isDigit_of_mem_wholeDigits (c := c) (by rw [first]; exact List.mem_cons_self)
      rw [first, List.cons_append] at eq
      rw [(List.cons.inj eq).1, other] at digit
      cases digit
    rw [if_neg negative, List.nil_append, positional?.eq_def]
    split
    next _ neg body heq =>
      split at heq
      · next eq => exact (unsigned _ _ rfl eq).elim
      · next eq => exact (unsigned _ _ rfl eq).elim
      · cases heq
        simp only [digits, Option.bind_eq_bind, Option.bind_some, Bool.false_eq_true, if_false,
          units, ofUnits?_self]

/-- Reading is the inverse of writing, places included. -/
theorem ofText?_toText : ofText? d.toText = some d := by
  rw [ofText?, toText, String.toList_ofList, positional?_toChars]
  rfl

theorem ofJson?_toJson : ofJson? d.toJson = some d := d.ofText?_toText

end Decimal

end BalanceAudit
