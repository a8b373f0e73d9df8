import BalanceAudit.Json.Reader
import BalanceAudit.Json.Writer
import Mathlib.Data.List.TakeWhile

/-!
# Reading back what was written

The text of a value over several lines reads as that value, for the values that
are made of null, truth values, integers, texts, arrays and objects with texts
as names.

- `Json.Spelled`: these values.
- `Json.Reader.pieces?_quoted`: a string, up to its closing quote.
- `Json.Reader.number?_toDigits`: an integer, up to a character that ends it.
- `Json.Written`: what is shown of a value by induction.
- `Json.parse?_pretty`: reading is the inverse of writing.
-/

namespace BalanceAudit

namespace Json

/-- Values made of null, truth values, integers, texts, arrays and objects. -/
inductive Spelled : Json → Prop where
  | null : Spelled null
  | bool (b : Bool) : Spelled (bool b)
  | int (i : Int) : Spelled (int i)
  | text (s : String) : Spelled (text s)
  | array {items : List Json} (each : ∀ v ∈ items, Spelled v) : Spelled (array items)
  | record {members : List (String × Json)} (each : ∀ m ∈ members, Spelled m.2) :
      Spelled (record members)

/-- A list is an array of what its elements are written as. -/
theorem Spelled.list {α : Type} {f : α → Json} (as : List α) (each : ∀ a, Spelled (f a)) :
    Spelled (list f as) := by
  refine .array fun v mem => ?_
  obtain ⟨a, -, rfl⟩ := List.mem_map.mp mem
  exact each a

namespace Reader

open Writer

/-! ## Blanks

The reader skips what the writer indents with. -/

@[simp] theorem skipBlank_newline (level : Nat) (rest : List Char) :
    skipBlank (newline level rest) = skipBlank rest := by
  rw [newline, skipBlank, List.dropWhile_cons_of_pos (by decide), ← skipBlank]
  induction 2 * level with
  | zero => rfl
  | succ n ih =>
    rw [List.replicate_succ, List.cons_append, skipBlank, List.dropWhile_cons_of_pos (by decide)]
    exact ih

@[simp] theorem skipBlank_space (rest : List Char) : skipBlank (' ' :: rest) = skipBlank rest :=
  List.dropWhile_cons_of_pos (by decide)

/-- What is not blank is not skipped. -/
theorem skipBlank_cons {c : Char} (solid : isBlank c = false) (cs : List Char) :
    skipBlank (c :: cs) = c :: cs :=
  List.dropWhile_cons_of_neg (by simp [solid])

@[simp] theorem length_newline (level : Nat) (rest : List Char) :
    (newline level rest).length = 1 + 2 * level + rest.length := by
  simp only [newline, List.length_cons, List.length_append, List.length_replicate]
  omega

/-! ## Strings

A written string is read one piece at a time, until its closing quote. -/

/-- The two digits that are written for a control character are its code. -/
theorem hex4?_control {n : Nat} (h : n < 0x20) :
    hex4? '0' '0' (Nat.digitChar (n / 16)) (Nat.digitChar (n % 16)) = some n := by
  revert n
  decide

/-- The pieces with one more in front. -/
def Piece.before (p : Piece) (read : Option (List Piece × List Char)) :
    Option (List Piece × List Char) :=
  read.map fun (ps, after) => (p :: ps, after)

/-- A character that has a letter of its own. -/
theorem pieces?_letter {letter c : Char} (h : escaped? letter = some c) (rest : List Char) :
    pieces? ('\\' :: letter :: rest) = (Piece.whole c).before (pieces? rest) := by
  rw [pieces?.eq_4, h]
  · cases pieces? rest <;> rfl
  · rintro a b c d rest rfl
    cases h

/-- A control character without a letter, as its code. -/
theorem pieces?_control {c : Char} (control : c.toNat < 0x20) (rest : List Char) :
    pieces? ('\\' :: 'u' :: '0' :: '0' :: Nat.digitChar (c.toNat / 16) ::
      Nat.digitChar (c.toNat % 16) :: rest) = (Piece.whole c).before (pieces? rest) := by
  have piece : pieceOf c.toNat = .whole c := by
    rw [pieceOf, if_neg (by omega), Char.ofNat_toNat]
  rw [pieces?, hex4?_control control, ← piece]
  cases pieces? rest <;> rfl

/-- A character that stands for itself. -/
theorem pieces?_plain {c : Char} (quote : c ≠ '"') (backslash : c ≠ '\\')
    (printed : ¬c.toNat < 0x20) (rest : List Char) :
    pieces? (c :: rest) = (Piece.whole c).before (pieces? rest) := by
  rw [pieces?.eq_5 c rest quote (fun _ _ _ _ _ h => (backslash h).elim)
    (fun _ _ h => (backslash h).elim), if_neg printed, if_neg backslash]
  cases pieces? rest <;> rfl

/-- A character as it stands inside a string is one piece. -/
theorem pieces?_escape (c : Char) (rest : List Char) :
    pieces? (escape c ++ rest) = (Piece.whole c).before (pieces? rest) := by
  unfold escape
  split
  -- The last case is a character without a letter; the others have one each.
  case h_8 quote backslash _ _ _ _ _ =>
    split
    · next control => exact pieces?_control control rest
    · next printed => exact pieces?_plain quote backslash printed rest
  all_goals exact pieces?_letter rfl rest

/-- The pieces of a string are its characters. -/
theorem pieces?_quoted (cs rest : List Char) :
    pieces? (cs.foldr (fun c r => escape c ++ r) ('"' :: rest)) = some (cs.map .whole, rest) := by
  induction cs with
  | nil => rw [List.foldr_nil, pieces?, List.map_nil]
  | cons c cs ih => rw [List.foldr_cons, pieces?_escape, ih]; rfl

/-- Whole characters need no joining. -/
theorem join?_whole (cs : List Char) : join? (cs.map .whole) = some cs := by
  induction cs with
  | nil => rfl
  | cons c cs ih => rw [List.map_cons, join?, ih]; rfl

/-- A string in quotes reads as its text. -/
theorem string?_quoted (s : String) (rest : List Char) :
    string? (s.toList.foldr (fun c r => escape c ++ r) ('"' :: rest)) = some (some s, rest) := by
  rw [string?, pieces?_quoted]
  simp [join?_whole]

/-- A quoted string takes room in front of what follows it. -/
theorem length_quoted (s : String) (rest : List Char) :
    rest.length < (quoted s rest).length := by
  have grows : ∀ cs : List Char,
      rest.length < (cs.foldr (fun c r => escape c ++ r) ('"' :: rest)).length := by
    intro cs
    induction cs with
    | nil => simp
    | cons c cs ih =>
      rw [List.foldr_cons, List.length_append]
      omega
  have := grows s.toList
  rw [quoted, List.length_cons]
  omega

/-! ## Integers -/

/-- What follows a value: nothing, a comma or a line break. -/
def Delimited (rest : List Char) : Prop := ∀ c cs, rest = c :: cs → c = ',' ∨ c = '\n'

/-- The end of the text ends a number. -/
theorem delimited_nil : Delimited [] := fun _ _ h => nomatch h

/-- A comma does, in front of the next item or member. -/
theorem delimited_comma (rest : List Char) : Delimited (',' :: rest) := by
  rintro c cs ⟨⟩
  exact .inl rfl

/-- A line break does, behind the last one. -/
theorem delimited_newline (level : Nat) (rest : List Char) : Delimited (newline level rest) := by
  rintro c cs h
  cases h
  exact .inr rfl

/-- The digits end where the number is delimited. -/
theorem digits_append {ds rest : List Char} (all : ∀ c ∈ ds, c.isDigit = true)
    (ends : Delimited rest) : digits (ds ++ rest) = (ds, rest) := by
  have stop : rest.takeWhile Char.isDigit = [] ∧ rest.dropWhile Char.isDigit = rest := by
    cases rest with
    | nil => exact ⟨rfl, rfl⟩
    | cons c cs => rcases ends c cs rfl with rfl | rfl <;> exact ⟨rfl, rfl⟩
  rw [digits, List.takeWhile_append_of_pos all, List.dropWhile_append_of_pos all, stop.1, stop.2,
    List.append_nil]

/-- No zero leads the digits of a number. -/
theorem toDigits_zero_cons {n : Nat} {c : Char} {ds : List Char} :
    Nat.toDigits 10 n ≠ '0' :: c :: ds := by
  -- The leading digits are those of the tenth part, which is smaller.
  induction n using Nat.strongRecOn generalizing c ds with
  | ind n ih =>
    intro h
    rw [Nat.toDigits_eq_if (by decide)] at h
    split at h
    · simp at h
    · next large =>
      have leading_ne : Nat.toDigits 10 (n / 10) ≠ [] := Nat.toDigits_ne_nil
      rcases leading : Nat.toDigits 10 (n / 10) with _ | ⟨first, _ | ⟨second, more⟩⟩
      · exact leading_ne leading
      · -- The only digit in front is not zero, since the number has two digits.
        obtain ⟨rfl, -⟩ : first = '0' ∧ _ := by simpa [leading] using h
        have value : Nat.ofDigitChars 10 (Nat.toDigits 10 (n / 10)) 0 = n / 10 :=
          Nat.ofDigitChars_ten_toDigits
        have zero : Nat.ofDigitChars 10 ['0'] 0 = 0 := by decide
        rw [leading, zero] at value
        omega
      · obtain ⟨rfl, -⟩ : first = '0' ∧ _ := by simpa [leading] using h
        exact ih (n / 10) (by omega) leading

/-- The whole part of a number is read up to the character that ends it. -/
theorem whole?_toDigits (n : Nat) {rest : List Char} (ends : Delimited rest) :
    whole? (Nat.toDigits 10 n ++ rest) = some (Nat.toDigits 10 n, rest) := by
  rw [whole?,
    digits_append (fun c mem => Nat.isDigit_of_mem_toDigits (by decide) (by decide) mem) ends]
  split
  · next h => exact absurd (congrArg Prod.fst h) Nat.toDigits_ne_nil
  · next h => exact absurd (congrArg Prod.fst h) toDigits_zero_cons
  · rfl

/-- An integer reads as its digits. -/
theorem number?_toDigits (negative : Bool) (n : Nat) {rest : List Char} (ends : Delimited rest) :
    number? negative (Nat.toDigits 10 n ++ rest) =
      some (.number ⟨negative, Nat.toDigits 10 n, [], none⟩, rest) := by
  -- What delimits a number starts neither places nor an exponent.
  have no_places : places? rest = some ([], rest) := by
    rw [places?.eq_def]
    split
    · rcases ends _ _ rfl with h | h <;> cases h
    · rfl
  have no_exponent : exponent? rest = some (none, rest) := by
    cases rest with
    | nil => rfl
    | cons c cs => rcases ends c cs rfl with rfl | rfl <;> rfl
  rw [number?, whole?_toDigits n ends]
  simp [no_places, no_exponent]

end Reader

/-! ## Values -/

open Writer Reader

/-- What is shown of a value by induction: its text is not empty and does not
start like a blank or the end of an array, and with fuel for its length it reads
as the value. -/
structure Written (v : Json) : Prop where
  head : ∀ level rest, ∃ c cs, Writer.pretty v level rest = c :: cs ∧ isBlank c = false ∧
    c ≠ ']' ∧ rest.length ≤ cs.length
  reads : ∀ level rest fuel, Delimited rest →
    2 * (Writer.pretty v level rest).length ≤ fuel + 1 + 2 * rest.length →
    value? fuel (Writer.pretty v level rest) = some (v, rest)

namespace Written

/-- The text of a value is longer than what follows it. -/
theorem length_lt {v : Json} (h : Written v) (level : Nat) (rest : List Char) :
    rest.length < (Writer.pretty v level rest).length := by
  obtain ⟨c, cs, eq, -, -, le⟩ := h.head level rest
  rw [eq, List.length_cons]
  omega

/-- Without fuel nothing can be due, so that one unit is always there. -/
theorem of_succ {v : Json}
    (head : ∀ level rest, ∃ c cs, Writer.pretty v level rest = c :: cs ∧ isBlank c = false ∧
      c ≠ ']' ∧ rest.length ≤ cs.length)
    (reads : ∀ level rest fuel, Delimited rest →
      2 * (Writer.pretty v level rest).length ≤ fuel + 2 + 2 * rest.length →
      value? (fuel + 1) (Writer.pretty v level rest) = some (v, rest)) : Written v := by
  refine ⟨head, fun level rest fuel ends enough => ?_⟩
  cases fuel with
  | zero =>
    obtain ⟨c, cs, eq, -, -, le⟩ := head level rest
    rw [eq, List.length_cons] at enough
    omega
  | succ fuel => exact reads level rest fuel ends (by omega)

/-- Null is read back. -/
theorem null : Written null := by
  refine of_succ (fun level rest => ⟨'n', _, rfl, by decide, by decide, by simp; omega⟩) ?_
  intro level rest fuel _ _
  rw [Writer.pretty, scalar, value?, skipBlank_cons (by decide)]
  all_goals simp

/-- So are the truth values. -/
theorem bool (b : Bool) : Written (bool b) := by
  refine of_succ (fun level rest => ?_) fun level rest fuel _ _ => ?_
  · cases b
    · exact ⟨'f', _, rfl, by decide, by decide, by simp; omega⟩
    · exact ⟨'t', _, rfl, by decide, by decide, by simp; omega⟩
  · cases b
    all_goals
      rw [Writer.pretty, scalar, value?, skipBlank_cons (by decide)]
      all_goals simp

/-- So are texts, whatever characters they have. -/
theorem text (s : String) : Written (text s) := by
  have form : ∀ level rest, Writer.pretty (.text s) level rest = quoted s rest := fun _ _ => rfl
  refine of_succ (fun level rest => ⟨'"', _, form level rest, by decide, by decide, ?_⟩) ?_
  · have := length_quoted s rest
    rw [quoted, List.length_cons] at this
    omega
  · intro level rest fuel _ _
    rw [form, quoted, value?, skipBlank_cons (by decide)]
    simp only [string?_quoted, Json.text]
    rfl

/-! ### Integers -/

/-- An integer is written as its digits, behind a sign if it is negative. -/
theorem pretty_int (i : Int) (level : Nat) (rest : List Char) :
    Writer.pretty (.int i) level rest =
      if i < 0 then '-' :: (Nat.toDigits 10 i.natAbs ++ rest)
      else Nat.toDigits 10 i.natAbs ++ rest := by
  by_cases negative : i < 0 <;> simp [Json.int, Writer.pretty, scalar, Writer.number, negative]

/-- There is a first digit. -/
theorem exists_toDigits (n : Nat) :
    ∃ d ds, Nat.toDigits 10 n = d :: ds ∧ d.isDigit = true := by
  rcases eq : Nat.toDigits 10 n with _ | ⟨d, ds⟩
  · exact absurd eq Nat.toDigits_ne_nil
  · exact ⟨d, ds, rfl,
      Nat.isDigit_of_mem_toDigits (by decide) (by decide) (eq ▸ List.mem_cons_self)⟩

/-- A digit is not skipped. -/
theorem solid_of_isDigit {d : Char} (digit : d.isDigit = true) : isBlank d = false := by
  by_contra blank
  simp only [isBlank, Bool.not_eq_false, Bool.or_eq_true, beq_iff_eq] at blank
  rcases blank with ((rfl | rfl) | rfl) | rfl <;> cases digit

/-- A value that starts with a digit is a number. -/
theorem value?_digit {d : Char} (digit : d.isDigit = true) (fuel : Nat) (cs : List Char) :
    value? (fuel + 1) (d :: cs) = number? false (d :: cs) := by
  rw [value?, skipBlank_cons (solid_of_isDigit digit)]
  split
  -- Every other case starts with a character that is no digit.
  case h_8 => rfl
  all_goals
    next eq =>
      cases eq
      cases digit

/-- Integers are read back, of either sign. -/
theorem int (i : Int) : Written (int i) := by
  obtain ⟨d, ds, digits, digit⟩ := exists_toDigits i.natAbs
  have number := fun negative rest => @number?_toDigits negative i.natAbs rest
  refine of_succ (fun level rest => ?_) fun level rest fuel ends _ => ?_
  · rw [pretty_int]
    split
    · exact ⟨'-', _, rfl, by decide, by decide, by simp⟩
    · rw [digits]
      refine ⟨d, _, rfl, solid_of_isDigit digit, ?_, by simp⟩
      rintro rfl
      cases digit
  · rw [pretty_int]
    split
    · next negative =>
      rw [value?, skipBlank_cons (by decide)]
      simp only [number true rest ends, Json.int, negative, decide_true]
    · next positive =>
      rw [digits, List.cons_append, value?_digit digit, ← List.cons_append, ← digits,
        number false rest ends]
      simp [Json.int, positive]

/-! ### Arrays -/

/-- A value may start on another line. -/
theorem value?_newline (fuel level : Nat) (cs : List Char) :
    value? fuel (newline level cs) = value? fuel cs := by
  cases fuel with
  | zero => rfl
  | succ fuel => rw [value?, value?, skipBlank_newline]

/-- So may an item of an array. -/
theorem items?_newline (fuel level : Nat) (cs : List Char) :
    items? fuel (newline level cs) = items? fuel cs := by
  cases fuel with
  | zero => rfl
  | succ fuel => rw [items?, items?, value?_newline]

/-- The items of an array take room in front of what follows them. -/
theorem length_items {items : List Json} (each : ∀ v ∈ items, Written v) (level : Nat)
    (rest : List Char) : rest.length ≤ (prettyItems items level rest).length := by
  induction items with
  | nil => exact Nat.le_refl _
  | cons v vs ih =>
    have first := each v List.mem_cons_self
    cases vs with
    | nil => exact (first.length_lt level rest).le
    | cons w ws =>
      have later := ih fun u mem => each u (List.mem_cons_of_mem _ mem)
      have lt := first.length_lt level (',' :: newline level (prettyItems (w :: ws) level rest))
      rw [prettyItems.eq_3 _ _ _ _ (by simp)]
      simp only [List.length_cons, length_newline] at lt ⊢
      omega

/-- The items of an array, up to its closing bracket. -/
theorem items?_prettyItems {items : List Json} (each : ∀ v ∈ items, Written v)
    (nonempty : items ≠ []) (inner outer : Nat) (rest : List Char) :
    ∀ fuel, 2 * (prettyItems items inner (newline outer (']' :: rest))).length ≤
        fuel + 2 * rest.length →
      items? fuel (prettyItems items inner (newline outer (']' :: rest))) = some (items, rest) := by
  -- Each item needs fuel for its own text, and one unit to go on to the next.
  induction items with
  | nil => cases nonempty rfl
  | cons v vs ih =>
    intro fuel enough
    have first := each v List.mem_cons_self
    cases vs with
    | nil =>
      have lt := first.length_lt inner (newline outer (']' :: rest))
      rw [prettyItems] at enough ⊢
      simp only [length_newline, List.length_cons] at lt
      obtain ⟨fuel, rfl⟩ : ∃ f, fuel = f + 1 := ⟨fuel - 1, by omega⟩
      rw [items?, first.reads inner _ fuel (delimited_newline _ _)
        (by simp only [length_newline, List.length_cons]; omega)]
      simp [skipBlank_cons (c := ']') (by decide)]
    | cons w ws =>
      have rest_each : ∀ u ∈ w :: ws, Written u := fun u mem =>
        each u (List.mem_cons_of_mem _ mem)
      rw [prettyItems.eq_3 _ _ _ _ (by simp)] at enough ⊢
      have lt := first.length_lt inner
        (',' :: newline inner (prettyItems (w :: ws) inner (newline outer (']' :: rest))))
      have le := length_items rest_each inner (newline outer (']' :: rest))
      simp only [length_newline, List.length_cons] at lt le
      obtain ⟨fuel, rfl⟩ : ∃ f, fuel = f + 1 := ⟨fuel - 1, by omega⟩
      rw [items?, first.reads inner _ fuel (delimited_comma _)
        (by simp only [length_newline, List.length_cons]; omega)]
      simp [skipBlank_cons (c := ',') (by decide), items?_newline,
        ih rest_each (by simp) fuel (by omega)]

/-- An array with items does not start like an empty one. -/
theorem head_items {items : List Json} (each : ∀ v ∈ items, Written v) (nonempty : items ≠ [])
    (level : Nat) (rest : List Char) :
    ∃ c cs, prettyItems items level rest = c :: cs ∧ isBlank c = false ∧ c ≠ ']' := by
  match items, nonempty with
  | [v], _ =>
    obtain ⟨c, cs, eq, solid, other, -⟩ := (each v List.mem_cons_self).head level rest
    exact ⟨c, cs, eq, solid, other⟩
  | v :: w :: ws, _ =>
    obtain ⟨c, cs, eq, solid, other, -⟩ := (each v List.mem_cons_self).head level
      (',' :: newline level (prettyItems (w :: ws) level rest))
    exact ⟨c, cs, eq, solid, other⟩

/-- Arrays are read back, empty ones included. -/
theorem array {items : List Json} (each : ∀ v ∈ items, Written v) : Written (array items) := by
  cases items with
  | nil =>
    refine of_succ (fun level rest => ⟨'[', _, rfl, by decide, by decide, by simp⟩) ?_
    intro level rest fuel _ _
    rw [Writer.pretty, value?, skipBlank_cons (by decide)]
    simp [skipBlank_cons (c := ']') (by decide)]
  | cons v vs =>
    have form : ∀ level rest, Writer.pretty (.array (v :: vs)) level rest =
        '[' :: newline (level + 1)
          (prettyItems (v :: vs) (level + 1) (newline level (']' :: rest))) := fun _ _ => rfl
    have longer := fun level rest =>
      length_items each (level + 1) (newline level (']' :: rest))
    refine of_succ (fun level rest => ⟨'[', _, form level rest, by decide, by decide, ?_⟩) ?_
    · have := longer level rest
      simp only [length_newline, List.length_cons] at this ⊢
      omega
    · intro level rest fuel _ enough
      obtain ⟨c, cs, starts, solid, other⟩ :=
        head_items each (by simp) (level + 1) (newline level (']' :: rest))
      rw [form] at enough ⊢
      have read := items?_prettyItems each (by simp) (level + 1) level rest fuel
        (by simp only [length_newline, List.length_cons] at enough; omega)
      rw [value?, skipBlank_cons (by decide)]
      simp only [skipBlank_newline]
      -- The text does not start with the bracket of an empty array, so the items are read.
      rw [starts] at read ⊢
      rw [skipBlank_cons solid]
      split
      · next eq => exact absurd (List.cons.inj eq).1 other
      · rw [read]
        rfl

/-! ### Objects -/

/-- A member as an object has it. -/
def named (m : String × Json) : Option String × Json := (some m.1, m.2)

/-- A value may stand behind a blank, as it does behind the name of a member. -/
theorem value?_space (fuel : Nat) (cs : List Char) : value? fuel (' ' :: cs) = value? fuel cs := by
  cases fuel with
  | zero => rfl
  | succ fuel => rw [value?, value?, skipBlank_space]

/-- A member may start on another line. -/
theorem members?_newline (fuel level : Nat) (cs : List Char) :
    members? fuel (newline level cs) = members? fuel cs := by
  cases fuel with
  | zero => rfl
  | succ fuel => rw [members?, members?, skipBlank_newline]

/-- The members of an object take room in front of what follows them. -/
theorem length_members {members : List (String × Json)} (each : ∀ m ∈ members, Written m.2)
    (level : Nat) (rest : List Char) :
    rest.length ≤ (prettyMembers (members.map named) level rest).length := by
  induction members with
  | nil => exact Nat.le_refl _
  | cons m ms ih =>
    have first := each m List.mem_cons_self
    rw [List.map_cons, named]
    cases ms with
    | nil =>
      have lt := first.length_lt level rest
      have quotes := length_quoted m.1 (':' :: ' ' :: Writer.pretty m.2 level rest)
      simp only [List.length_cons] at quotes
      exact Nat.le_of_lt (by simp only [List.map_nil, prettyMembers, Option.getD_some]; omega)
    | cons w ws =>
      have later := ih fun u mem => each u (List.mem_cons_of_mem _ mem)
      have lt := first.length_lt level
        (',' :: newline level (prettyMembers ((w :: ws).map named) level rest))
      have quotes := length_quoted m.1 (':' :: ' ' :: Writer.pretty m.2 level
        (',' :: newline level (prettyMembers ((w :: ws).map named) level rest)))
      rw [prettyMembers.eq_3 _ _ _ _ _ (by simp), Option.getD_some]
      simp only [List.length_cons, length_newline] at lt quotes ⊢
      omega

/-- One member with its name in quotes; what comes behind its value decides how it goes on. -/
theorem members?_quoted {fuel : Nat} {v : Json} {cs after : List Char} (k : String)
    (value : value? fuel cs = some (v, after)) :
    members? (fuel + 1) (quoted k (':' :: ' ' :: cs)) =
      match skipBlank after with
      | ',' :: rest => do
        let (ms, rest) ← members? fuel rest
        return ((some k, v) :: ms, rest)
      | '\x7d' :: rest => some ([(some k, v)], rest)
      | _ => none := by
  have member : value? fuel (' ' :: cs) = some (v, after) := by rw [value?_space, value]
  rw [members?, quoted, skipBlank_cons (by decide)]
  simp only [string?_quoted, Option.bind_eq_bind, Option.bind_some,
    skipBlank_cons (c := ':') (by decide)]
  exact congrArg (Option.bind · _) member

/-- The members of an object, up to its closing brace. -/
theorem members?_prettyMembers {members : List (String × Json)}
    (each : ∀ m ∈ members, Written m.2) (nonempty : members ≠ []) (inner outer : Nat)
    (rest : List Char) :
    ∀ fuel, 2 * (prettyMembers (members.map named) inner (newline outer ('\x7d' :: rest))).length ≤
        fuel + 2 * rest.length →
      members? fuel (prettyMembers (members.map named) inner (newline outer ('\x7d' :: rest))) =
        some (members.map named, rest) := by
  -- As for the items of an array, with a name in front of each value.
  induction members with
  | nil => cases nonempty rfl
  | cons m ms ih =>
    intro fuel enough
    have first := each m List.mem_cons_self
    rw [List.map_cons, named] at enough ⊢
    cases ms with
    | nil =>
      have lt := first.length_lt inner (newline outer ('\x7d' :: rest))
      have quotes := length_quoted m.1
        (':' :: ' ' :: Writer.pretty m.2 inner (newline outer ('\x7d' :: rest)))
      rw [List.map_nil, prettyMembers, Option.getD_some] at enough ⊢
      simp only [length_newline, List.length_cons] at lt quotes
      obtain ⟨fuel, rfl⟩ : ∃ f, fuel = f + 1 := ⟨fuel - 1, by omega⟩
      have value := first.reads inner _ fuel (delimited_newline outer ('\x7d' :: rest))
        (by simp only [length_newline, List.length_cons]; omega)
      rw [members?_quoted m.1 value]
      simp [skipBlank_cons (c := '\x7d') (by decide)]
    | cons w ws =>
      have rest_each : ∀ u ∈ w :: ws, Written u.2 := fun u mem =>
        each u (List.mem_cons_of_mem _ mem)
      have lt := first.length_lt inner (',' :: newline inner
        (prettyMembers ((w :: ws).map named) inner (newline outer ('\x7d' :: rest))))
      have quotes := length_quoted m.1 (':' :: ' ' :: Writer.pretty m.2 inner (',' :: newline inner
        (prettyMembers ((w :: ws).map named) inner (newline outer ('\x7d' :: rest)))))
      have le := length_members rest_each inner (newline outer ('\x7d' :: rest))
      rw [prettyMembers.eq_3 _ _ _ _ _ (by simp), Option.getD_some] at enough ⊢
      simp only [length_newline, List.length_cons] at lt quotes le
      obtain ⟨fuel, rfl⟩ : ∃ f, fuel = f + 1 := ⟨fuel - 1, by omega⟩
      have value := first.reads inner (',' :: newline inner
          (prettyMembers ((w :: ws).map named) inner (newline outer ('\x7d' :: rest)))) fuel
        (delimited_comma _) (by simp only [length_newline, List.length_cons]; omega)
      rw [members?_quoted m.1 value, skipBlank_cons (c := ',') (by decide)]
      simp only [members?_newline, ih rest_each (by simp) fuel (by omega)]
      rfl

/-- Objects are read back, empty ones included. -/
theorem record {members : List (String × Json)} (each : ∀ m ∈ members, Written m.2) :
    Written (record members) := by
  cases members with
  | nil =>
    have form : ∀ level rest, Writer.pretty (.record []) level rest = '\x7b' :: '\x7d' :: rest :=
      fun _ _ => rfl
    refine of_succ
      (fun level rest => ⟨'\x7b', _, form level rest, by decide, by decide, by simp⟩) ?_
    intro level rest fuel _ _
    rw [form, value?, skipBlank_cons (by decide)]
    simp [skipBlank_cons (c := '\x7d') (by decide), Json.record]
  | cons m ms =>
    have form : ∀ level rest, Writer.pretty (.record (m :: ms)) level rest =
        '\x7b' :: newline (level + 1)
          (prettyMembers ((m :: ms).map named) (level + 1) (newline level ('\x7d' :: rest))) :=
      fun _ _ => rfl
    refine of_succ (fun level rest => ⟨'\x7b', _, form level rest, by decide, by decide, ?_⟩) ?_
    · have := length_members each (level + 1) (newline level ('\x7d' :: rest))
      simp only [length_newline, List.length_cons] at this ⊢
      omega
    · intro level rest fuel _ enough
      rw [form] at enough ⊢
      have read := members?_prettyMembers each (by simp) (level + 1) level rest fuel
        (by simp only [length_newline, List.length_cons] at enough; omega)
      -- The first member starts with a quote, not with the brace of an empty object.
      obtain ⟨cs, starts⟩ : ∃ cs, prettyMembers ((m :: ms).map named) (level + 1)
          (newline level ('\x7d' :: rest)) = '"' :: cs := by
        cases ms <;> exact ⟨_, rfl⟩
      rw [value?, skipBlank_cons (by decide)]
      simp only [skipBlank_newline]
      rw [starts] at read ⊢
      rw [skipBlank_cons (by decide)]
      split
      · next eq => cases eq
      · rw [read]
        rfl

end Written

/-- The induction is on how the value is put together, one case for each way. -/
theorem Spelled.written {v : Json} (h : Spelled v) : Written v := by
  induction h with
  | null => exact .null
  | bool b => exact .bool b
  | int i => exact .int i
  | text s => exact .text s
  | array _ ih => exact .array ih
  | record _ ih => exact .record ih

/-- Reading is the inverse of writing. -/
theorem parse?_pretty {v : Json} (h : Spelled v) : parse? v.pretty = some v := by
  have read := h.written.reads 0 [] (2 * (Writer.pretty v 0 []).length + 2) delimited_nil (by omega)
  rw [parse?, pretty, String.toList_ofList]
  simp only [read]
  rfl

end Json

end BalanceAudit
