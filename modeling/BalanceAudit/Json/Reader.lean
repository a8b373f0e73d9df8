import BalanceAudit.Json.Basic

/-!
# Reading JSON

A text is one value with blanks around it. Values nest to any depth.

- `Json.Reader.string?`, `Json.Reader.number?`: the scalar forms.
- `Json.Reader.value?`: a value at the head of a text, with what follows it.
- `Json.parse?`: a whole text.
-/

namespace BalanceAudit

namespace Json

namespace Reader

/-- The four characters that may stand between tokens. -/
def isBlank (c : Char) : Bool := c == ' ' || c == '\n' || c == '\t' || c == '\r'

/-- The text after its leading blanks. -/
def skipBlank (cs : List Char) : List Char := cs.dropWhile isBlank

/-! ## Strings -/

/-- The value of a hexadecimal digit. -/
def hexDigit? (c : Char) : Option Nat :=
  if c.isDigit then some (c.toNat - '0'.toNat)
  else if 'a' ≤ c ∧ c ≤ 'f' then some (c.toNat - 'a'.toNat + 10)
  else if 'A' ≤ c ∧ c ≤ 'F' then some (c.toNat - 'A'.toNat + 10)
  else none

/-- The value of the four digits of an escape. -/
def hex4? (a b c d : Char) : Option Nat := do
  return (((← hexDigit? a) * 16 + (← hexDigit? b)) * 16 + (← hexDigit? c)) * 16 + (← hexDigit? d)

/-- What one character or escape of a string contributes: a character, or half
of a pair of escapes that together stand for one. -/
inductive Piece where
  | whole (c : Char)
  | half (n : Nat)

/-- The character of a one-letter escape. -/
def escaped? : Char → Option Char
  | '"' => some '"'
  | '\\' => some '\\'
  | '/' => some '/'
  | 'b' => some '\x08'
  | 'f' => some '\x0c'
  | 'n' => some '\n'
  | 'r' => some '\r'
  | 't' => some '\t'
  | _ => none

/-- The piece of a four-digit escape. -/
def pieceOf (n : Nat) : Piece :=
  if 0xD800 ≤ n ∧ n ≤ 0xDFFF then .half n else .whole (Char.ofNat n)

/-- The pieces up to the closing quote, and the text after it. -/
def pieces? : List Char → Option (List Piece × List Char)
  | [] => none
  | '"' :: rest => some ([], rest)
  | '\\' :: 'u' :: a :: b :: c :: d :: rest => do
    let n ← hex4? a b c d
    let (ps, after) ← pieces? rest
    return (pieceOf n :: ps, after)
  | '\\' :: c :: rest => do
    let e ← escaped? c
    let (ps, after) ← pieces? rest
    return (.whole e :: ps, after)
  | c :: rest => do
    if c.toNat < 0x20 then none
    else if c = '\\' then none
    else
      let (ps, after) ← pieces? rest
      return (.whole c :: ps, after)

/-- The text of a list of pieces; halves must come in pairs, the high one
first. -/
def join? : List Piece → Option (List Char)
  | [] => some []
  | .whole c :: rest => return c :: (← join? rest)
  | .half high :: .half low :: rest =>
    if high ≤ 0xDBFF ∧ 0xDC00 ≤ low then
      return Char.ofNat (0x10000 + (high - 0xD800) * 0x400 + (low - 0xDC00)) :: (← join? rest)
    else none
  | .half _ :: _ => none

/-- A string after its opening quote: its text, if it has one, and what follows. -/
def string? (cs : List Char) : Option (Option String × List Char) := do
  let (ps, after) ← pieces? cs
  return ((join? ps).map String.ofList, after)

/-! ## Numbers -/

/-- The leading digits of a text, and what follows them. -/
def digits (cs : List Char) : List Char × List Char :=
  (cs.takeWhile Char.isDigit, cs.dropWhile Char.isDigit)

/-- The digits before the point: no zero leads another digit. -/
def whole? (cs : List Char) : Option (List Char × List Char) :=
  match digits cs with
  | ([], _) => none
  | ('0' :: _ :: _, _) => none
  | found => some found

/-- The digits after the point, if there is one. -/
def places? : List Char → Option (List Char × List Char)
  | '.' :: rest =>
    match digits rest with
    | ([], _) => none
    | found => some found
  | cs => some ([], cs)

/-- The digits of an exponent after its sign. -/
def power? (negative : Bool) (cs : List Char) : Option (Option (Bool × List Char) × List Char) :=
  match digits cs with
  | ([], _) => none
  | (ds, rest) => some (some (negative, ds), rest)

/-- The exponent, if there is one. -/
def exponent? : List Char → Option (Option (Bool × List Char) × List Char)
  | c :: rest =>
    if c = 'e' ∨ c = 'E' then
      match rest with
      | '+' :: rest => power? false rest
      | '-' :: rest => power? true rest
      | rest => power? false rest
    else some (none, c :: rest)
  | [] => some (none, [])

/-- A number after its sign. -/
def number? (negative : Bool) (cs : List Char) : Option (Json × List Char) := do
  let (w, rest) ← whole? cs
  let (p, rest) ← places? rest
  let (e, rest) ← exponent? rest
  return (.number ⟨negative, w, p, e⟩, rest)

/-! ## Values -/

mutual

/-- A value at the head of a text, and what follows it. Each nested value and
each further item takes one unit of `fuel`. -/
def value? : (fuel : Nat) → List Char → Option (Json × List Char)
  | 0, _ => none
  | fuel + 1, cs =>
    match skipBlank cs with
    | '"' :: rest => do
      let (s, rest) ← string? rest
      return (.string s, rest)
    | '[' :: rest =>
      match skipBlank rest with
      | ']' :: rest => some (.array [], rest)
      | rest => do
        let (items, rest) ← items? fuel rest
        return (.array items, rest)
    | '\x7b' :: rest =>
      match skipBlank rest with
      | '\x7d' :: rest => some (.object [], rest)
      | rest => do
        let (members, rest) ← members? fuel rest
        return (.object members, rest)
    | 't' :: 'r' :: 'u' :: 'e' :: rest => some (.bool true, rest)
    | 'f' :: 'a' :: 'l' :: 's' :: 'e' :: rest => some (.bool false, rest)
    | 'n' :: 'u' :: 'l' :: 'l' :: rest => some (.null, rest)
    | '-' :: rest => number? true rest
    | rest => number? false rest

/-- The items of an array up to its closing bracket. -/
def items? : (fuel : Nat) → List Char → Option (List Json × List Char)
  | 0, _ => none
  | fuel + 1, cs => do
    let (v, rest) ← value? fuel cs
    match skipBlank rest with
    | ',' :: rest => do
      let (vs, rest) ← items? fuel rest
      return (v :: vs, rest)
    | ']' :: rest => some ([v], rest)
    | _ => none

/-- The members of an object up to its closing brace. -/
def members? : (fuel : Nat) → List Char → Option (List (Option String × Json) × List Char)
  | 0, _ => none
  | fuel + 1, cs =>
    match skipBlank cs with
    | '"' :: rest => do
      let (key, rest) ← string? rest
      match skipBlank rest with
      | ':' :: rest => do
        let (v, rest) ← value? fuel rest
        match skipBlank rest with
        | ',' :: rest => do
          let (ms, rest) ← members? fuel rest
          return ((key, v) :: ms, rest)
        | '\x7d' :: rest => some ([(key, v)], rest)
        | _ => none
      | _ => none
    | _ => none

end

end Reader

/-- Reads a text that is one value and blanks. -/
def parse? (s : String) : Option Json := do
  let cs := s.toList
  let (v, rest) ← Reader.value? (2 * cs.length + 2) cs
  if Reader.skipBlank rest = [] then some v else none

end Json

end BalanceAudit
