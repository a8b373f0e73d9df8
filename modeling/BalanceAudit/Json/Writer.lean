import BalanceAudit.Json.Basic

/-!
# Writing JSON

Values are written either without blanks or over several lines, two blanks for
each level. Members keep their order.

- `Json.Writer.escape`: a character inside a string.
- `Json.compact`: the form without blanks.
- `Json.pretty`: the form over several lines; an empty array or object stays on
  its line.
-/

namespace BalanceAudit

namespace Json

namespace Writer

/-- A character as it stands inside a string: a quote, a backslash and the
control characters are escaped. -/
def escape (c : Char) : List Char :=
  match c with
  | '"' => ['\\', '"']
  | '\\' => ['\\', '\\']
  | '\x08' => ['\\', 'b']
  | '\x0c' => ['\\', 'f']
  | '\n' => ['\\', 'n']
  | '\r' => ['\\', 'r']
  | '\t' => ['\\', 't']
  | c =>
    if c.toNat < 0x20 then
      ['\\', 'u', '0', '0', Nat.digitChar (c.toNat / 16), Nat.digitChar (c.toNat % 16)]
    else [c]

/-- A string in quotes, before `rest`. -/
def quoted (s : String) (rest : List Char) : List Char :=
  '"' :: s.toList.foldr (fun c r => escape c ++ r) ('"' :: rest)

/-- A number, before `rest`. -/
def number (n : Number) (rest : List Char) : List Char :=
  (if n.negative then ['-'] else []) ++ n.whole ++
    (if n.places = [] then [] else '.' :: n.places) ++
    (match n.exponent with
      | none => []
      | some (negative, digits) => 'e' :: (if negative then ['-'] else []) ++ digits) ++ rest

/-- A value that is neither array nor object, before `rest`. -/
def scalar (v : Json) (rest : List Char) : List Char :=
  match v with
  | .null => 'n' :: 'u' :: 'l' :: 'l' :: rest
  | .bool true => 't' :: 'r' :: 'u' :: 'e' :: rest
  | .bool false => 'f' :: 'a' :: 'l' :: 's' :: 'e' :: rest
  | .number n => number n rest
  | .string s => quoted (s.getD "") rest
  | .array _ | .object _ => rest

/-! ## Without blanks -/

mutual

/-- A value, before `rest`. -/
def compact : Json → List Char → List Char
  | .array items, rest => '[' :: compactItems items (']' :: rest)
  | .object members, rest => '\x7b' :: compactMembers members ('\x7d' :: rest)
  | v, rest => scalar v rest

/-- Items with commas between them, before `rest`. -/
def compactItems : List Json → List Char → List Char
  | [], rest => rest
  | [v], rest => compact v rest
  | v :: vs, rest => compact v (',' :: compactItems vs rest)

/-- Members with commas between them, before `rest`. -/
def compactMembers : List (Option String × Json) → List Char → List Char
  | [], rest => rest
  | [(k, v)], rest => quoted (k.getD "") (':' :: compact v rest)
  | (k, v) :: ms, rest => quoted (k.getD "") (':' :: compact v (',' :: compactMembers ms rest))

end

/-! ## Over several lines -/

/-- A line break and the blanks of `level`, before `rest`. -/
def newline (level : Nat) (rest : List Char) : List Char :=
  '\n' :: (List.replicate (2 * level) ' ' ++ rest)

mutual

/-- A value at `level`, before `rest`. -/
def pretty : Json → (level : Nat) → List Char → List Char
  | .array [], _, rest => '[' :: ']' :: rest
  | .array items, level, rest =>
    '[' :: newline (level + 1) (prettyItems items (level + 1) (newline level (']' :: rest)))
  | .object [], _, rest => '\x7b' :: '\x7d' :: rest
  | .object members, level, rest =>
    '\x7b' :: newline (level + 1)
      (prettyMembers members (level + 1) (newline level ('\x7d' :: rest)))
  | v, _, rest => scalar v rest

/-- Items at `level`, one a line, before `rest`. -/
def prettyItems : List Json → (level : Nat) → List Char → List Char
  | [], _, rest => rest
  | [v], level, rest => pretty v level rest
  | v :: vs, level, rest => pretty v level (',' :: newline level (prettyItems vs level rest))

/-- Members at `level`, one a line, before `rest`. -/
def prettyMembers : List (Option String × Json) → (level : Nat) → List Char → List Char
  | [], _, rest => rest
  | [(k, v)], level, rest => quoted (k.getD "") (':' :: ' ' :: pretty v level rest)
  | (k, v) :: ms, level, rest =>
    quoted (k.getD "") (':' :: ' ' :: pretty v level
      (',' :: newline level (prettyMembers ms level rest)))

end

end Writer

/-- The text of a value without blanks. -/
def compact (v : Json) : String := String.ofList (Writer.compact v [])

/-- The text of a value over several lines. -/
def pretty (v : Json) : String := String.ofList (Writer.pretty v 0 [])

end Json

end BalanceAudit
