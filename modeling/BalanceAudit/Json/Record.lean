import BalanceAudit.Json.Reader

/-!
# Reading records from JSON

A record is an object of named fields in any order, each once, with members of
other names passed over; or an array of the fields in the order of their
declaration.

- `Json.Record`: the fields found.
- `Json.record?`: finds the fields of a record.
- `Json.Record.required?`, `Json.Record.optional?`, `Json.Record.defaulted?`:
  reads one field.
- `Json.variant?`: reads an alternative: its name alone, or an object with its
  name and its contents.
-/

namespace BalanceAudit

-- Powers are the core ones, also where a library has others.
attribute [local instance(high)] instPowNat

namespace Json

/-- The fields found for a record. `positional` tells that they came in an
array. -/
structure Record where
  fields : List (String × Json)
  positional : Bool

/-- The known members of an object; a name that is not text, or a known name
twice, is refused. -/
def knownMembers? (names : List String) :
    List (Option String × Json) → Option (List (String × Json))
  | [] => some []
  | (none, _) :: _ => none
  | (some name, v) :: rest => do
    let found ← knownMembers? names rest
    if name ∈ names then
      if found.any (·.1 == name) then none else return (name, v) :: found
    else return found

/-- The fields of a record with the given names, in their order. -/
def record? (names : List String) : Json → Option Record
  | .object members => return ⟨← knownMembers? names members, false⟩
  | .array items =>
    if items.length ≤ names.length then some ⟨names.zip items, true⟩ else none
  | _ => none

namespace Record

/-- The value of a field, if the field is there. -/
def find? (r : Record) (name : String) : Option Json := r.fields.lookup name

/-- A field that has to be there. -/
def required? {α : Type} (r : Record) (name : String) (read : Json → Option α) : Option α :=
  r.find? name >>= read

/-- A field that stands for `default` when it is missing. -/
def defaulted? {α : Type} (r : Record) (name : String) (read : Json → Option α) (default : α) :
    Option α :=
  match r.find? name with
  | some v => read v
  | none => some default

end Record

/-- The text of a string. -/
def toText? : Json → Option String
  | .string t => t
  | _ => none

/-- A truth value. -/
def toBool? : Json → Option Bool
  | .bool b => some b
  | _ => none

/-- An integer between two limits. -/
def toIntIn? (low high : Int) : Json → Option Int
  | .number n => do
    let i ← n.toInt?
    if low ≤ i ∧ i ≤ high then some i else none
  | _ => none

/-- An integer of 64 bits. -/
def toInt64? (v : Json) : Option Int := v.toIntIn? (-9223372036854775808) 9223372036854775807

/-- A natural number below `bound`. -/
def toNatBelow? (bound : Nat) (v : Json) : Option Nat :=
  (v.toIntIn? 0 (bound - 1)).map Int.toNat

/-- A natural number of 64 bits. -/
def toNat64? (v : Json) : Option Nat := v.toNatBelow? (2 ^ (64 : Nat))

/-- A natural number of 32 bits. -/
def toNat32? (v : Json) : Option Nat := v.toNatBelow? (2 ^ (32 : Nat))

/-- A value or `null`. -/
def nullable? {α : Type} (read : Json → Option α) : Json → Option (Option α)
  | .null => some none
  | v => (read v).map some

/-- The items of an array. -/
def toList? {α : Type} (read : Json → Option α) : Json → Option (List α)
  | .array items => items.mapM read
  | _ => none

/-- The members of an object under any names. -/
def toMembers? {α : Type} (read : Json → Option α) : Json → Option (List (String × α))
  | .object members => members.mapM fun (k, v) => do return (← k, ← read v)
  | _ => none

/-- Name and contents of an alternative; without contents it may be its name
alone. -/
def variant? : Json → Option (String × Option Json)
  | .string t => return (← t, none)
  | .object [(name, v)] => return (← name, some v)
  | _ => none

/-- The name of an alternative without contents, alone or with `null`. -/
def plainVariant? (v : Json) : Option String :=
  match v.variant? with
  | some (name, none) => some name
  | some (name, some .null) => some name
  | _ => none

end Json

end BalanceAudit
