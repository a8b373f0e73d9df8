import BalanceAudit.Json.Record

/-!
# Networks

- `Network`: the name of a chain and of one of its networks.
- `Network.directory`: the name under which data of a network is kept, made of
  lower-case letters, digits, dashes and underscores only.
-/

namespace BalanceAudit

/-- A chain and one of its networks. -/
structure Network where
  blockchain : String
  network : String
  deriving DecidableEq, Inhabited

namespace Network

/-- Both names around a colon. -/
def toText (n : Network) : String := n.blockchain ++ ":" ++ n.network

/-- The character that stands for `c` in the name of a directory. -/
def directoryChar (c : Char) : Char :=
  if c.isAlphanum ∨ c = '-' ∨ c = '_' then c.toLower else '_'

/-- The name of the directory of a network. -/
def directory (n : Network) : String :=
  String.ofList ((n.blockchain ++ "-" ++ n.network).toList.map directoryChar)

/-- Reads a network. -/
def ofJson? (v : Json) : Option Network := do
  let r ← v.record? ["blockchain", "network"]
  return ⟨← r.required? "blockchain" Json.toText?, ← r.required? "network" Json.toText?⟩

/-- Writes a network. -/
def toJson (n : Network) : Json :=
  .record [("blockchain", .text n.blockchain), ("network", .text n.network)]

end Network

end BalanceAudit
