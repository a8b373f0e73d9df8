import BalanceAudit.Audit
import BalanceAudit.Recording

/-!
# The command line

- `Invocation`: what the arguments ask for.
- `Invocation.parse`: options before the command are common to all commands,
  those after it belong to the command. Options have long names; a value follows
  its option, or stands behind an equals sign, which is the only way for it to
  start with a dash.
- `Invocation.paths`: the files that are read.
- `Invocation.execute`: what is printed, the exit status, and the files that
  remain.
-/

namespace BalanceAudit

-- Powers are the core ones, also where a library has others.
attribute [local instance(high)] instPowNat

/-- What is to be done. -/
inductive Command where
  /-- A whole audit, possibly of other blocks than configured. -/
  | check (first last : Option Int)
  /-- Only the search for the block that broke a holding. -/
  | find (holding : Holding) (observed : Int)
  deriving DecidableEq

/-- What the arguments ask for. -/
structure Invocation where
  config : Option String
  chain : String
  command : Command
  deriving DecidableEq

/-- What a program printed and the status it ended with. -/
structure Printed where
  status : Nat
  text : String := ""
  deriving DecidableEq, Inhabited

namespace Printed

/-- The end of a program that was called wrongly. -/
def usageError : Printed := ⟨2, ""⟩

/-- The end of a program that could not do its work. -/
def failed : Printed := ⟨1, ""⟩

/-- The end of a program in which a number left its limits. -/
def broken : Printed := ⟨101, ""⟩

/-- The lines of a help text. -/
def help (lines : List String) : Printed := ⟨0, String.join (lines.map (· ++ "\n"))⟩

end Printed

/-! ## Options -/

/-- The kinds of values that options take. -/
inductive OptionValue where
  | path | text | index | decimals
  deriving DecidableEq

/-- An option. -/
structure CommandOption where
  name : String
  letter : Option Char := none
  value : OptionValue
  needed : Bool := false

namespace CommandOption

/-- The common options. -/
def common : List CommandOption :=
  [{ name := "config", letter := some 'c', value := .path },
    { name := "chain", value := .path, needed := true }]

/-- The options of an audit. -/
def ofCheck : List CommandOption :=
  [{ name := "start", value := .index }, { name := "end", value := .index }]

/-- The options of a search. -/
def ofFind : List CommandOption :=
  [{ name := "account", value := .text, needed := true },
    { name := "sub-account", value := .text },
    { name := "currency", value := .text, needed := true },
    { name := "decimals", value := .decimals },
    { name := "observed-at", value := .index, needed := true }]

/-- Reads an index: digits behind an optional sign. -/
def index? (s : String) : Option Int :=
  let digits (negative : Bool) (cs : List Char) : Option Int :=
    if cs = [] ∨ !cs.all Char.isDigit then none
    else
      let n : Int := Nat.ofDigitChars 10 cs 0
      let i := if negative then -n else n
      if Index.least ≤ i ∧ i ≤ Index.greatest then some i else none
  match s.toList with
  | '-' :: cs => digits true cs
  | '+' :: cs => digits false cs
  | cs => digits false cs

/-- Reads a number of decimals, below `2 ^ 32`. -/
def decimals? (s : String) : Option Nat :=
  (index? s).bind fun i => if 0 ≤ i ∧ i < 2 ^ (32 : Nat) then some i.toNat else none

/-- Whether an option takes a value. -/
def takes (o : CommandOption) (value : String) : Bool :=
  match o.value with
  | .path => value ≠ ""
  | .text => true
  | .index => (index? value).isSome
  | .decimals => (decimals? value).isSome

end CommandOption

/-- The options found so far with their values. -/
abbrev Found := List (String × String)

/-- What scanning the options of a command came to. -/
inductive Scan where
  /-- The options, and the arguments from the first one that is no option. -/
  | done (found : Found) (rest : List String)
  /-- Help was asked for. -/
  | help
  | wrong

namespace Scan

/-- Takes an option with its value, once. -/
def take (found : Found) (o : CommandOption) (value : String) : Option Found :=
  if o.takes value ∧ found.lookup o.name = none then some ((o.name, value) :: found) else none

/-- An argument with a dash in front is an option, a dash alone is not. -/
def isOption (arg : String) : Bool := arg.startsWith "-" && arg ≠ "-"

/-- An option behind dashes, and the value written with it. -/
def split (known : List CommandOption) (arg : List Char) : Option (CommandOption × Option String) :=
  match arg with
  | '-' :: '-' :: cs => do
    let name := cs.takeWhile (· ≠ '=')
    let o ← known.find? (·.name = String.ofList name)
    return (o, match cs.drop name.length with
      | _ :: value => some (String.ofList value)
      | [] => none)
  | '-' :: letter :: cs => do
    let o ← known.find? (·.letter = some letter)
    return (o, match cs with
      | [] => none
      | '=' :: value => some (String.ofList value)
      | value => some (String.ofList value))
  | _ => none

/-- Scans the options among the known ones. -/
def options (known : List CommandOption) : List String → Found → Scan
  | [], found => done found []
  | arg :: rest, found =>
    if ¬isOption arg then done found (arg :: rest)
    else if arg = "--help" ∨ arg.startsWith "-h" then help
    else if arg = "--" then (if rest = [] then done found [] else wrong)
    else
      match split known arg.toList, rest with
      | none, _ => wrong
      | some (o, some value), rest =>
        match take found o value with
        | some found => options known rest found
        | none => wrong
      | some (_, none), [] => wrong
      | some (o, none), value :: rest =>
        if isOption value then wrong
        else
          match take found o value with
          | some found => options known rest found
          | none => wrong

/-- Whether every needed option was found. -/
def complete (known : List CommandOption) (found : Found) : Bool :=
  known.all fun o => !o.needed || (found.lookup o.name).isSome

end Scan

/-! ## Help -/

namespace Help

/-- Help on the program. -/
def program : Printed := .help
  ["Checks computed balances against a node and locates missing operations", "",
    "Usage: ledger-check [OPTIONS] --chain <CHAIN> <COMMAND>", "",
    "Commands:",
    "  check-data        Sync blocks and reconcile balances",
    "  find-missing-ops  Locate the block missing operations of one account",
    "  help              Print this message or the help of the given subcommand(s)", "",
    "Options:",
    "  -c, --config <CONFIG>  Configuration file (JSON)",
    "      --chain <CHAIN>    Recorded chain served as the node (JSON)",
    "  -h, --help             Print help"]

/-- Help on audits. -/
def check : Printed := .help
  ["Sync blocks and reconcile balances", "",
    "Usage: ledger-check --chain <CHAIN> check-data [OPTIONS]", "",
    "Options:",
    "      --start <START>  First block to sync when nothing was synced yet",
    "      --end <END>      Last block to sync",
    "  -h, --help           Print help"]

/-- Help on searches. -/
def find : Printed := .help
  ["Locate the block missing operations of one account", "",
    "Usage: ledger-check --chain <CHAIN> find-missing-ops [OPTIONS] --account <ACCOUNT> " ++
      "--currency <CURRENCY> --observed-at <OBSERVED_AT>", "",
    "Options:",
    "      --account <ACCOUNT>          Account address",
    "      --sub-account <SUB_ACCOUNT>  Sub-account, if any",
    "      --currency <CURRENCY>        Currency symbol (e.g., BTC)",
    "      --decimals <DECIMALS>        Currency decimals [default: 8]",
    "      --observed-at <OBSERVED_AT>  Block at which the balance was observed to be wrong",
    "  -h, --help                       Print help"]

/-- Help on what is named. -/
def on : List String → Printed
  | [] => program
  | ["check-data"] => check
  | ["find-missing-ops"] => find
  | ["help"] => program
  | _ => .usageError

end Help

/-! ## Invocations -/

namespace Invocation

/-- The command of a search. -/
def findCommand? (found : Found) : Option Command := do
  let account ← found.lookup "account"
  let symbol ← found.lookup "currency"
  let observed ← (← found.lookup "observed-at") |> CommandOption.index?
  let decimals ← match found.lookup "decimals" with
    | some d => CommandOption.decimals? d
    | none => some 8
  return .find ⟨⟨account, found.lookup "sub-account"⟩, ⟨symbol, decimals⟩⟩ observed

/-- The command of an audit. -/
def checkCommand (found : Found) : Command :=
  .check ((found.lookup "start").bind CommandOption.index?)
    ((found.lookup "end").bind CommandOption.index?)

/-- Reads the options of a command, which nothing may follow. -/
def parseCommand (options : List CommandOption) (help : Printed) (make : Found → Option Command)
    (args : List String) : Except Printed Command :=
  match Scan.options options args [] with
  | .help => .error help
  | .wrong => .error .usageError
  | .done found rest =>
    if rest = [] ∧ Scan.complete options found then
      match make found with
      | some c => .ok c
      | none => .error .usageError
    else .error .usageError

/-- Reads arguments. Without an invocation there is something to be printed. -/
def parse (args : List String) : Except Printed Invocation :=
  match Scan.options CommandOption.common args [] with
  | .help => .error Help.program
  | .wrong => .error .usageError
  | .done _ [] => .error .usageError
  | .done found (command :: rest) => do
    let c ← match command with
      | "check-data" => parseCommand CommandOption.ofCheck Help.check (some ∘ checkCommand) rest
      | "find-missing-ops" => parseCommand CommandOption.ofFind Help.find findCommand? rest
      | "help" => .error (Help.on rest)
      | _ => .error .usageError
    match found.lookup "chain" with
    | some chain => return ⟨found.lookup "config", chain, c⟩
    | none => .error .usageError

/-- The configuration of an invocation. -/
def loadConfig (i : Invocation) (files : Files) : Except ConfigError Config :=
  match i.config with
  | some path => Config.load (files.read path)
  | none => .ok {}

/-- The configuration with the blocks that the command asks for. -/
def withRange (c : Config) (first last : Option Int) : Config :=
  { c with startIndex := first <|> c.startIndex, endIndex := last <|> c.endIndex }

/-- The chain of an invocation. -/
def loadChain (i : Invocation) (files : Files) : Except FetchError Chain := do
  (← Recording.load (files.read i.chain)).chain

/-- The files that an invocation reads, as far as `files` tells. -/
def paths (i : Invocation) (files : Files) : List String :=
  i.config.toList ++ [i.chain] ++
    match i.loadConfig files, i.loadChain files with
    | .ok c, .ok chain =>
      c.exemptAccounts.toList ++ c.interestingAccounts.toList ++ c.bootstrapBalances.toList ++
        [Files.storePath (Audit.directory ⟨chain.node, c⟩ chain.network)]
    | _, _ => []

/-- The audit that an invocation asks for. -/
def task (i : Invocation) (c : Config) (chain : Chain) :
    Except ConfigError (Step (Site Unit) AuditError Verdict) :=
  match i.command with
  | .check first last => do
    let c := withRange c first last
    c.validate
    return Audit.run ⟨chain.node, c⟩
  | .find h observed => .ok (Audit.findMissing ⟨chain.node, c⟩ h observed)

/-- What an outcome prints. -/
def printed : Except (Stop AuditError) Verdict → Printed
  | .ok v => ⟨v.exitCode, v.message ++ "\n"⟩
  | .error (.overflow _) => .broken
  | .error _ => .failed

/-- Does what an invocation asks for. -/
def execute (i : Invocation) (files : Files) : Printed × Files :=
  match i.loadConfig files, i.loadChain files with
  | .ok c, .ok chain =>
    match i.task c chain with
    | .error _ => (.failed, files)
    | .ok task =>
      let scratch : Scratch := { fault := c.scratchDirectory.bind files.directoryFault? }
      let (r, site) := task.eval { world := { node := () }, files, scratch }
      (printed r, site.files)
  | _, _ => (.failed, files)

end Invocation

/-- Does what arguments ask for. -/
def runCommand (args : List String) (files : Files) : Printed × Files :=
  match Invocation.parse args with
  | .ok i => i.execute files
  | .error printed => (printed, files)

end BalanceAudit
