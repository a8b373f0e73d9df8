import BalanceAudit.Error
import BalanceAudit.Json.Writer
import BalanceAudit.Ledger
import BalanceAudit.Step

/-!
# Stores

A store keeps a ledger in memory and, if it is persistent, writes it to a file
once enough commits have come together and when it is closed.

- `Disk`: the place of the file, and whether it can be written.
- `Store`: a ledger, whether it is closed, and how many commits the file lacks.
- `Store.commit`: takes over one block as a whole, or nothing. Behind a head of the
  greatest index it overflows, whatever the block is.
- `Store.bootstrap`: seeds balances before the first block.
- `Store.flush`, `Store.close`: writing the file. A write that fails leaves the
  old file in place and the commits due.
-/

namespace BalanceAudit

/-- What stands where the file belongs. -/
inductive Disk.Entry where
  | absent
  | file (text : String)
  | directory
  deriving DecidableEq, Inhabited

/-- The place where a store keeps its file. -/
structure Disk where
  entry : Disk.Entry := .absent
  writable : Bool := true
  deriving DecidableEq, Inhabited

namespace Disk

/-- The text of the file, if there is one. -/
def text? (d : Disk) : Option String :=
  match d.entry with
  | .file text => some text
  | _ => none

/-- Replaces the file as a whole. -/
def write (d : Disk) (text : String) : Except FileFault Disk :=
  if d.writable ∧ d.entry ≠ .directory then .ok { d with entry := .file text }
  else .error .isDirectory

end Disk

/-- A ledger in memory and its file. -/
structure Store where
  ledger : Ledger := {}
  closed : Bool := false
  /-- Commits that the file lacks. -/
  unflushed : Nat := 0
  /-- Commits after which the file is written. -/
  interval : Nat := 64
  /-- Whether anything is ever written. -/
  persistent : Bool := false
  disk : Disk := {}
  deriving DecidableEq, Inhabited

namespace Store

/-! ## Opening -/

/-- An empty store that is never written. -/
def scratch (disk : Disk := {}) : Store := { disk }

/-- The store of a file; without a file it is empty. -/
def openAt (disk : Disk) : Except StoreError Store :=
  match disk.entry with
  | .absent => .ok { persistent := true, disk }
  | .directory => .error (.io .isDirectory)
  | .file text =>
    match Json.parse? text >>= Ledger.ofJson? with
    | some ledger => .ok { ledger, persistent := true, disk }
    | none => .error .malformed

/-- The store with another number of commits between writes, at least one. -/
def withInterval (s : Store) (commits : Nat) : Store := { s with interval := max commits 1 }

/-! ## Reading -/

/-- The ledger of an open store. -/
def read (s : Store) : Except StoreError Ledger :=
  if s.closed then .error .closed else .ok s.ledger

/-! ## Writing -/

/-- Writes the file of a persistent store. -/
def flush (s : Store) : Except StoreError Unit × Store :=
  if s.persistent then
    match s.disk.write s.ledger.toJson.pretty with
    | .ok disk => (.ok (), { s with disk, unflushed := 0 })
    | .error fault => (.error (.io fault), s)
  else (.ok (), s)

/-- Notes a commit, and writes the file when it is due. -/
def committed (s : Store) : Except StoreError Unit × Store :=
  let s := { s with unflushed := s.unflushed + 1 }
  if s.interval ≤ s.unflushed then s.flush else (.ok (), s)

/-- Whether a block may follow the head. -/
def extends? (l : Ledger) (b : BlockId) : Except (Stop StoreError) Unit :=
  match l.head? with
  | none => .ok ()
  | some head =>
    match Index.next? head.index with
    | none => .error (.overflow .next)
    | some next =>
      if b.index = next then .ok () else .error (.failed (.outOfOrder head b))

/-- Takes over a block as a whole. Whether or not the file can then be written,
the block stays. -/
def commit (s : Store) (b : Batch) : Except (Stop StoreError) Unit × Store :=
  match s.read.mapError .failed >>= (extends? · b.block) with
  | .error stop => (.error stop, s)
  | .ok () =>
    let (r, s) := { s with ledger := s.ledger.apply b }.committed
    (r.mapError .failed, s)

/-- Raises a counter and tells its new value. -/
def update (s : Store) (name : String) (amount : Count) : Except StoreError Count × Store :=
  match s.read with
  | .error e => (.error e, s)
  | .ok l =>
    let l := l.increment name amount
    (.ok (l.counted name), { s with ledger := l })

/-- The entries of a manifest. -/
def readManifest (manifest : Except FileFault String) : Except StoreError (List Seed) :=
  match manifest with
  | .error fault => .error (.io fault)
  | .ok text =>
    match Json.parse? text >>= Json.toList? Seed.ofJson? with
    | some seeds => .ok seeds
    | none => .error .malformed

/-- Nothing may be seeded after the first block. -/
def unstarted (l : Ledger) : Except StoreError Unit :=
  match l.head? with
  | some head => .error (.alreadySyncing head)
  | none => .ok ()

/-- Seeds the balances of a manifest at `genesis`, writes the file, and tells
how many entries the manifest has. -/
def bootstrap (s : Store) (manifest : Except FileFault String) (genesis : BlockId) :
    Except StoreError Nat × Store :=
  match readManifest manifest with
  | .error e => (.error e, s)
  | .ok seeds =>
    match s.read >>= unstarted with
    | .error e => (.error e, s)
    | .ok () =>
      match { s with ledger := s.ledger.seed seeds genesis }.flush with
      | (.ok (), s) => (.ok seeds.length, s)
      | (.error e, s) => (.error e, s)

/-! ## Closing -/

/-- Writes the file and closes the store. A store that cannot be written stays
open; one that is closed stays as it is. -/
def close (s : Store) : Except StoreError Unit × Store :=
  if s.closed then (.ok (), s)
  else
    match s.flush with
    | (.ok (), s) => (.ok (), { s with closed := true })
    | (.error e, s) => (.error e, s)

/-- Closes the store without writing. -/
def closeNow (s : Store) : Store := { s with closed := true }

end Store

end BalanceAudit
