import BalanceAudit.Error
import BalanceAudit.Store
import BalanceAudit.Table

/-!
# Files

The files that an audit reads and the ones it keeps between audits.

- `Files`: texts by their paths.
- `Files.read`: the text of a file.
- `Files.directoryFault?`: why a path cannot be a directory.
- `Files.disk`, `Files.setDisk`: the file of the store in a directory.
-/

namespace BalanceAudit

/-- The files of a directory tree. -/
structure Files where
  texts : Table String String := ∅
  /-- Whether stores can be written. -/
  writable : Bool := true

namespace Files

instance : Inhabited Files := ⟨{}⟩

/-- The parts of a path; empty ones and dots name nothing. -/
def parts (path : String) : List String :=
  ((path.toList.splitOn '/').map String.ofList).filter fun p => p ≠ "" ∧ p ≠ "."

/-- The shortest spelling of a path. -/
def spelling (path : String) : String :=
  (if path.startsWith "/" then "/" else "") ++ "/".intercalate (parts path)

/-- A path below another one. -/
def join (directory name : String) : String :=
  if directory = "" then name else directory ++ "/" ++ name

/-- Puts a file. -/
def put (f : Files) (path text : String) : Files :=
  { f with texts := f.texts.insert (spelling path) text }

/-- The files of a list. -/
def ofList (entries : List (String × String)) : Files :=
  entries.foldl (fun f (path, text) => f.put path text) {}

/-- The text of a file. -/
def read (f : Files) (path : String) : Except FileFault String :=
  match f.texts.find? (spelling path) with
  | some text => if path.endsWith "/" then .error .notDirectory else .ok text
  | none => .error .missing

/-- The text of an optional file. -/
def read? (f : Files) (path : Option String) : Option (Except FileFault String) := path.map f.read

/-- Why a path cannot be a directory: it, or something above it, is a file. -/
def directoryFault? (f : Files) (path : String) : Option FileFault :=
  let isFile (ps : List String) : Bool :=
    f.texts.contains ((if path.startsWith "/" then "/" else "") ++ "/".intercalate ps)
  let ps := parts path
  if isFile ps then some .occupied
  else if (List.range ps.length).any fun n => isFile (ps.take n) then some .notDirectory
  else none

/-- The file of the store in a directory. -/
def storePath (directory : String) : String := join directory "store.json"

/-- The place of the store's file in a directory. -/
def disk (f : Files) (directory : String) : Except FileFault Disk :=
  match f.directoryFault? directory with
  | some fault => .error fault
  | none =>
    .ok ⟨match f.read (storePath directory) with
      | .ok text => .file text
      | .error _ => .absent, f.writable⟩

/-- Takes over what a store left in a directory. -/
def setDisk (f : Files) (directory : String) (d : Disk) : Files :=
  match d.text? with
  | some text => f.put (storePath directory) text
  | none => f

end Files

end BalanceAudit
