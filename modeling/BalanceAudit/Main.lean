import BalanceAudit.CommandLine

/-!
# The program

Reads the files that the arguments ask for, runs the command on them, writes
back what it kept, and prints what it says.
-/

open BalanceAudit

/-- Reads those of the listed files that are there. -/
def readFiles (paths : List String) (files : Files) : IO Files :=
  paths.foldlM (fun files (path : String) => do
    match ← (IO.FS.readFile path).toBaseIO with
    | .ok text => return files.put path text
    | .error _ => return files) files

/-- Replaces a file as a whole, with the directories above it. -/
def writeFile (path text : String) : IO Unit := do
  let directory := "/".intercalate (path.splitOn "/").dropLast
  if directory ≠ "" then IO.FS.createDirAll directory
  IO.FS.writeFile (path ++ ".tmp") text
  IO.FS.rename (path ++ ".tmp") path

/-- Writes the files that changed. -/
def writeChanges (before after : Files) : IO Unit :=
  after.texts.entries.forM fun (path, text) => do
    if before.texts.find? path ≠ some text then writeFile path text

/-- Runs an invocation on the files of the system. -/
def runInvocation (i : Invocation) : IO Printed := do
  let files ← readFiles (i.paths {}) {}
  let files ← readFiles (i.paths files) files
  let (printed, kept) := i.execute files
  match ← (writeChanges files kept).toBaseIO with
  | .ok () => return printed
  | .error _ => return .failed

/-- The program. -/
def main (args : List String) : IO UInt32 := do
  let printed ← match Invocation.parse args with
    | .ok i => runInvocation i
    | .error printed => pure printed
  IO.print printed.text
  return printed.status.toUInt32
