import BalanceAudit.Store

/-!
# Scratch storage

Searches run on stores that live in directories of their own and are released
when they are no longer needed, on whatever path that happens.

- `Scratch.Slot`: a store, its directory, and whether somebody holds it.
- `Scratch`: all slots ever provisioned, and how many were released.
- `Scratch.provision`: a fresh slot, unless the root cannot hold directories.
- `Scratch.release`: closes the store, removes the directory and tells of it, once.
-/

namespace BalanceAudit

/-- A store with a directory of its own. -/
structure Scratch.Slot where
  store : Store
  /-- Whether the directory is there. -/
  directory : Bool
  /-- Whether the slot has yet to remove its directory. -/
  guards : Bool
  /-- Whether the slot has yet to tell of its release. -/
  held : Bool
  deriving DecidableEq, Inhabited

/-- Closes the store without writing and removes the directory, whatever is left of
them, unless that was done before. -/
def Scratch.Slot.clear (x : Scratch.Slot) : Scratch.Slot :=
  if x.guards then { x with store := x.store.closeNow, directory := false, guards := false }
  else x

/-- The slots provisioned so far. -/
structure Scratch where
  /-- Why the root cannot hold directories, if it cannot. -/
  fault : Option FileFault := none
  slots : List Scratch.Slot := []
  /-- How many releases were told. -/
  released : Nat := 0
  /-- The most slots that were held at once. -/
  peak : Nat := 0
  deriving DecidableEq, Inhabited

namespace Scratch

/-- How many slots are held. -/
def heldCount (s : Scratch) : Nat := s.slots.countP (·.held)

/-- How many directories are there. -/
def directoryCount (s : Scratch) : Nat := s.slots.countP (·.directory)

/-- A fresh slot with an empty store; its number and the slots with it. -/
def provision (s : Scratch) : Except StoreError Nat × Scratch :=
  match s.fault with
  | some fault => (.error (.io fault), s)
  | none =>
    let slots := s.slots ++ [⟨.scratch, true, true, true⟩]
    let s := { s with slots }
    (.ok (slots.length - 1), { s with peak := max s.peak s.heldCount })

/-- The store of a slot. -/
def store? (s : Scratch) (slot : Nat) : Option Store := s.slots[slot]?.map (·.store)

/-- Replaces the store of a slot. -/
def setStore (s : Scratch) (slot : Nat) (store : Store) : Scratch :=
  { s with slots := s.slots.modify slot fun x => { x with store } }

/-- Clears a slot and tells of its release, each unless that was done before. -/
def release (s : Scratch) (slot : Nat) : Scratch :=
  match s.slots[slot]? with
  | some x =>
    { s with
      slots := s.slots.set slot { x.clear with held := false }
      released := s.released + if x.held then 1 else 0 }
  | none => s

/-- Closes the store of a held slot and releases it, whether or not the store
could be closed. -/
def close? (s : Scratch) (slot : Nat) : Option (Except StoreError Unit × Scratch) := do
  let x ← s.slots[slot]?
  if x.held then
    let (closed, store) := x.store.close
    -- Nobody holds the slot afterwards, so that it goes once more like one that is dropped.
    return (closed, ((s.setStore slot store).release slot).release slot)
  else none

/-- Removes a directory behind the back of its slot. -/
def removeDirectory (s : Scratch) (slot : Nat) : Scratch :=
  { s with slots := s.slots.modify slot fun x => { x with directory := false } }

/-- Puts a plain file where the root was; all directories are gone. -/
def block (s : Scratch) : Scratch :=
  { s with
    fault := some .occupied
    slots := s.slots.map fun x => { x with directory := false } }

end Scratch

end BalanceAudit
