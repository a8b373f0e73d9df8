import BalanceAudit.Proofs.Store.Usage
import BalanceAudit.Scratch

/-!
# Scratch slots are released once

Slots are provisioned, used, closed and dropped in any order, while somebody removes
their directories or takes the place of the root. A slot that is closed is released
twice over, by its owner and when it goes out of use, and is released once all the same.

- `Scratch.slots_release` and the lemmas beside it: what an operation does to one slot,
  and that the others stay.
- `Scratch.release_release`: **releasing once more does nothing**.
- `Scratch.Act`, `Scratch.History`: what happens to slots, one act after another.
- `Scratch.Slot.Recalls`, `Scratch.Sound`: what a slot, and all of them, keep of that:
  `Scratch.History.sound`.
- `Scratch.releases_once`: the whole history.
-/

namespace BalanceAudit

/-! ## Scratch stores

Without a file there is nothing that could fail, so closing always succeeds. -/

namespace Store

variable {s : Store} {a : Action}

/-- The owner closes a store that is never written by closing it, and by nothing else. -/
theorem closed_run_of_scratch (scratch : s.persistent = false) (owner : a.OfOwner) :
    (a.run s).closed = true ↔ s.closed = true ∨ a = .close := by
  cases a with
  | commit b =>
    have same : ((Action.commit b).run s).closed = s.closed := by
      rcases commit_cases s b with ⟨same, _⟩ | ⟨_, _, eq⟩
      · exact congrArg Store.closed same
      · rw [Action.run, eq, (committed_sameMode _).closed]
    simp [same]
  | update name amount =>
    have same : ((Action.update name amount).run s).closed = s.closed := by
      rw [Action.run, update]
      split <;> rfl
    simp [same]
  | bootstrap manifest genesis =>
    have same : ((Action.bootstrap manifest genesis).run s).closed = s.closed := by
      rw [Action.run, bootstrap]
      split
      · rfl
      · split
        · rfl
        -- A seeding flushes, but keeps the store's mode.
        · have mode := flush_sameMode { s with ledger := s.ledger.seed ‹_› genesis }
          split
          all_goals
            next eq =>
              rw [eq] at mode
              exact mode.closed
    simp [same]
  | close =>
    have done : (Action.close.run s).closed = true := by
      rw [Action.run, close]
      split
      · assumption
      · rw [flush, scratch]
        rfl
    simp [done]
  | _ => exact owner.elim

/-- What becomes of a store that is never written. -/
theorem runAll_of_scratch (scratch : s.persistent = false) {as : List Action}
    (owner : ∀ a ∈ as, a.OfOwner) :
    (s.runAll as).persistent = false ∧
      ((s.runAll as).closed = true ↔ s.closed = true ∨ .close ∈ as) := by
  -- The induction is on the actions, one more at the end.
  induction as using List.reverseRecOn with
  | nil => simp [scratch]
  | append_singleton as a ih =>
    obtain ⟨unwritten, closed⟩ := ih fun b mem => owner b (List.mem_append_left _ mem)
    rw [runAll_concat, closed_run_of_scratch unwritten (owner a (by simp)), closed,
      (Action.run_changes _ a).1, List.mem_append, List.mem_singleton, eq_comm (a := Action.close)]
    exact ⟨unwritten, or_assoc⟩

/-- It can be closed at any time. -/
theorem close_of_scratch (scratch : s.persistent = false) :
    s.close.1 = .ok () ∧ s.close.2.closed = true := by
  rw [close]
  split
  · exact ⟨rfl, ‹_›⟩
  · rw [flush, scratch]
    exact ⟨rfl, rfl⟩

end Store

namespace Scratch

variable {s t : Scratch} {i j : Nat} {x : Slot}

/-! ## One slot

Acts on one slot leave the others as they are. -/

/-- Writing to the store of a slot leaves the other slots as they are. -/
theorem slots_setStore (s : Scratch) (i : Nat) (store : Store) (j : Nat) :
    (s.setStore i store).slots[j]? =
      s.slots[j]?.map fun x => if i = j then { x with store } else x := by
  rw [setStore, List.getElem?_modify]
  rfl

/-- So does removing its directory. -/
theorem slots_removeDirectory (s : Scratch) (i j : Nat) :
    (s.removeDirectory i).slots[j]? =
      s.slots[j]?.map fun x => if i = j then { x with directory := false } else x := by
  rw [removeDirectory, List.getElem?_modify]
  rfl

/-- Blocking removes the directories of all slots. -/
theorem slots_block (s : Scratch) (j : Nat) :
    s.block.slots[j]? = s.slots[j]?.map fun x => { x with directory := false } :=
  List.getElem?_map

/-- A slot after its release. -/
def Slot.released (x : Slot) : Slot := { x.clear with held := false }

@[simp] theorem Slot.released_released (x : Slot) : x.released.released = x.released := by
  -- A cleared slot guards nothing, so that the second clearing finds nothing to do.
  unfold Slot.released Slot.clear
  split <;> simp_all

/-- A slot that exists is released, and counted. -/
theorem release_eq (found : s.slots[i]? = some x) :
    s.release i = { s with
      slots := s.slots.set i x.released
      released := s.released + if x.held then 1 else 0 } := by
  rw [release, found]
  rfl

/-- Releasing a slot leaves the others. -/
theorem slots_release (s : Scratch) (i j : Nat) :
    (s.release i).slots[j]? = s.slots[j]?.map fun x => if i = j then x.released else x := by
  cases found : s.slots[i]? with
  | none =>
    rw [release, found]
    by_cases same : i = j
    · rw [← same, found]
      rfl
    · simp [same]
  | some x =>
    rw [release_eq found, List.getElem?_set]
    by_cases same : i = j
    · subst same
      obtain ⟨lt, _⟩ := List.getElem?_eq_some_iff.mp found
      rw [if_pos rfl, if_pos lt, found]
      simp
    · simp [same]

/-- No slot goes. -/
theorem length_release (s : Scratch) (i : Nat) : (s.release i).slots.length = s.slots.length := by
  rw [release]
  split
  · exact List.length_set
  · rfl

theorem fault_release (s : Scratch) (i : Nat) : (s.release i).fault = s.fault := by
  rw [release]
  split <;> rfl

/-- **Releasing once more does nothing**: neither the store nor the directory nor the
release is left. -/
theorem release_release (s : Scratch) (i : Nat) : (s.release i).release i = s.release i := by
  cases found : s.slots[i]? with
  | none =>
    have same : s.release i = s := by rw [release, found]
    rw [same, same]
  | some x =>
    have there : (s.release i).slots[i]? = some x.released := by
      rw [slots_release, found]
      simp
    have told : x.released.held = false := rfl
    rw [release_eq there, release_eq found]
    simp [told]

/-- Closing a held slot never fails, and comes to its release with a closed store. -/
theorem close?_eq (found : s.slots[i]? = some x) (held : x.held = true)
    (scratch : x.store.persistent = false) :
    s.close? i = some (.ok (), (s.setStore i x.store.close.2).release i) := by
  have ok := (Store.close_of_scratch scratch).1
  rw [close?, found]
  show (if x.held then some (x.store.close.1,
    ((s.setStore i x.store.close.2).release i).release i) else none) = _
  rw [if_pos held, ok, release_release]

/-! ## Histories -/

/-- What happens to slots. -/
inductive Act where
  | provisioned (slot : Nat)
  /-- No slot was to be had. -/
  | refused (cause : StoreError)
  /-- The store of a slot is used, by its owner or by somebody who got it from there. -/
  | used (slot : Nat) (a : Store.Action)
  | closed (slot : Nat)
  | dropped (slot : Nat)
  /-- The task that had the slot panicked, which drops it. -/
  | panicked (slot : Nat)
  /-- Somebody else removed the directory. -/
  | removed (slot : Nat)
  /-- Somebody else put a file where the root was. -/
  | blocked

namespace Act

/-- The slot that nobody has any more. -/
def spent? : Act → Option Nat
  | closed i | dropped i | panicked i => some i
  | _ => none

/-- What was done to the store of slot `i`. -/
def use? (i : Nat) : Act → Option Store.Action
  | used j a => if j = i then some a else none
  | _ => none

/-- Whether the act takes away the directory of slot `i`, and the slot stays. -/
def Removes (i : Nat) : Act → Prop
  | removed j => j = i
  | blocked => True
  | _ => False

end Act

/-- An act by which a slot goes does nothing else to any slot. -/
theorem Act.only_spends {e : Act} (goes : e.spent? = some i) (j : Nat) :
    e.use? j = none ∧ ¬e.Removes j ∧ e ≠ .removed j ∧ e ≠ .blocked ∧ ∀ a, e ≠ .used j a := by
  cases e with
  | closed k | dropped k | panicked k => exact ⟨rfl, id, nofun, nofun, nofun⟩
  | _ => cases goes

/-- The slots that were closed, dropped, or lost in a panic, one after another. -/
def spent (acts : List Act) : List Nat := acts.filterMap Act.spent?

/-- What was done to the store of slot `i`, one action after another. -/
def uses (i : Nat) (acts : List Act) : List Store.Action := acts.filterMap (Act.use? i)

/-- What happened, and the slots after it. A slot that was closed, dropped or lost is
nobody's any more; its store may still be used. -/
inductive History : List Act → Scratch → Prop where
  | start : History [] {}
  | provision {acts : List Act} {s t : Scratch} {i : Nat} (h : History acts s)
      (made : s.provision = (.ok i, t)) : History (acts ++ [.provisioned i]) t
  | refuse {acts : List Act} {s t : Scratch} {e : StoreError} (h : History acts s)
      (refused : s.provision = (.error e, t)) : History (acts ++ [.refused e]) t
  | use {acts : List Act} {s : Scratch} {i : Nat} {x : Slot} {a : Store.Action}
      (h : History acts s) (found : s.slots[i]? = some x) (owner : a.OfOwner) :
      History (acts ++ [.used i a]) (s.setStore i (a.run x.store))
  | close {acts : List Act} {s t : Scratch} {i : Nat} {r : Except StoreError Unit}
      (h : History acts s) (lt : i < s.slots.length) (owned : i ∉ spent acts)
      (closes : s.close? i = some (r, t)) : History (acts ++ [.closed i]) t
  | drop {acts : List Act} {s : Scratch} {i : Nat} (h : History acts s)
      (lt : i < s.slots.length) (owned : i ∉ spent acts) :
      History (acts ++ [.dropped i]) (s.release i)
  | panic {acts : List Act} {s : Scratch} {i : Nat} (h : History acts s)
      (lt : i < s.slots.length) (owned : i ∉ spent acts) :
      History (acts ++ [.panicked i]) (s.release i)
  | remove {acts : List Act} {s : Scratch} {i : Nat} (h : History acts s)
      (lt : i < s.slots.length) : History (acts ++ [.removed i]) (s.removeDirectory i)
  | block {acts : List Act} {s : Scratch} (h : History acts s) :
      History (acts ++ [.blocked]) s.block

variable {acts : List Act} {e : Act}

/-- One more act is read off behind the others. -/
theorem spent_concat (acts : List Act) (e : Act) :
    spent (acts ++ [e]) = spent acts ++ e.spent?.toList := by
  rw [spent, List.filterMap_append, spent]
  cases spent : e.spent? <;> simp [spent]

theorem uses_concat (i : Nat) (acts : List Act) (e : Act) :
    uses i (acts ++ [e]) = uses i acts ++ (e.use? i).toList := by
  rw [uses, List.filterMap_append, uses]
  cases use : e.use? i <;> simp [use]

/-! ## What is kept of a history

One lemma for each act: it keeps what the acts so far say about every slot. -/

/-- What slot `i` keeps of a history: a slot that somebody has knows of the acts on it,
and any other one is cleared. -/
structure Slot.Recalls (acts : List Act) (i : Nat) (x : Slot) : Prop where
  held : x.held = true ↔ i ∉ spent acts
  guards : x.guards = x.held
  cleared : x.held = false → x.store.closed = true ∧ x.directory = false
  directory : x.held = true → (x.directory = true ↔ ∀ e ∈ acts, ¬e.Removes i)
  store : x.held = true → x.store = Store.scratch.runAll (uses i acts)

/-- What all slots keep of it. -/
structure Sound (acts : List Act) (s : Scratch) : Prop where
  once : (spent acts).Nodup
  told : s.released = (spent acts).length
  known : ∀ e ∈ acts, ∀ i, e.spent? = some i ∨ (e.use? i).isSome ∨ e = .removed i →
    i < s.slots.length
  owner : ∀ i a, .used i a ∈ acts → a.OfOwner
  blocked : .blocked ∈ acts → s.fault.isSome
  slot : ∀ i (x : Slot), s.slots[i]? = some x → x.Recalls acts i

/-- A slot is spent by one of the acts. -/
theorem mem_spent : i ∈ spent acts ↔ ∃ e ∈ acts, e.spent? = some i := List.mem_filterMap

/-- What is used of a slot was used in some act. -/
theorem mem_uses {a : Store.Action} : a ∈ uses i acts ↔ .used i a ∈ acts := by
  rw [uses, List.mem_filterMap]
  constructor
  · rintro ⟨e, mem, used⟩
    unfold Act.use? at used
    split at used
    · split at used
      · cases used
        next same => exact same ▸ mem
      · cases used
    · cases used
  · exact fun mem => ⟨_, mem, if_pos rfl⟩

namespace Slot.Recalls

variable {y : Slot}

/-- A fresh slot, to which nothing was done. -/
theorem fresh (unknown : ∀ e ∈ acts, e.spent? ≠ some i ∧ e.use? i = none ∧ ¬e.Removes i)
    (k : Nat) : Slot.Recalls (acts ++ [.provisioned k]) i ⟨.scratch, true, true, true⟩ := by
  have unspent : i ∉ spent (acts ++ [.provisioned k]) := by
    rw [spent_concat, List.mem_append, not_or, mem_spent]
    exact ⟨fun ⟨e, mem, goes⟩ => (unknown e mem).1 goes, by simp [Act.spent?]⟩
  have unused : uses i acts = [] :=
    List.filterMap_eq_nil_iff.mpr fun e mem => (unknown e mem).2.1
  refine ⟨by simpa using unspent, rfl, nofun, fun _ => ?_, fun _ => ?_⟩
  · rw [List.forall_mem_append]
    simpa [Act.Removes] using fun e mem => (unknown e mem).2.2
  · rw [uses_concat, unused]
    rfl

/-- Acts on other slots. -/
theorem frame (recalls : x.Recalls acts i) (kept : e.spent? ≠ some i) (unused : e.use? i = none)
    (there : ¬e.Removes i) : x.Recalls (acts ++ [e]) i := by
  have spent : i ∈ spent (acts ++ [e]) ↔ i ∈ spent acts := by
    simp [spent_concat, kept]
  have uses : uses i (acts ++ [e]) = uses i acts := by
    rw [uses_concat, unused]
    simp
  -- Whether the slot is held, its directory and its store depend on these acts alone.
  refine ⟨?_, recalls.guards, recalls.cleared, fun held => ?_, fun held => ?_⟩
  · rw [recalls.held, spent]
  · rw [recalls.directory held, List.forall_mem_append]
    simp [there]
  · rw [uses]
    exact recalls.store held

/-- The store is used. -/
theorem use {a : Store.Action} (recalls : x.Recalls acts i) (owner : a.OfOwner) :
    Slot.Recalls (acts ++ [.used i a]) i { x with store := a.run x.store } := by
  have spent : spent (acts ++ [.used i a]) = spent acts := by
    simp [spent_concat, Act.spent?]
  refine ⟨?_, recalls.guards, fun gone => ?_, fun held => ?_, fun held => ?_⟩
  · rw [spent]
    exact recalls.held
  · obtain ⟨closed, directory⟩ := recalls.cleared gone
    have frozen := (Store.frozen_of_closed closed).runAll [a] (by simpa using owner)
    refine ⟨?_, directory⟩
    show (x.store.runAll [a]).closed = true
    rw [frozen, closed]
  · rw [recalls.directory held, List.forall_mem_append]
    simp [Act.Removes]
  · show a.run x.store = _
    rw [uses_concat, recalls.store held]
    simp [Act.use?, Store.runAll_concat]

/-- The slot goes. What became of its store before does not matter. -/
theorem release (recalls : x.Recalls acts i) (owned : i ∉ spent acts)
    (goes : e.spent? = some i) (store : Store) :
    Slot.Recalls (acts ++ [e]) i { x with store }.released := by
  have held : x.held = true := recalls.held.mpr owned
  have guards : x.guards = true := recalls.guards.trans held
  have cleared : { x with store }.released = ⟨store.closeNow, false, false, false⟩ := by
    simp [released, clear, guards]
  -- Nothing is held now, so that directory and store need not be as the acts left them.
  rw [cleared]
  refine ⟨?_, rfl, fun _ => ⟨rfl, rfl⟩, nofun, nofun⟩
  simp [spent_concat, goes]

/-- The directory is taken away. -/
theorem remove (recalls : x.Recalls acts i) (kept : e.spent? = none) (unused : e.use? i = none)
    (away : e.Removes i) : Slot.Recalls (acts ++ [e]) i { x with directory := false } := by
  have spent : spent (acts ++ [e]) = spent acts := by
    simp [spent_concat, kept]
  have uses : uses i (acts ++ [e]) = uses i acts := by
    simp [uses_concat, unused]
  refine ⟨?_, recalls.guards, fun gone => ⟨(recalls.cleared gone).1, rfl⟩, fun held => ?_,
    fun held => ?_⟩
  · rw [spent]
    exact recalls.held
  · simp [away]
  · rw [uses]
    exact recalls.store held

end Slot.Recalls

namespace Sound

/-- Before any act there is no slot. -/
theorem start : Sound [] {} := ⟨.nil, rfl, nofun, nofun, nofun, nofun⟩

/-- An act on the slots there are, of which none goes. -/
theorem stay (sound : Sound acts s) (kept : e.spent? = none) (told : t.released = s.released)
    (length : s.slots.length ≤ t.slots.length)
    (known : ∀ i, (e.use? i).isSome ∨ e = .removed i → i < t.slots.length)
    (owner : ∀ i a, e = .used i a → a.OfOwner) (fault : s.fault.isSome → t.fault.isSome)
    (blocked : e = .blocked → t.fault.isSome)
    (slot : ∀ i (x : Slot), t.slots[i]? = some x → x.Recalls (acts ++ [e]) i) :
    Sound (acts ++ [e]) t := by
  -- The new act spends no slot, so the record of spent ones is the old one.
  have spent : spent (acts ++ [e]) = spent acts := by
    simp [spent_concat, kept]
  refine ⟨?_, ?_, ?_, ?_, ?_, slot⟩
  · rw [spent]
    exact sound.once
  · rw [spent, told, sound.told]
  · intro f mem i concerns
    rcases List.mem_append.mp mem with mem | mem
    · exact (sound.known f mem i concerns).trans_le length
    · rw [List.mem_singleton.mp mem, kept] at concerns
      exact known i (concerns.resolve_left nofun)
  · intro i a mem
    rcases List.mem_append.mp mem with mem | mem
    · exact sound.owner i a mem
    · exact owner i a (List.mem_singleton.mp mem).symm
  · intro mem
    rcases List.mem_append.mp mem with mem | mem
    · exact fault (sound.blocked mem)
    · exact blocked (List.mem_singleton.mp mem).symm

/-- A slot goes, and with it what became of its store. The release is told once. -/
theorem go (sound : Sound acts s) (goes : e.spent? = some i) (found : s.slots[i]? = some x)
    (owned : i ∉ spent acts) (store : Store) :
    Sound (acts ++ [e]) ((s.setStore i store).release i) := by
  have held : x.held = true := (sound.slot i x found).held.mpr owned
  -- It is the slot's own release that is told: the slot was held, since nobody had let it go.
  obtain ⟨lt, _⟩ := List.getElem?_eq_some_iff.mp found
  have length : ((s.setStore i store).release i).slots.length = s.slots.length := by
    rw [length_release, setStore, List.length_modify]
  have replaced : (s.setStore i store).slots[i]? = some { x with store } := by
    rw [slots_setStore, found]
    simp
  refine ⟨?_, ?_, ?_, ?_, ?_, ?_⟩
  · rw [spent_concat, goes]
    refine List.nodup_append.mpr ⟨sound.once, by simp, fun j mem k mem' same => owned ?_⟩
    rwa [Option.some.inj (Option.mem_toList.mp mem'), ← same]
  · rw [release_eq replaced, spent_concat, goes]
    simp [held, ← sound.told, setStore]
  · intro f mem j concerns
    rw [length]
    rcases List.mem_append.mp mem with mem | mem
    · exact sound.known f mem j concerns
    · obtain ⟨unused, _, other, _⟩ := Act.only_spends goes j
      rw [List.mem_singleton.mp mem, goes, unused] at concerns
      rcases concerns with same | used | same
      · exact Option.some.inj same ▸ lt
      · cases used
      · exact absurd same other
  · intro j a mem
    rcases List.mem_append.mp mem with mem | mem
    · exact sound.owner j a mem
    · exact absurd (List.mem_singleton.mp mem).symm ((Act.only_spends goes j).2.2.2.2 a)
  · intro mem
    rw [fault_release]
    rcases List.mem_append.mp mem with mem | mem
    · exact sound.blocked mem
    · exact absurd (List.mem_singleton.mp mem).symm (Act.only_spends goes i).2.2.2.1
  · intro j y there
    rw [slots_release, slots_setStore, Option.map_map] at there
    obtain ⟨y, found', rfl⟩ := Option.map_eq_some_iff.mp there
    dsimp only [Function.comp_apply]
    -- The slot that goes, and all others, which keep their frame.
    by_cases same : i = j
    · subst same
      rw [found] at found'
      cases found'
      rw [if_pos rfl, if_pos rfl]
      exact (sound.slot i x found).release owned goes store
    · rw [if_neg same, if_neg same]
      obtain ⟨unused, there, _⟩ := Act.only_spends goes j
      refine (sound.slot j y found').frame ?_ unused there
      rw [goes]
      exact fun eq => same (Option.some.inj eq)

/-- Nothing was done to a slot that is not there yet. -/
theorem unknown (sound : Sound acts s) (room : s.fault = none) :
    ∀ e ∈ acts, e.spent? ≠ some s.slots.length ∧ e.use? s.slots.length = none ∧
      ¬e.Removes s.slots.length := by
  intro e mem
  have known := sound.known e mem s.slots.length
  refine ⟨fun goes => ?_, ?_, fun removes => ?_⟩
  · exact absurd (known (.inl goes)) (Nat.lt_irrefl _)
  · cases used : e.use? s.slots.length with
    | none => rfl
    | some a => exact absurd (known (.inr (.inl (by rw [used]; rfl)))) (Nat.lt_irrefl _)
  · cases e with
    | removed k =>
      cases removes
      exact absurd (known (.inr (.inr rfl))) (Nat.lt_irrefl _)
    | blocked =>
      have broken := sound.blocked mem
      rw [room] at broken
      cases broken
    | _ => cases removes

/-- A slot that is provided has a directory and an empty store. -/
theorem provision {i : Nat} (sound : Sound acts s) (made : s.provision = (.ok i, t)) :
    Sound (acts ++ [.provisioned i]) t := by
  rw [Scratch.provision] at made
  split at made
  · cases made
  · next room =>
    cases made
    refine sound.stay rfl rfl (by simp) nofun nofun id nofun fun j x found => ?_
    by_cases older : j < s.slots.length
    · rw [List.getElem?_append_left older] at found
      exact (sound.slot j x found).frame nofun rfl id
    · rw [List.getElem?_append_right (by omega), List.getElem?_singleton] at found
      split at found
      · cases found
        obtain rfl : j = s.slots.length := by omega
        exact .fresh (sound.unknown room) _
      · cases found

/-- Nothing was provided, and nothing is owed. -/
theorem refuse {cause : StoreError} (sound : Sound acts s)
    (refused : s.provision = (.error cause, t)) : Sound (acts ++ [.refused cause]) t := by
  rw [Scratch.provision] at refused
  split at refused
  · cases refused
    exact sound.stay rfl rfl (Nat.le_refl _) nofun nofun id nofun fun j x found =>
      (sound.slot j x found).frame nofun rfl id
  · cases refused

/-- A use runs on the store that was there, and shows up behind the earlier ones. -/
theorem use {a : Store.Action} (sound : Sound acts s) (found : s.slots[i]? = some x)
    (owner : a.OfOwner) : Sound (acts ++ [.used i a]) (s.setStore i (a.run x.store)) := by
  obtain ⟨lt, _⟩ := List.getElem?_eq_some_iff.mp found
  have length : (s.setStore i (a.run x.store)).slots.length = s.slots.length :=
    List.length_modify ..
  refine sound.stay rfl rfl length.ge ?_ ?_ id nofun fun j y there => ?_
  · intro j concerns
    rw [length]
    rcases concerns with used | other
    · by_cases same : i = j
      · exact same ▸ lt
      · rw [Act.use?, if_neg same] at used
        cases used
    · cases other
  · rintro j b ⟨⟩
    exact owner
  · rw [slots_setStore] at there
    obtain ⟨y, found', rfl⟩ := Option.map_eq_some_iff.mp there
    by_cases same : i = j
    · subst same
      rw [found] at found'
      cases found'
      rw [if_pos rfl]
      exact (sound.slot i x found).use owner
    · rw [if_neg same]
      exact (sound.slot j y found').frame nofun (if_neg same) id

/-- A directory that is gone does not come back. -/
theorem remove (sound : Sound acts s) (lt : i < s.slots.length) :
    Sound (acts ++ [.removed i]) (s.removeDirectory i) := by
  have length : (s.removeDirectory i).slots.length = s.slots.length := List.length_modify ..
  refine sound.stay rfl rfl length.ge ?_ nofun id nofun fun j y there => ?_
  · rintro j (used | same)
    · cases used
    · cases same
      rw [length]
      exact lt
  · rw [slots_removeDirectory] at there
    obtain ⟨y, found, rfl⟩ := Option.map_eq_some_iff.mp there
    by_cases same : i = j
    · rw [if_pos same]
      exact (sound.slot j y found).remove rfl rfl same
    · rw [if_neg same]
      exact (sound.slot j y found).frame nofun rfl same

theorem block (sound : Sound acts s) : Sound (acts ++ [.blocked]) s.block := by
  have length : s.block.slots.length = s.slots.length := List.length_map _
  refine sound.stay rfl rfl length.ge (by simp [Act.use?]) nofun (fun _ => rfl) (fun _ => rfl)
    fun j y there => ?_
  rw [slots_block] at there
  obtain ⟨y, found, rfl⟩ := Option.map_eq_some_iff.mp there
  exact (sound.slot j y found).remove rfl rfl trivial

/-- A slot that is released as it is. -/
theorem drop (sound : Sound acts s) (goes : e.spent? = some i) (lt : i < s.slots.length)
    (owned : i ∉ spent acts) : Sound (acts ++ [e]) (s.release i) := by
  have found : s.slots[i]? = some s.slots[i] := List.getElem?_eq_getElem lt
  -- Nothing becomes of its store first, which is to say that it is set to what it is.
  have same : s.setStore i s.slots[i].store = s := by
    rw [setStore, List.modify_eq_set_getElem?, found]
    show { s with slots := s.slots.set i s.slots[i] } = s
    rw [List.set_getElem_self]
  rw [← same]
  exact sound.go goes found owned _

/-- The store of a slot that somebody has can be closed. -/
theorem unwritten (sound : Sound acts s) (found : s.slots[i]? = some x) (owned : i ∉ spent acts) :
    x.store.persistent = false ∧ (x.store.closed = true ↔ .used i .close ∈ acts) := by
  have recalls := sound.slot i x found
  rw [recalls.store (recalls.held.mpr owned)]
  have owner : ∀ a ∈ uses i acts, a.OfOwner := fun a mem => sound.owner i a (mem_uses.mp mem)
  have uses := Store.runAll_of_scratch (s := Store.scratch) rfl owner
  refine ⟨uses.1, ?_⟩
  rw [uses.2, mem_uses]
  simp [Store.scratch]

/-- Closing releases the slot, whether or not the store could be closed. -/
theorem close {r : Except StoreError Unit} (sound : Sound acts s) (lt : i < s.slots.length)
    (owned : i ∉ spent acts) (closes : s.close? i = some (r, t)) :
    Sound (acts ++ [.closed i]) t := by
  have found : s.slots[i]? = some s.slots[i] := List.getElem?_eq_getElem lt
  have held := (sound.slot i _ found).held.mpr owned
  rw [close?_eq found held (sound.unwritten found owned).1] at closes
  cases closes
  exact sound.go rfl found owned _

end Sound

/-- All slots keep what happened. The induction is on the acts. -/
theorem History.sound (history : History acts s) : Sound acts s := by
  induction history with
  | start => exact .start
  | provision _ made ih => exact ih.provision made
  | refuse _ refused ih => exact ih.refuse refused
  | use _ found owner ih => exact ih.use found owner
  | close _ lt owned closes ih => exact ih.close lt owned closes
  | drop _ lt owned ih => exact ih.drop rfl lt owned
  | panic _ lt owned ih => exact ih.drop rfl lt owned
  | remove _ lt ih => exact ih.remove lt
  | block _ ih => exact ih.block

/-! ## The theorem

Read off what is kept of the history. -/

/-- **Slots are released once, on every path.** No slot goes twice, and as many releases
were told as slots were closed, dropped or lost; their stores are closed and their
directories gone. Every other slot has its directory unless somebody else took it away,
its store is what its own actions made of it, closed only if that was one of them, and it
can still be closed. Where no slot is to be had nothing changes. -/
theorem releases_once (history : History acts s) :
    (spent acts).Nodup ∧ s.released = (spent acts).length ∧
    (∀ i ∈ spent acts, ∃ x, s.slots[i]? = some x ∧
      x.store.closed = true ∧ x.directory = false) ∧
    (∀ i (x : Slot), s.slots[i]? = some x → i ∉ spent acts →
      (x.directory = true ↔ ∀ e ∈ acts, ¬e.Removes i) ∧
      x.store = Store.scratch.runAll (uses i acts) ∧
      (x.store.closed = true ↔ .used i .close ∈ acts) ∧
      ∃ t, s.close? i = some (.ok (), t)) ∧
    (∀ cause t, s.provision = (.error cause, t) → t = s) := by
  have sound := history.sound
  refine ⟨sound.once, sound.told, ?_, ?_, ?_⟩
  · intro i gone
    obtain ⟨e, mem, goes⟩ := mem_spent.mp gone
    -- A spent slot is a slot that was provisioned: the history knows it.
    have lt : i < s.slots.length := sound.known e mem i (.inl goes)
    have found : s.slots[i]? = some s.slots[i] := List.getElem?_eq_getElem lt
    have recalls := sound.slot i _ found
    refine ⟨_, found, recalls.cleared ?_⟩
    rw [← Bool.not_eq_true, recalls.held, not_not]
    exact gone
  · intro i x found owned
    have recalls := sound.slot i x found
    have held := recalls.held.mpr owned
    obtain ⟨unwritten, closed⟩ := sound.unwritten found owned
    exact ⟨recalls.directory held, recalls.store held, closed, _, close?_eq found held unwritten⟩
  · intro cause t refused
    rw [provision] at refused
    split at refused
    · cases refused
      rfl
    · cases refused

/-- One slot is kept with a block, one is closed after its store was closed and its
directory removed, and one is lost in a panic. -/
theorem releases_once_one_kept :
    let b : Batch := { block := ⟨3, "c"⟩ }
    let kept : Slot := ⟨(Store.Action.commit b).run .scratch, true, true, true⟩
    let gone : Slot := ⟨Store.scratch.closeNow, false, false, false⟩
    let acts : List Act := [.provisioned 0, .provisioned 1, .provisioned 2, .used 0 (.commit b),
      .used 1 .close, .removed 1, .closed 1, .panicked 2]
    let s : Scratch := ⟨none, [kept, gone, gone], 2, 3⟩
    History acts s ∧ spent acts = [1, 2] ∧ (spent acts).Nodup ∧
      s.released = (spent acts).length ∧ kept.store.ledger.head? = some ⟨3, "c"⟩ ∧
      (kept.directory = true ↔ ∀ e ∈ acts, ¬e.Removes 0) ∧
      kept.store = Store.scratch.runAll (uses 0 acts) ∧
      ∃ t, s.close? 0 = some (.ok (), t) := by
  intro b kept gone acts s
  let fresh : Slot := ⟨.scratch, true, true, true⟩
  let left : Slot := ⟨Store.Action.close.run .scratch, false, true, true⟩
  have provisioned : History [.provisioned 0, .provisioned 1, .provisioned 2]
      ⟨none, [fresh, fresh, fresh], 0, 3⟩ :=
    .provision (.provision (.provision .start rfl) rfl) rfl
  have used := (provisioned.use (i := 0) (a := .commit b) rfl trivial).use (i := 1) (a := .close)
    rfl trivial
  have removed : History (acts.take 6) ⟨none, [kept, left, fresh], 0, 3⟩ :=
    used.remove (i := 1) (by decide)
  have closed : History (acts.take 7) ⟨none, [kept, gone, fresh], 1, 3⟩ :=
    removed.close (i := 1) (r := .ok ()) (by decide) (by decide) rfl
  have history : History acts s := closed.panic (i := 2) (by decide) (by decide)
  obtain ⟨once, told, _, kept, _⟩ := releases_once history
  obtain ⟨directory, store, _, closes⟩ := kept 0 _ rfl (by decide)
  exact ⟨history, by decide, once, told, by decide, directory, store, closes⟩

end Scratch

end BalanceAudit
