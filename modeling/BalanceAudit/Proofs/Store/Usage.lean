import BalanceAudit.Proofs.Store.Commit
import Mathlib.Data.List.Chain

/-!
# What a store holds while it is used

A store that began empty, and the file that it writes, are used by nobody else. At any
time the directory may be opened again, whether or not the store was closed, and then
what was committed after the last write is gone.

- `Store.Use`, `Store.Usage`: what happens to the store, and the blocks that were
  committed and survived.
- `Ledger.Holds`: a ledger holds blocks without a gap, and nothing else.
- `Store.Usage.Sound`: so does the store, and the directory if it is opened again.
- `Store.Usage.Sound.run`, `Store.Usage.Sound.runAll`: one step, and a whole usage.
- `Store.Frozen`: a closed store.
- `Store.usage_contiguous`: **stored blocks form one run that ends at the head, and a
  closed store is frozen**.
-/

namespace BalanceAudit

/-! ## Blocks without a gap

Identifiers follow each other, and a commit adds one at the end. A head, a range and a
look-up are read off that list. -/

namespace Ledger

variable {l : Ledger} {ids : List BlockId} {b : Batch}

/-- The block has the index after the other one's. -/
def Follows (earlier later : BlockId) : Prop := later.index = earlier.index + 1

/-- The blocks that are stored are those listed; each comes right after the one in front
of it, and none has the greatest index. -/
structure Holds (l : Ledger) (ids : List BlockId) : Prop where
  entries : l.blocks.entries = ids.map fun b => (b.index, b.hash)
  consecutive : ids.IsChain Follows
  below : ∀ b ∈ ids, b.index < Index.greatest

namespace Holds

theorem of_blocks_eq {l' : Ledger} (holds : l.Holds ids) (same : l'.blocks = l.blocks) :
    l'.Holds ids := ⟨same ▸ holds.entries, holds.consecutive, holds.below⟩

/-- The head is the last block. -/
theorem head?_eq (holds : l.Holds ids) : l.head? = ids.getLast? := by
  rw [head?, Table.last?, holds.entries, List.getLast?_map, Option.map_map]
  exact Option.map_id_apply

/-- An index shows the block that has it. -/
theorem block?_eq_some_iff (holds : l.Holds ids) {i : Int} {id : BlockId} :
    l.block? i = some id ↔ id ∈ ids ∧ id.index = i := by
  rw [block?, Option.map_eq_some_iff]
  constructor
  · rintro ⟨hash, found, rfl⟩
    rw [Table.find?_eq_some_iff, holds.entries, List.mem_map] at found
    obtain ⟨id, mem, eq⟩ := found
    cases eq
    exact ⟨mem, rfl⟩
  · rintro ⟨mem, rfl⟩
    refine ⟨id.hash, ?_, rfl⟩
    rw [Table.find?_eq_some_iff, holds.entries]
    exact List.mem_map.mpr ⟨id, mem, rfl⟩

/-- A block that comes next is one more. -/
theorem apply (holds : l.Holds ids)
    (extends_ : Store.extends? l b.block = .ok ()) (below : b.block.index < Index.greatest) :
    (l.apply b).Holds (ids ++ [b.block]) where
  entries := by
    have behind := Store.behind_of_extends extends_
    rw [blocks_apply, Table.entries_insert_of_lt _ fun e mem =>
      Table.compare_int_lt.mpr (lt_of_head?_lt behind e mem), holds.entries, List.map_append]
    rfl
  consecutive := by
    refine List.isChain_append.mpr ⟨holds.consecutive, List.isChain_singleton _, ?_⟩
    intro last found next same
    obtain rfl : b.block = next := Option.some.inj same
    rw [← holds.head?_eq] at found
    exact Store.follows_of_extends extends_ found
  below := by
    intro id mem
    rcases List.mem_append.mp mem with mem | last
    · exact holds.below id mem
    · rw [List.mem_singleton.mp last]
      exact below

/-- Between any two blocks every index is taken. -/
theorem exists_of_between {first last : BlockId} {ids : List BlockId}
    (consecutive : ids.IsChain Follows) (begins : ids.head? = some first)
    (ends : ids.getLast? = some last) (i : Int) :
    (∃ id ∈ ids, id.index = i) ↔ first.index ≤ i ∧ i ≤ last.index := by
  induction ids generalizing first i with
  | nil => cases begins
  | cons id rest ih =>
    cases begins
    cases rest with
    | nil =>
      cases ends
      simp
      omega
    | cons second rest =>
      obtain ⟨next, later⟩ := List.isChain_cons_cons.mp consecutive
      have between := fun i => ih later rfl (by simpa using ends) i
      have ordered := ((between second.index).mp ⟨second, List.mem_cons_self, rfl⟩).2
      rw [Follows] at next
      rw [List.exists_mem_cons_iff, between i]
      omega

end Holds

theorem holds_empty : ({} : Ledger).Holds [] := ⟨rfl, .nil, by simp⟩

/-- A manifest lists no blocks. -/
theorem blocks_seed (l : Ledger) (seeds : List Seed) (genesis : BlockId) :
    (l.seed seeds genesis).blocks = l.blocks := by
  have puts : ∀ (l : Ledger) (added : Nat),
      (seeds.foldl (fun (p : Ledger × Nat) s =>
        (p.1.put s.holding ⟨s.value, genesis⟩,
          if p.1.balances.contains s.holding then p.2 else p.2 + 1)) (l, added)).1.blocks =
        l.blocks := by
    induction seeds with
    | nil => exact fun l added => rfl
    | cons s rest ih => exact fun l added => ih _ _
  exact puts l 0

end Ledger

namespace Store

variable {s : Store} {a : Action} {b : Batch}

/-! ## What is written

Every write leaves the file up to date, and a file that is up to date opens as the ledger in
memory. -/

/-- The file holds what is in memory. -/
def UpToDate (s : Store) : Prop := s.disk.text? = some s.ledger.toJson.pretty

instance (s : Store) : Decidable s.UpToDate := inferInstanceAs (Decidable (_ = _))

theorem openAt_of_text {d : Disk} {l : Ledger} (text : d.text? = some l.toJson.pretty)
    (within : l.InLimits) : openAt d = .ok { ledger := l, persistent := true, disk := d } := by
  obtain ⟨entry, writable⟩ := d
  cases entry with
  | file t =>
    cases text
    exact openAt_text within writable
  | absent => cases text
  | directory => cases text

theorem flush_disk (s : Store) : s.flush.2.disk = s.disk ∨ s.flush.2.UpToDate := by
  rw [flush_eq_ite]
  by_cases persistent : s.persistent = true <;> by_cases works : s.disk.Works <;>
    simp [persistent, works, UpToDate, Disk.text?]

theorem close_disk (s : Store) : s.close.2.disk = s.disk ∨ s.close.2.UpToDate := by
  have flushed := flush_disk s
  rw [close]
  split
  · exact .inl rfl
  · split <;>
      next eq =>
        rw [eq] at flushed
        exact flushed

theorem bootstrap_disk (s : Store) (manifest : Except FileFault String) (genesis : BlockId) :
    (s.bootstrap manifest genesis).2.disk = s.disk ∨ (s.bootstrap manifest genesis).2.UpToDate := by
  rw [bootstrap]
  split
  · exact .inl rfl
  · next seeds listed =>
    have flushed := flush_disk { s with ledger := s.ledger.seed seeds genesis }
    split
    · exact .inl rfl
    · split <;>
        next eq =>
          rw [eq] at flushed
          exact flushed

theorem commit_disk_or (s : Store) (b : Batch) :
    (s.commit b).2.disk = s.disk ∨ (s.commit b).2.UpToDate := by
  rcases commit_cases s b with ⟨same, _⟩ | ⟨isOpen, next, _⟩
  · exact .inl (congrArg Store.disk same)
  · rw [UpToDate, commit_ledger isOpen next]
    exact commit_disk isOpen next

/-- Nobody else changes what stands in the directory. -/
def Action.Own : Action → Prop
  | replace _ => False
  | _ => True

/-- An action leaves the file, or writes it. -/
theorem Action.run_disk (own : a.Own) : (a.run s).disk = s.disk ∨ (a.run s).UpToDate := by
  cases a with
  | commit b => exact commit_disk_or s b
  | update name amount =>
    left
    rw [Action.run, Store.update]
    split <;> rfl
  | bootstrap manifest genesis => exact bootstrap_disk s manifest genesis
  | flush => exact flush_disk s
  | close => exact close_disk s
  | closeNow => exact .inl rfl
  | setInterval commits => exact .inl rfl
  | replace disk => exact own.elim

/-! ## Usages

Two ledgers are followed, that in memory and that of the file, because a store may be
dropped and opened again. -/

/-- What happens to a store and its directory. -/
inductive Use where
  | act (a : Action)
  /-- Writing begins or ceases to work. -/
  | setWritable (writable : Bool)
  /-- The directory is opened again; the store there was is forgotten. -/
  | reopen (commits : Nat)

/-- Indices are words below the greatest one. -/
def Use.Within : Use → Prop
  | act a => a.Own ∧ a.InLimits ∧ ∀ b, a = .commit b → b.block.index < Index.greatest
  | _ => True

/-- A store in use. -/
structure Usage where
  store : Store
  /-- The blocks committed so far, in order, but for those that were forgotten. -/
  survivors : List BlockId := []
  /-- Those that were there when the file was written. -/
  filed : List BlockId := []

/-- The block of a commit that is not refused. -/
def Action.committed? (s : Store) : Action → Option BlockId
  | commit b =>
    match (s.commit b).1 with
    | .error (.failed .closed) | .error (.failed (.outOfOrder ..)) | .error (.overflow _) => none
    | _ => some b.block
  | _ => none

namespace Usage

/-- What becomes of a store in use. -/
def run (u : Usage) : Use → Usage
  | .act a =>
    let store := a.run u.store
    let survivors := u.survivors ++ (a.committed? u.store).toList
    { store, survivors, filed := if store.UpToDate then survivors else u.filed }
  | .setWritable writable =>
    { u with store := { u.store with disk := { u.store.disk with writable } } }
  | .reopen commits =>
    match openAt u.store.disk with
    | .ok store => { u with store := store.withInterval commits, survivors := u.filed }
    | .error _ => u

/-- One use after another. -/
def runAll (u : Usage) (uses : List Use) : Usage := uses.foldl run u

/-- The store holds the survivors, and its directory those that were filed. -/
structure Sound (u : Usage) : Prop where
  holds : u.store.ledger.Holds u.survivors
  within : u.store.ledger.InLimits
  reopens : ∀ t, openAt u.store.disk = .ok t → t.ledger.Holds u.filed

variable {u : Usage}

/-- Only a commit changes the blocks. -/
theorem blocks_run (other : ∀ b, a ≠ .commit b) : (a.run s).ledger.blocks = s.ledger.blocks := by
  have changes := (a.run_changes s).2
  generalize (a.run s).ledger = l at changes
  cases changes with
  | none => rfl
  | commit b => exact absurd rfl (other b)
  | update name amount => rfl
  | bootstrap genesis _ => exact Ledger.blocks_seed ..

/-- A commit adds its block, or is refused. -/
theorem holds_commit {ids : List BlockId} (holds : s.ledger.Holds ids)
    (below : b.block.index < Index.greatest) :
    (s.commit b).2.ledger.Holds (ids ++ ((Action.commit b).committed? s).toList) := by
  rw [Action.committed?]
  by_cases closed : s.closed = true
  · rw [commit_of_closed closed]
    simpa using holds
  have isOpen := Bool.eq_false_iff.mpr closed
  cases order : extends? s.ledger b.block with
  | error stop =>
    rw [commit_of_refused isOpen order]
    obtain ⟨head, -, ⟨-, rfl⟩ | rfl⟩ := extends?_error order
    · simpa using holds
    · simpa using holds
  | ok =>
    -- Whether or not the file is written, the block is there.
    rw [commit_eq_of_extends isOpen order, committed_ledger]
    rcases committed_result { s with ledger := s.ledger.apply b } with ok | ⟨error, _⟩
    · rw [ok]
      exact holds.apply order below
    · rw [error]
      exact holds.apply order below

/-- An action adds the block that it commits, if it commits one. -/
theorem holds_run {ids : List BlockId} (holds : s.ledger.Holds ids)
    (below : ∀ b, a = .commit b → b.block.index < Index.greatest) :
    (a.run s).ledger.Holds (ids ++ (a.committed? s).toList) := by
  cases a with
  | commit b => exact holds_commit holds (below b rfl)
  | _ =>
    show Ledger.Holds _ (ids ++ [])
    rw [List.append_nil]
    exact holds.of_blocks_eq (blocks_run nofun)

/-- Opening does not look at whether the file can be written. -/
theorem openAt_ledger_of_writable {d : Disk} {writable : Bool} {t : Store}
    (opened : openAt { d with writable } = .ok t) :
    ∃ t', openAt d = .ok t' ∧ t'.ledger = t.ledger := by
  obtain ⟨entry, _⟩ := d
  cases entry with
  | absent =>
    cases opened
    exact ⟨_, rfl, rfl⟩
  | directory => cases opened
  | file text =>
    rw [openAt] at opened ⊢
    dsimp only at opened ⊢
    split at opened
    · cases opened
      exact ⟨_, rfl, rfl⟩
    · cases opened

/-- **One use** keeps the store and its directory sound. -/
theorem Sound.run {x : Use} (sound : u.Sound) (fits : x.Within) : (u.run x).Sound := by
  obtain ⟨holds, within, reopens⟩ := sound
  cases x with
  | act a =>
    obtain ⟨own, words, below⟩ := fits
    have held := holds_run holds below
    have limits := a.run_inLimits within words
    refine ⟨held, limits, fun t opened => ?_⟩
    show t.ledger.Holds (if (a.run u.store).UpToDate then _ else _)
    -- What the file holds is what is in memory, or the file is as it was.
    by_cases written : (a.run u.store).UpToDate
    · rw [if_pos written]
      cases (openAt_of_text written limits).symm.trans opened
      exact held
    · rw [if_neg written]
      have same := (a.run_disk own).resolve_right written
      exact reopens t (same ▸ opened)
  | setWritable writable =>
    refine ⟨holds, within, fun t opened => ?_⟩
    obtain ⟨t', opened', same⟩ := openAt_ledger_of_writable opened
    exact same ▸ reopens t' opened'
  | reopen commits =>
    rw [Usage.run]
    split
    · next store opened =>
      have filed := reopens store opened
      have disk := (openAt_cases opened).2.2.2.1
      refine ⟨filed, (openAt_inLimits opened).2, fun t opened' => ?_⟩
      exact reopens t (disk ▸ opened')
    · exact ⟨holds, within, reopens⟩

/-- A whole usage, by induction on it. -/
theorem Sound.runAll {u : Usage} (sound : u.Sound) {uses : List Use}
    (fit : ∀ x ∈ uses, x.Within) : (u.runAll uses).Sound := by
  induction uses generalizing u with
  | nil => exact sound
  | cons x uses ih =>
    obtain ⟨first, rest⟩ := List.forall_mem_cons.mp fit
    exact ih (sound.run first) rest

end Usage

/-! ## Closed stores

Every action of the owner is refused, so the store stays what it is. -/

/-- Nothing reads or changes the store any more. -/
structure Frozen (s : Store) : Prop where
  close : s.close = (.ok (), s)
  read : s.read = .error .closed
  commit : ∀ b, s.commit b = (.error (.failed .closed), s)
  update : ∀ name amount, s.update name amount = (.error .closed, s)
  /-- The manifest is read first. -/
  bootstrap : ∀ manifest genesis, s.bootstrap manifest genesis =
    match readManifest manifest with
    | .error e => (.error e, s)
    | .ok _ => (.error .closed, s)
  runAll : ∀ as, (∀ a ∈ as, a.OfOwner) → s.runAll as = s

theorem frozen_of_closed (closed : s.closed = true) : Frozen s := by
  have read : s.read = .error .closed := if_pos closed
  have close : s.close = (.ok (), s) := if_pos closed
  have update : ∀ name amount, s.update name amount = (.error .closed, s) := by
    intro name amount
    rw [Store.update, read]
  have bootstrap : ∀ manifest genesis, s.bootstrap manifest genesis =
      match readManifest manifest with
      | .error e => (.error e, s)
      | .ok _ => (.error .closed, s) := by
    intro manifest genesis
    -- A manifest is read before the store is asked, so its own error comes first.
    have refused : (s.read >>= unstarted) = .error .closed := by rw [read]; rfl
    rw [Store.bootstrap]
    cases readManifest manifest with
    | error e => rfl
    | ok seeds => simp only [refused]
  refine ⟨close, read, fun _ => commit_of_closed closed, update, bootstrap, fun as owner => ?_⟩
  induction as with
  | nil => rfl
  | cons a as ih =>
    obtain ⟨first, rest⟩ := List.forall_mem_cons.mp owner
    have same : a.run s = s := by
      cases a with
      | commit b => exact congrArg Prod.snd (commit_of_closed closed)
      | update name amount => exact congrArg Prod.snd (update name amount)
      | bootstrap manifest genesis =>
        rw [Action.run, bootstrap]
        split <;> rfl
      | close => exact congrArg Prod.snd close
      | _ => exact first.elim
    show (a.run s).runAll as = s
    rw [same]
    exact ih rest

/-! ## The theorem -/

/-- What the owner of a store can rely on: it holds the blocks that survived, which are
consecutive, and nothing else. That blocks and records stand under their own keys is so by
the form of a ledger, which has the keys only once. -/
structure Contiguous (l : Ledger) (survivors : List BlockId) : Prop where
  consecutive : survivors.IsChain Ledger.Follows
  keys : l.blocks.keys = survivors.map (·.index)
  /-- Each block is found under its own index. -/
  block : ∀ i id, l.block? i = some id ↔ id ∈ survivors ∧ id.index = i
  /-- The indices are those from the first survivor to the head. -/
  range : ∀ i, (l.block? i).isSome ↔
    ∃ first head, survivors.head? = some first ∧ l.head? = some head ∧
      first.index ≤ i ∧ i ≤ head.index
  /-- The head is the block that was committed last of those that survived. -/
  head : l.head? = survivors.getLast?
  /-- What is listed is found under its own holding. -/
  record : ∀ r, r ∈ l.records ↔ l.record? r.holding = some r
  own : ∀ h r, l.record? h = some r → r.holding = h
  snapshot : ∀ h r head, l.snapshot? h = some (r, head) ↔
    l.record? h = some r ∧ l.head? = some head

theorem contiguous_of_holds {l : Ledger} {ids : List BlockId} (holds : l.Holds ids) :
    Contiguous l ids where
  consecutive := holds.consecutive
  keys := by
    rw [Table.keys, holds.entries, List.map_map]
    rfl
  block _ _ := holds.block?_eq_some_iff
  range i := by
    rw [Option.isSome_iff_exists]
    simp only [holds.block?_eq_some_iff, holds.head?_eq]
    cases begins : ids.head? with
    | none =>
      rw [List.head?_eq_none_iff.mp begins]
      simp
    | some first =>
      cases ends : ids.getLast? with
      | none =>
        rw [List.getLast?_eq_none_iff.mp ends] at begins
        cases begins
      | some head =>
        simpa using Ledger.Holds.exists_of_between holds.consecutive begins ends i
  head := holds.head?_eq
  record r := by
    rw [Ledger.records, Ledger.record?, List.mem_map, Option.map_eq_some_iff]
    constructor
    · rintro ⟨⟨h, balance⟩, mem, rfl⟩
      exact ⟨balance, Table.find?_eq_some_iff.mpr mem, rfl⟩
    · rintro ⟨balance, found, eq⟩
      exact ⟨(r.holding, balance), Table.find?_eq_some_iff.mp found, eq⟩
  own h r found := by
    rw [Ledger.record?, Option.map_eq_some_iff] at found
    -- A record is put together with the key it is looked up by.
    obtain ⟨_, _, rfl⟩ := found
    rfl
  snapshot h r head := by
    cases found : l.head? <;> cases listed : l.record? h <;>
      simp [Ledger.snapshot?, found, listed]

/-- **Stored blocks form one run that ends at the head, and a closed store is frozen.**
A store begins empty, and so does what its directory opens as. Whatever its owner does,
whether or not the file can be written, and whenever the directory is opened again, the
store holds exactly the blocks that survived, each right after the one in front of it. -/
theorem usage_contiguous {s : Store} (empty : s.ledger = {})
    (fresh : ∀ t, openAt s.disk = .ok t → t.ledger = {}) {uses : List Use}
    (fit : ∀ x ∈ uses, x.Within) :
    let u := ({ store := s } : Usage).runAll uses
    Contiguous u.store.ledger u.survivors ∧ (u.store.closed = true → u.store.Frozen) := by
  have start : ({ store := s } : Usage).Sound := by
    refine ⟨empty ▸ Ledger.holds_empty, empty ▸ Ledger.inLimits_empty, fun t opened => ?_⟩
    rw [fresh t opened]
    exact Ledger.holds_empty
  exact ⟨contiguous_of_holds (start.runAll fit).holds, frozen_of_closed⟩

/-- Every second commit is written. Three blocks are committed, the directory is opened
again without the third one, another one takes its place, and the store is closed. -/
theorem usage_contiguous_recommitted :
    let commit (i : Int) (hash : String) : Use := .act (.commit ⟨⟨i, hash⟩, [], []⟩)
    let uses : List Use := [.act (.setInterval 2), commit 5 "a", commit 6 "b", commit 7 "c",
      .reopen 2, commit 7 "d", .act .close]
    let s : Store := { persistent := true }
    let u := ({ store := s } : Usage).runAll uses
    s.ledger = {} ∧ (∀ t, openAt s.disk = .ok t → t.ledger = {}) ∧ (∀ x ∈ uses, x.Within) ∧
      u.store.closed = true ∧ u.survivors = [⟨5, "a"⟩, ⟨6, "b"⟩, ⟨7, "d"⟩] ∧
      Contiguous u.store.ledger u.survivors ∧ u.store.Frozen := by
  intro commit uses s u
  have fit : ∀ x ∈ uses, x.Within := by
    intro x mem
    simp only [uses, List.mem_cons, List.not_mem_nil, or_false] at mem
    have commits (i : Int) (hash : String) (word : Index.InRange i) (below : i < Index.greatest) :
        (commit i hash).Within :=
      ⟨trivial, ⟨word, nofun⟩, fun b eq => by cases eq; exact below⟩
    rcases mem with rfl | rfl | rfl | rfl | rfl | rfl | rfl
    · exact ⟨trivial, trivial, nofun⟩
    · exact commits 5 "a" (by decide) (by decide)
    · exact commits 6 "b" (by decide) (by decide)
    · exact commits 7 "c" (by decide) (by decide)
    · exact trivial
    · exact commits 7 "d" (by decide) (by decide)
    · exact ⟨trivial, trivial, nofun⟩
  have fresh : ∀ t, openAt s.disk = .ok t → t.ledger = {} := by
    intro t opened
    cases opened
    rfl
  have whole := usage_contiguous (s := s) rfl fresh fit
  obtain ⟨closed, survivors⟩ :
      u.store.closed = true ∧ u.survivors = [⟨5, "a"⟩, ⟨6, "b"⟩, ⟨7, "d"⟩] := by decide +kernel
  exact ⟨rfl, fresh, fit, closed, survivors, whole.1, whole.2 closed⟩

end Store

end BalanceAudit
