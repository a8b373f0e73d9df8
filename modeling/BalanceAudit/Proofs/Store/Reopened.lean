import BalanceAudit.Proofs.Ledger.Stored
import BalanceAudit.Proofs.Store

/-!
# Opening a store again

Whatever has been done to a store since it was opened, and whatever stood in its
directory, once its file is written the directory opens as the same ledger.

- `Store.Action`: everything that can happen to a store, other hands in its
  directory included; `Store.Reachable`: the stores that come of it.
- `Store.Reachable.inLimits`: the ledger keeps to the limits of words.
- `Store.Reachable.flush_reopens`: **what was written opens as what was held,
  and is the one text of it**.
-/

namespace BalanceAudit

namespace Store

/-! ## Reachable stores

A store is reachable from one that was opened by any actions, those of its owner and those
of the disk. -/

/-- What can happen to a store. -/
inductive Action where
  | commit (b : Batch)
  | update (name : String) (amount : Count)
  | bootstrap (manifest : Except FileFault String) (genesis : BlockId)
  | flush
  | close
  | closeNow
  | setInterval (commits : Nat)
  /-- Somebody else changes what stands in the directory. -/
  | replace (disk : Disk)

namespace Action

/-- Indices and decimals that are put in are words. -/
def InLimits : Action → Prop
  | commit b => b.InLimits
  | bootstrap _ genesis => genesis.InLimits
  | _ => True

/-- What becomes of a store, whether or not it complains. -/
def run (s : Store) : Action → Store
  | commit b => (s.commit b).2
  | update name amount => (s.update name amount).2
  | bootstrap manifest genesis => (s.bootstrap manifest genesis).2
  | flush => s.flush.2
  | close => s.close.2
  | closeNow => s.closeNow
  | setInterval commits => s.withInterval commits
  | replace disk => { s with disk }

end Action

/-- Stores that were opened on a directory and used. -/
inductive Reachable : Store → Prop where
  | opened {disk : Disk} {s : Store} (h : openAt disk = .ok s) : Reachable s
  | run {s : Store} (a : Action) (within : a.InLimits) (h : Reachable s) : Reachable (a.run s)

/-! ## What an action does

The ledger is as it was, or it is what a batch, an update or a manifest makes of it. -/

/-- What is in memory stays, takes over a batch, counts, or takes over a
manifest. -/
inductive Action.Changes (s : Store) : Action → Ledger → Prop where
  | none {a : Action} : Changes s a s.ledger
  | commit (b : Batch) : Changes s (.commit b) (s.ledger.apply b)
  | update (name : String) (amount : Count) :
      Changes s (.update name amount) (s.ledger.increment name amount)
  | bootstrap {manifest : Except FileFault String} {seeds : List Seed} (genesis : BlockId)
      (listed : readManifest manifest = .ok seeds) :
      Changes s (.bootstrap manifest genesis) (s.ledger.seed seeds genesis)

theorem flush_changes (s : Store) (a : Action) :
    s.flush.2.persistent = s.persistent ∧ a.Changes s s.flush.2.ledger := by
  rw [flush_ledger]
  exact ⟨(flush_sameMode s).persistent, .none⟩

theorem commit_changes (s : Store) (b : Batch) :
    (s.commit b).2.persistent = s.persistent ∧
      (Action.commit b).Changes s (s.commit b).2.ledger := by
  rw [commit]
  split
  · exact ⟨rfl, .none⟩
  · rw [committed_ledger]
    exact ⟨(committed_sameMode _).persistent, .commit b⟩

theorem update_changes (s : Store) (name : String) (amount : Count) :
    (s.update name amount).2.persistent = s.persistent ∧
      (Action.update name amount).Changes s (s.update name amount).2.ledger := by
  rw [update]
  split
  · exact ⟨rfl, .none⟩
  · next l read =>
    have current : l = s.ledger := by
      rw [Store.read] at read
      split at read
      · cases read
      · exact (Except.ok.inj read).symm
    exact ⟨rfl, current ▸ .update name amount⟩

theorem bootstrap_changes (s : Store) (manifest : Except FileFault String) (genesis : BlockId) :
    (s.bootstrap manifest genesis).2.persistent = s.persistent ∧
      (Action.bootstrap manifest genesis).Changes s (s.bootstrap manifest genesis).2.ledger := by
  rw [bootstrap]
  split
  · exact ⟨rfl, .none⟩
  · next seeds listed =>
    have ledger := flush_ledger { s with ledger := s.ledger.seed seeds genesis }
    have persistent := (flush_sameMode { s with ledger := s.ledger.seed seeds genesis }).persistent
    split
    · exact ⟨rfl, .none⟩
    · split
      all_goals
        next eq =>
          rw [eq] at ledger persistent
          exact ⟨persistent, ledger ▸ .bootstrap genesis listed⟩

theorem close_changes (s : Store) :
    s.close.2.persistent = s.persistent ∧ Action.close.Changes s s.close.2.ledger := by
  have flushed := flush_changes s .close
  rw [close]
  split
  · exact ⟨rfl, .none⟩
  · split
    all_goals
      next eq =>
        rw [eq] at flushed
        exact flushed

theorem Action.run_changes (s : Store) (a : Action) :
    (a.run s).persistent = s.persistent ∧ a.Changes s (a.run s).ledger := by
  cases a with
  | commit b => exact commit_changes s b
  | update name amount => exact update_changes s name amount
  | bootstrap manifest genesis => exact bootstrap_changes s manifest genesis
  | flush => exact flush_changes s .flush
  | close => exact close_changes s
  | closeNow => exact ⟨rfl, .none⟩
  | setInterval commits => exact ⟨rfl, .none⟩
  | replace disk => exact ⟨rfl, .none⟩

/-! ## What every reachable store is

Words stay words: what is read from a file or comes in a batch is within limits, and every
action keeps that. -/

theorem inLimits_of_readManifest {manifest : Except FileFault String} {seeds : List Seed}
    (h : readManifest manifest = .ok seeds) : ∀ s ∈ seeds, s.holding.InLimits := by
  intro s mem
  cases manifest with
  | error fault => cases h
  | ok text =>
    simp only [readManifest] at h
    split at h
    · next read =>
      cases h
      obtain ⟨v, -, listed⟩ := Option.bind_eq_some_iff.mp read
      obtain ⟨_, eq⟩ := Json.exists_of_mem_toList? listed mem
      exact Seed.inLimits_of_ofJson? eq
    · cases h

/-- An opened store is persistent and has read nothing beyond the limits. -/
theorem openAt_inLimits {disk : Disk} {s : Store} (h : openAt disk = .ok s) :
    s.persistent = true ∧ s.ledger.InLimits := by
  rw [openAt] at h
  split at h
  · cases h
    exact ⟨rfl, Ledger.inLimits_empty⟩
  · cases h
  · split at h
    · next read =>
      cases h
      obtain ⟨v, -, eq⟩ := Option.bind_eq_some_iff.mp read
      exact ⟨rfl, Ledger.inLimits_of_ofJson? eq⟩
    · cases h

/-- What is put in within the limits of words stays within them. -/
theorem Action.run_inLimits {s : Store} {a : Action} (within : s.ledger.InLimits)
    (words : a.InLimits) : (a.run s).ledger.InLimits := by
  have changes := (a.run_changes s).2
  generalize (a.run s).ledger = l at changes
  cases changes with
  | none => exact within
  | commit b => exact within.apply words
  | update name amount => exact within.increment name amount
  | bootstrap genesis listed => exact within.seed (inLimits_of_readManifest listed) words

/-- A persistent store whose ledger keeps to the limits of words. -/
theorem Reachable.inLimits {s : Store} (reached : Reachable s) :
    s.persistent = true ∧ s.ledger.InLimits := by
  induction reached with
  | opened h => exact openAt_inLimits h
  | @run s a within _ ih => exact ⟨(a.run_changes s).1.trans ih.1, a.run_inLimits ih.2 within⟩

/-! ## Opening what was written

The text that a flush writes is read as the ledger that it was written from. -/

/-- A successful write leaves the text of the ledger. -/
theorem flush_text {s : Store} (persistent : s.persistent = true) (flushed : s.flush.1 = .ok ()) :
    s.flush.2.disk = ⟨.file s.ledger.toJson.pretty, true⟩ := by
  rcases flush_cases s with ⟨_, scratch⟩ | ⟨disk, eq, _, _, writable, entry⟩ | ⟨eq, _⟩
  · rw [persistent] at scratch
    cases scratch
  · rw [eq]
    show disk = _
    cases disk
    cases writable
    cases entry
    rfl
  · rw [eq] at flushed
    cases flushed

theorem openAt_text {l : Ledger} (within : l.InLimits) (writable : Bool) :
    openAt ⟨.file l.toJson.pretty, writable⟩ =
      .ok { ledger := l, persistent := true, disk := ⟨.file l.toJson.pretty, writable⟩ } := by
  rw [openAt]
  simp only [Ledger.parse?_pretty within]

/-- What was written opens as what was held, with nothing left to write, and
writing it again leaves the same text. The text is the one that any order of the
records gives once they are sorted, and the one of every store that shows the
same. -/
theorem Reachable.flush_reopens {s : Store} (reached : Reachable s)
    (flushed : s.flush.1 = .ok ()) :
    (∃ t, openAt s.flush.2.disk = .ok t ∧ t.ledger = s.ledger ∧ t.closed = false ∧
      t.unflushed = 0 ∧ t.flush.1 = .ok () ∧ t.flush.2.disk = s.flush.2.disk) ∧
    (∀ records : List Record, records.Perm s.ledger.records →
      s.flush.2.disk.text? = some (Ledger.document s.ledger.blockIds
        (records.mergeSort Ledger.inOrder) s.ledger.counters.entries).pretty) ∧
    ∀ s', Reachable s' → s'.flush.1 = .ok () → s'.ledger.Same s.ledger →
      s'.flush.2.disk.text? = s.flush.2.disk.text? := by
  obtain ⟨persistent, within⟩ := reached.inLimits
  have text := flush_text persistent flushed
  refine ⟨⟨{ ledger := s.ledger, persistent := true, disk := s.flush.2.disk }, ?_, rfl, rfl, rfl,
    ?_⟩, ?_, ?_⟩
  · rw [text]
    exact openAt_text within true
  · rw [text]
    exact ⟨rfl, rfl⟩
  · intro records perm
    rw [text, Ledger.mergeSort_records perm, ← Ledger.toJson_eq]
    rfl
  · intro s' reached' flushed' same
    rw [flush_text reached'.inLimits.1 flushed', text, same.eq]

/-- A block with awkward texts, a sub-account without a name and a value with a
place to spare. -/
theorem flush_reopens_awkward :
    let id : BlockId := ⟨-7, "\"7\"\n\t"⟩
    let owner : Holding := ⟨⟨"a/ä\\\x01", some ""⟩, ⟨"€", 4294967295⟩⟩
    let value : Decimal := ⟨-10, 2, by decide, by decide⟩
    let s := (Action.commit ⟨id, [⟨owner, id, value, value, true⟩], [("𝔽", 10)]⟩).run
      { persistent := true }
    Reachable s ∧ s.flush.1 = .ok () ∧
      ∃ t, openAt s.flush.2.disk = .ok t ∧ t.ledger = s.ledger ∧ t.closed = false ∧
        t.unflushed = 0 ∧ t.flush.1 = .ok () ∧ t.flush.2.disk = s.flush.2.disk := by
  intro id owner value s
  have opened : openAt {} = .ok { persistent := true } := rfl
  have reached : Reachable s := .run _ ⟨by decide, by decide⟩ (.opened opened)
  exact ⟨reached, rfl, (reached.flush_reopens rfl).1⟩

end Store

end BalanceAudit
