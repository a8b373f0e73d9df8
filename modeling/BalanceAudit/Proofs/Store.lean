import BalanceAudit.Store
import BalanceAudit.Proofs.Ledger

/-!
# What writing does to a store

Only a file that cannot be written makes an open store refuse a block that
extends its head, and even then the block stays.

- `Store.canWrite`: whether a write would succeed.
- `Store.SameMode`: stores that differ at most in what they hold.
- `Store.openAt_cases`: what is true of every store that was just opened.
- `Store.commit_cases`: a commit is refused or taken over;
  `Store.commit_ledger`, `Store.commit_result`: what it leaves in memory and what it
  answers.
- `Store.close_text`: the file after closing.
-/

namespace BalanceAudit

namespace Store

/-- Whether a write would succeed; a store that is never written counts. -/
def canWrite (s : Store) : Bool :=
  !s.persistent || (s.disk.writable && s.disk.entry != .directory)

/-- The stores differ at most in what they hold and in the text of the file. -/
structure SameMode (s t : Store) : Prop where
  closed : t.closed = s.closed
  persistent : t.persistent = s.persistent
  canWrite : t.canWrite = s.canWrite

theorem SameMode.refl (s : Store) : SameMode s s := ⟨rfl, rfl, rfl⟩

theorem SameMode.trans {s t u : Store} (h : SameMode s t) (h' : SameMode t u) : SameMode s u :=
  ⟨h'.closed.trans h.closed, h'.persistent.trans h.persistent, h'.canWrite.trans h.canWrite⟩

/-- The mode does not depend on the contents. -/
theorem SameMode.setLedger (s : Store) (l : Ledger) : SameMode s { s with ledger := l } :=
  ⟨rfl, rfl, rfl⟩

/-! ## Opening -/

/-- What was opened lacks nothing, and can be written if the disk can. -/
theorem openAt_cases {disk : Disk} {s : Store} (opened : openAt disk = .ok s) :
    s.closed = false ∧ s.persistent = true ∧ s.unflushed = 0 ∧ s.disk = disk ∧
      disk.entry ≠ .directory := by
  unfold openAt at opened
  split at opened
  · next absent =>
    cases opened
    exact ⟨rfl, rfl, rfl, rfl, by rw [absent]; exact nofun⟩
  · cases opened
  · next file =>
    split at opened
    · cases opened
      exact ⟨rfl, rfl, rfl, rfl, by rw [file]; exact nofun⟩
    · cases opened

/-! ## Writing the file

A flush either writes all of the ledger or reports a fault. It changes no ledger. -/

/-- A scratch store is not written. Another one is written as it stands, unless that cannot
be done, and then it stays as it was. -/
theorem flush_cases (s : Store) :
    s.flush = (.ok (), s) ∧ s.persistent = false ∨
    (∃ disk, s.flush = (.ok (), { s with disk, unflushed := 0 }) ∧ s.persistent = true ∧
      s.canWrite = true ∧ disk.writable = true ∧
      disk.entry = .file s.ledger.toJson.pretty) ∨
    (s.flush = (.error (.io .isDirectory), s) ∧ s.canWrite = false) := by
  rw [flush, canWrite]
  by_cases persistent : s.persistent = true
  · rw [if_pos persistent, Disk.write]
    by_cases works : s.disk.writable = true ∧ s.disk.entry ≠ .directory
    · rw [if_pos works]
      exact .inr (.inl ⟨_, rfl, persistent, by simp [works], works.1, rfl⟩)
    · rw [if_neg works]
      refine .inr (.inr ⟨rfl, ?_⟩)
      rw [persistent, Bool.not_true, Bool.false_or, Bool.and_eq_false_iff]
      by_cases writable : s.disk.writable = true
      · right
        -- The file cannot be written because a directory is in its place.
        have entry : s.disk.entry = .directory := by
          by_contra other
          exact works ⟨writable, other⟩
        rw [entry]
        rfl
      · exact .inl (Bool.eq_false_iff.mpr writable)
  · rw [if_neg persistent]
    exact .inl ⟨rfl, Bool.eq_false_iff.mpr persistent⟩

/-- Writing leaves the contents. -/
theorem flush_ledger (s : Store) : s.flush.2.ledger = s.ledger := by
  rcases flush_cases s with ⟨eq, _⟩ | ⟨disk, eq, _⟩ | ⟨eq, _⟩ <;> rw [eq]

theorem flush_interval (s : Store) : s.flush.2.interval = s.interval := by
  rcases flush_cases s with ⟨eq, _⟩ | ⟨disk, eq, _⟩ | ⟨eq, _⟩ <;> rw [eq]

/-- Nothing is due behind a store that was written. -/
theorem flush_unflushed (s : Store) :
    s.flush.2.unflushed =
      if s.persistent = true ∧ s.canWrite = true then 0 else s.unflushed := by
  rcases flush_cases s with ⟨eq, scratch⟩ | ⟨disk, eq, persistent, works, _⟩ | ⟨eq, broken⟩
  · rw [eq, if_neg (by simp [scratch])]
  · rw [eq, if_pos ⟨persistent, works⟩]
  · rw [eq, if_neg (by simp [broken])]

/-- Writing leaves the mode, and whether it can be done again. -/
theorem flush_sameMode (s : Store) : SameMode s s.flush.2 := by
  rcases flush_cases s with ⟨eq, _⟩ | ⟨disk, eq, persistent, works, writable, entry⟩ | ⟨eq, _⟩
  · rw [eq]
    exact .refl s
  · rw [eq]
    refine ⟨rfl, rfl, ?_⟩
    rw [works, canWrite]
    simp [writable, entry]
  · rw [eq]
    exact .refl s

/-- It fails only where it cannot be done. -/
theorem flush_result (s : Store) :
    s.flush.1 = if s.canWrite then .ok () else .error (.io .isDirectory) := by
  rcases flush_cases s with ⟨eq, persistent⟩ | ⟨disk, eq, _, works, _⟩ | ⟨eq, broken⟩
  · rw [eq, canWrite, persistent]
    rfl
  · rw [eq, works]
    rfl
  · rw [eq, broken]
    rfl

/-! ## Commits

A commit is refused by a closed store or by a head that the block does not extend, and
overflows behind a head without a next index. Else the batch is applied, and what may fail
after that is the flush alone. -/

/-- Counting a commit leaves the contents. -/
theorem committed_ledger (s : Store) : s.committed.2.ledger = s.ledger := by
  rw [committed]
  split
  · exact flush_ledger _
  · rfl

/-- The file stays as it is, or becomes the text of what is held. -/
theorem committed_disk (s : Store) :
    s.committed.2.disk = s.disk ∨ s.committed.2.disk.text? = some s.ledger.toJson.pretty := by
  rw [committed]
  split
  · rcases flush_cases { s with unflushed := s.unflushed + 1 } with
      ⟨eq, _⟩ | ⟨disk, eq, _, _, _, entry⟩ | ⟨eq, _⟩
    · rw [eq]
      exact .inl rfl
    · rw [eq]
      right
      show disk.text? = _
      rw [Disk.text?, entry]
    · rw [eq]
      exact .inl rfl
  · exact .inl rfl

/-- It leaves the mode as well, written or not. -/
theorem committed_sameMode (s : Store) : SameMode s s.committed.2 := by
  rw [committed]
  split
  · exact ⟨(flush_sameMode _).closed, (flush_sameMode _).persistent, (flush_sameMode _).canWrite⟩
  · exact ⟨rfl, rfl, rfl⟩

/-- It fails only where a write is due that cannot be done. -/
theorem committed_result (s : Store) :
    s.committed.1 = .ok () ∨ s.committed.1 = .error (.io .isDirectory) ∧ s.canWrite = false := by
  rw [committed]
  split
  · rw [flush_result]
    by_cases works : s.canWrite = true
    · exact .inl (if_pos works)
    · exact .inr ⟨if_neg works, Bool.eq_false_iff.mpr works⟩
  · exact .inl rfl

/-- An open store is read. -/
theorem read_of_open {s : Store} (isOpen : s.closed = false) : s.read = .ok s.ledger := by
  rw [read, isOpen]
  rfl

/-- A block may follow exactly if its index is the one after that of the head. -/
theorem extends?_eq_ok_iff {l : Ledger} {b : BlockId} :
    extends? l b = .ok () ↔
      ∀ head, l.head? = some head → Index.next? head.index = some b.index := by
  unfold extends?
  cases l.head? with
  | none => simp
  | some head =>
    cases next : Index.next? head.index with
    | none => simp [next]
    | some i =>
      simp only [Option.some.injEq, forall_eq', next]
      split
      · next same => simp [same]
      · next other => simp [Ne.symm other]

/-- A block may not follow a head of the greatest index, or it is out of order. -/
theorem extends?_error {l : Ledger} {b : BlockId} {stop : Stop StoreError}
    (refused : extends? l b = .error stop) : ∃ head, l.head? = some head ∧
      (Index.next? head.index = none ∧ stop = .overflow .next ∨
        stop = .failed (.outOfOrder head b)) := by
  unfold extends? at refused
  cases found : l.head? with
  | none => simp [found] at refused
  | some head =>
    refine ⟨head, rfl, ?_⟩
    cases next : Index.next? head.index with
    | none =>
      simp only [found, next, Except.error.injEq] at refused
      exact .inl ⟨rfl, refused.symm⟩
    | some i =>
      simp only [found, next] at refused
      split at refused
      · cases refused
      · exact .inr (Except.error.inj refused).symm

/-- What a store answers to a block that it takes over is what it answers to the commit of
what it then holds. -/
theorem commit_eq_of_extends {s : Store} {b : Batch} (isOpen : s.closed = false)
    (extends_ : extends? s.ledger b.block = .ok ()) :
    s.commit b =
      ({ s with ledger := s.ledger.apply b }.committed.1.mapError .failed,
        { s with ledger := s.ledger.apply b }.committed.2) := by
  have goes : (s.read.mapError .failed >>= (extends? · b.block)) = .ok () := by
    rw [read_of_open isOpen]
    exact extends_
  rw [commit, goes]

/-- A store refuses a block for the reason for which it may not follow. -/
theorem commit_of_refused {s : Store} {b : Batch} {stop : Stop StoreError}
    (isOpen : s.closed = false) (refused : extends? s.ledger b.block = .error stop) :
    s.commit b = (.error stop, s) := by
  have stops : (s.read.mapError .failed >>= (extends? · b.block)) = .error stop := by
    rw [read_of_open isOpen]
    exact refused
  rw [commit, stops]

/-- A closed store refuses every block. -/
theorem commit_of_closed {s : Store} {b : Batch} (closed : s.closed = true) :
    s.commit b = (.error (.failed .closed), s) := by
  have refused : (s.read.mapError .failed >>= (extends? · b.block)) =
      .error (.failed .closed) := by
    rw [read, if_pos closed]
    rfl
  rw [commit, refused]

/-- Only an open store takes over a batch, and only one that extends its head. -/
theorem commit_cases (s : Store) (b : Batch) :
    (s.commit b).2 = s ∧ (s.commit b).1 ≠ .ok () ∨
    s.closed = false ∧
      (∀ head, s.ledger.head? = some head → Index.next? head.index = some b.block.index) ∧
      s.commit b =
        ({ s with ledger := s.ledger.apply b }.committed.1.mapError .failed,
          { s with ledger := s.ledger.apply b }.committed.2) := by
  by_cases closed : s.closed = true
  · rw [commit_of_closed closed]
    exact .inl ⟨rfl, nofun⟩
  · have isOpen := Bool.eq_false_iff.mpr closed
    -- An open store asks whether the block extends its head.
    cases order : extends? s.ledger b.block with
    | error stop =>
      rw [commit_of_refused isOpen order]
      exact .inl ⟨rfl, nofun⟩
    | ok =>
      exact .inr ⟨isOpen, extends?_eq_ok_iff.mp order, commit_eq_of_extends isOpen order⟩

/-- A store always answers. -/
theorem commit_ne_idle (s : Store) (b : Batch) : (s.commit b).1 ≠ .error .idle := by
  by_cases closed : s.closed = true
  · rw [commit_of_closed closed]
    nofun
  · have isOpen := Bool.eq_false_iff.mpr closed
    cases order : extends? s.ledger b.block with
    | error stop =>
      rw [commit_of_refused isOpen order]
      obtain ⟨_, _, ⟨_, rfl⟩ | rfl⟩ := extends?_error order <;> nofun
    | ok =>
      rw [commit_eq_of_extends isOpen order]
      cases { s with ledger := s.ledger.apply b }.committed.1 <;> nofun

/-- A commit that overflows is one behind a head without a next index, and leaves the store
as it is. -/
theorem commit_overflow {s : Store} {b : Batch} {what : Overflow}
    (overflows : (s.commit b).1 = .error (.overflow what)) :
    what = .next ∧ (s.commit b).2 = s ∧ s.closed = false ∧
      ∃ head, s.ledger.head? = some head ∧ Index.next? head.index = none := by
  by_cases closed : s.closed = true
  · rw [commit_of_closed closed] at overflows
    cases overflows
  · have isOpen := Bool.eq_false_iff.mpr closed
    cases order : extends? s.ledger b.block with
    | error stop =>
      rw [commit_of_refused isOpen order] at overflows ⊢
      obtain ⟨head, found, ⟨full, rfl⟩ | rfl⟩ := extends?_error order
      · cases overflows
        exact ⟨rfl, rfl, isOpen, head, found, full⟩
      · cases overflows
    | ok =>
      rw [commit_eq_of_extends isOpen order] at overflows
      cases result : { s with ledger := s.ledger.apply b }.committed.1 with
      | ok => rw [result] at overflows; cases overflows
      | error e => rw [result] at overflows; cases overflows

/-- A block that does not have the index after that of the head changes nothing. -/
theorem commit_of_astray {s : Store} {b : Batch} {head : BlockId}
    (found : s.ledger.head? = some head) (astray : Index.next? head.index ≠ some b.block.index) :
    ∃ stop, s.commit b = (.error stop, s) ∧
      (s.closed = true ∧ stop = .failed .closed ∨
        s.closed = false ∧ Index.next? head.index = none ∧ stop = .overflow .next ∨
        s.closed = false ∧ stop = .failed (.outOfOrder head b.block)) := by
  by_cases closed : s.closed = true
  · exact ⟨_, commit_of_closed closed, .inl ⟨closed, rfl⟩⟩
  · have isOpen := Bool.eq_false_iff.mpr closed
    cases order : extends? s.ledger b.block with
    | ok => exact absurd (extends?_eq_ok_iff.mp order head found) astray
    | error stop =>
      obtain ⟨head', found', cause⟩ := extends?_error order
      rw [found] at found'
      cases found'
      exact ⟨stop, commit_of_refused isOpen order, .inr (cause.imp (⟨isOpen, ·⟩) (⟨isOpen, ·⟩))⟩

variable {s : Store} {b : Batch}

/-- An open store takes over a block that extends its head. -/
theorem commit_eq (isOpen : s.closed = false)
    (next : ∀ head, s.ledger.head? = some head → Index.next? head.index = some b.block.index) :
    s.commit b =
      ({ s with ledger := s.ledger.apply b }.committed.1.mapError .failed,
        { s with ledger := s.ledger.apply b }.committed.2) :=
  commit_eq_of_extends isOpen (extends?_eq_ok_iff.mpr next)

/-- An accepted block is applied. -/
theorem commit_ledger (isOpen : s.closed = false)
    (next : ∀ head, s.ledger.head? = some head → Index.next? head.index = some b.block.index) :
    (s.commit b).2.ledger = s.ledger.apply b := by
  rw [commit_eq isOpen next, committed_ledger]

/-- The file is as it was, or has the new contents. -/
theorem commit_disk (isOpen : s.closed = false)
    (next : ∀ head, s.ledger.head? = some head → Index.next? head.index = some b.block.index) :
    (s.commit b).2.disk = s.disk ∨
      (s.commit b).2.disk.text? = some (s.ledger.apply b).toJson.pretty := by
  rw [commit_eq isOpen next]
  exact committed_disk _

/-- A commit leaves the mode. -/
theorem commit_sameMode (isOpen : s.closed = false)
    (next : ∀ head, s.ledger.head? = some head → Index.next? head.index = some b.block.index) :
    SameMode s (s.commit b).2 := by
  rw [commit_eq isOpen next]
  exact (SameMode.setLedger s _).trans (committed_sameMode _)

/-- Only a file that cannot be written makes it complain. -/
theorem commit_result (isOpen : s.closed = false)
    (next : ∀ head, s.ledger.head? = some head → Index.next? head.index = some b.block.index) :
    (s.commit b).1 = .ok () ∨
      (s.commit b).1 = .error (.failed (.io .isDirectory)) ∧ s.canWrite = false := by
  rw [commit_eq isOpen next]
  rcases committed_result { s with ledger := s.ledger.apply b } with ok | ⟨broken, works⟩
  · rw [ok]
    exact .inl rfl
  · rw [broken]
    exact .inr ⟨rfl, works⟩

/-! ## Counting -/

/-- An open store counts, and answers with the new count. -/
theorem update_eq (isOpen : s.closed = false) (name : String) (amount : Count) :
    s.update name amount =
      (.ok ((s.ledger.increment name amount).counted name),
        { s with ledger := s.ledger.increment name amount }) := by
  rw [update, read_of_open isOpen]

/-! ## Closing

Closing flushes once; a closed store is closed at once. -/

/-- Closing fails only where the store cannot be written. -/
theorem close_result (isOpen : s.closed = false) :
    s.close.1 = if s.canWrite then .ok () else .error (.io .isDirectory) := by
  have result := flush_result s
  rw [close, isOpen]
  rcases eq : s.flush with ⟨_ | _, t⟩
  · rw [eq] at result
    exact result
  · rw [eq] at result
    exact result

/-- After closing a persistent store its file is the text of what it holds. -/
theorem close_text (isOpen : s.closed = false) (persistent : s.persistent = true)
    (works : s.canWrite = true) :
    s.close.2.disk.text? = some s.ledger.toJson.pretty := by
  rw [close, isOpen]
  rcases flush_cases s with ⟨_, scratch⟩ | ⟨disk, eq, _, _, _, entry⟩ | ⟨_, broken⟩
  · rw [persistent] at scratch
    cases scratch
  · rw [eq]
    show disk.text? = _
    rw [Disk.text?, entry]
  · rw [works] at broken
    cases broken

end Store

end BalanceAudit
