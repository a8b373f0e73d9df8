import BalanceAudit.Proofs.Store.Crash

/-!
# Commits that cannot be written

A commit is refused and changes nothing, or it is taken over as a whole. If the file
was due and could not be written, the commit says so and stays in memory; the file
stays due until the disk works again.

- `Ledger.TakesOver`: one ledger is another one and a whole batch.
- `Ledger.apply_takesOver`: that is what `Ledger.apply` does.
- `Store.flush_eq_ite`, `Store.committed_eq_ite`: a write, by what the disk allows.
- `Store.Overdue`: a store whose file is due; `Store.Overdue.run`, `Store.Overdue.runAll`:
  on a disk that fails its owner can only add to what is in memory.
- `Store.Recovers`: once the disk works, the next commit or closing the store writes all.
- `Store.commit_atomic`: **a commit is all or nothing, also when the write fails**.
-/

namespace BalanceAudit

/-! ## Whole batches

What a batch adds is told key by key: the block, the balances of its changes, and the
counters by their totals. -/

namespace Table

variable {κ ν : Type} [Ord κ] [Std.TransOrd κ] [Std.LawfulEqOrd κ] [DecidableEq κ]

/-- After several writes a key shows the last one under it. -/
theorem find?_foldl_insert (l : List (κ × ν)) (k : κ) :
    ∀ t : Table κ ν, (l.foldl (fun t e => t.insert e.1 e.2) t).find? k =
      ((l.filter (·.1 = k)).getLast?.map (·.2)).or (t.find? k) := by
  induction l with
  | nil => simp
  | cons e rest ih =>
    intro t
    rw [List.foldl_cons, ih, find?_insert]
    by_cases same : e.1 = k
    · -- The write shows unless a later one of the list does.
      cases later : (rest.filter (·.1 = k)).getLast? <;>
        simp [same, later, List.getLast?_cons]
    · simp [same, Ne.symm same]

end Table

namespace Batch

/-- The balance that the last change of a holding leaves. -/
def balance? (b : Batch) (h : Holding) : Option Balance :=
  (b.changes.filter (·.holding = h)).getLast?.map fun c => ⟨c.value, c.block⟩

/-- All that is added to a counter. -/
def total (b : Batch) (name : String) : Nat :=
  ((b.counts.filter (·.1 = name)).map (·.2.value)).sum

end Batch

namespace Ledger

variable {l : Ledger} {b : Batch}

/-- Every stored index is below the greatest one. -/
def Below (l : Ledger) : Prop := ∀ head, l.head? = some head → head.index < Index.greatest

/-- No block of `l` is missing in `l'`, or is another one there. -/
def Retains (l l' : Ledger) : Prop :=
  ∀ i hash, l.blocks.find? i = some hash → l'.blocks.find? i = some hash

/-- The ledger `l'` is `l` and a whole batch. Counters stay at the greatest count. -/
structure TakesOver (l : Ledger) (b : Batch) (l' : Ledger) : Prop where
  blocks : ∀ i, l'.blocks.find? i =
    if i = b.block.index then some b.block.hash else l.blocks.find? i
  head : l'.head? = some b.block
  balances : ∀ h, l'.balances.find? h = (b.balance? h).or (l.balances.find? h)
  counters : ∀ name, (l'.counted name).value =
    min ((l.counted name).value + b.total name) Count.greatest

theorem Retains.refl (l : Ledger) : l.Retains l := fun _ _ found => found

theorem Retains.trans {l' l'' : Ledger} (first : l.Retains l') (second : l'.Retains l'') :
    l.Retains l'' := fun i hash found => second i hash (first i hash found)

theorem value_counted_foldl_increment (counts : List (String × Count)) (name : String) :
    ∀ l : Ledger, ((counts.foldl (fun l c => l.increment c.1 c.2) l).counted name).value =
      min ((l.counted name).value + ((counts.filter (·.1 = name)).map (·.2.value)).sum)
        Count.greatest := by
  induction counts with
  | nil =>
    intro l
    have := (l.counted name).value_lt
    simp [Count.greatest]
    omega
  | cons c rest ih =>
    intro l
    rw [List.foldl_cons, ih, counted_increment]
    by_cases same : c.1 = name
    · simp [same, Count.value_add]
      omega
    · simp [same, Ne.symm same]

theorem find?_balances_apply_eq (l : Ledger) (b : Batch) (h : Holding) :
    (l.apply b).balances.find? h = (b.balance? h).or (l.balances.find? h) := by
  rw [balances_apply, Table.find?_foldl_insert, List.filter_map, List.getLast?_map,
    Option.map_map]
  rfl

/-- All that a batch counts is added. -/
theorem value_counted_apply (l : Ledger) (b : Batch) (name : String) :
    ((l.apply b).counted name).value =
      min ((l.counted name).value + b.total name) Count.greatest := by
  have counted := value_counted_foldl_increment b.counts name
    (b.changes.foldl (fun l c => l.put c.holding ⟨c.value, c.block⟩) l)
  rwa [counted_foldl_put] at counted

/-- **A batch is taken over as a whole**, if its block comes behind the head. -/
theorem apply_takesOver
    (behind : ∀ head, l.head? = some head → head.index < b.block.index) :
    l.TakesOver b (l.apply b) where
  blocks i := by rw [blocks_apply, Table.find?_insert]
  head := head?_apply behind
  balances h := find?_balances_apply_eq l b h
  counters := value_counted_apply l b

/-- A block behind the head takes no other one's place. -/
theorem retains_apply (behind : ∀ head, l.head? = some head → head.index < b.block.index) :
    l.Retains (l.apply b) := by
  intro i hash found
  have mem := Table.find?_eq_some_iff.mp found
  have lt : i < b.block.index := lt_of_head?_lt behind _ mem
  rw [(apply_takesOver behind).blocks, if_neg (by omega), found]

/-- The index of the head is a word. -/
theorem InLimits.head (within : l.InLimits) {head : BlockId} (found : l.head? = some head) :
    Index.InRange head.index :=
  within.blocks (head.index, head.hash) (Table.find?_eq_some_iff.mp (find?_of_head? found))

/-- Below the greatest index there is a next one. -/
theorem next?_head (within : l.InLimits) (below : l.Below) {head : BlockId}
    (found : l.head? = some head) : Index.next? head.index = some (head.index + 1) :=
  Index.next?_of_lt (within.head found) (below head found)

end Ledger

/-! ## Writes

Whether a commit writes, and whether that works, decide what it answers; the ledger is the
same in each of the cases. -/

/-- A file can be written. -/
def Disk.Works (d : Disk) : Prop := d.writable = true ∧ d.entry ≠ .directory

instance (d : Disk) : Decidable d.Works := inferInstanceAs (Decidable (_ ∧ _))

/-- The directory opens as a ledger. -/
def Disk.Opens (d : Disk) (l : Ledger) : Prop := ∃ s, Store.openAt d = .ok s ∧ s.ledger = l

namespace Store

variable {s : Store} {b : Batch}

/-- The text of a ledger opens as that ledger. -/
theorem opens_text {l : Ledger} (within : l.InLimits) :
    Disk.Opens ⟨.file l.toJson.pretty, true⟩ l := ⟨_, openAt_text within true, rfl⟩

/-- Writing, by whether there is anything to write and whether it can be written. -/
theorem flush_eq_ite (s : Store) :
    s.flush =
      if s.persistent = true then
        if s.disk.Works then
          (.ok (), { s with disk := ⟨.file s.ledger.toJson.pretty, true⟩, unflushed := 0 })
        else (.error (.io .isDirectory), s)
      else (.ok (), s) := by
  rw [flush]
  by_cases persistent : s.persistent = true
  · rw [if_pos persistent, if_pos persistent, Disk.write]
    by_cases works : s.disk.Works
    · rw [if_pos works, if_pos (show _ ∧ _ from works), works.1]
    · rw [if_neg works, if_neg (show ¬(_ ∧ _) from works)]
  · rw [if_neg persistent, if_neg persistent]

/-- One more commit makes it due to write the file. -/
def Due (s : Store) : Prop := s.persistent = true ∧ s.interval ≤ s.unflushed + 1

instance (s : Store) : Decidable s.Due := inferInstanceAs (Decidable (_ ∧ _))

/-- A commit writes the file if that is due. -/
theorem committed_eq_ite (s : Store) :
    s.committed =
      if s.Due then
        if s.disk.Works then
          (.ok (), { s with disk := ⟨.file s.ledger.toJson.pretty, true⟩, unflushed := 0 })
        else (.error (.io .isDirectory), { s with unflushed := s.unflushed + 1 })
      else (.ok (), { s with unflushed := s.unflushed + 1 }) := by
  rw [committed, flush_eq_ite]
  by_cases due : s.interval ≤ s.unflushed + 1 <;>
    by_cases persistent : s.persistent = true <;> simp [Due, due, persistent]

/-- A block that an open store takes over is written if that is due. -/
theorem commit_eq_ite (isOpen : s.closed = false)
    (extends_ : extends? s.ledger b.block = .ok ()) :
    s.commit b =
      if s.Due then
        if s.disk.Works then
          (.ok (), { s with
            ledger := s.ledger.apply b
            disk := ⟨.file (s.ledger.apply b).toJson.pretty, true⟩
            unflushed := 0 })
        else (.error (.failed (.io .isDirectory)),
          { s with ledger := s.ledger.apply b, unflushed := s.unflushed + 1 })
      else (.ok (), { s with ledger := s.ledger.apply b, unflushed := s.unflushed + 1 }) := by
  have same : Due { s with ledger := s.ledger.apply b } ↔ s.Due := Iff.rfl
  rw [commit_eq_of_extends isOpen extends_, committed_eq_ite]
  by_cases due : s.Due <;> by_cases works : s.disk.Works <;> simp [same, due, works] <;> rfl

/-- Of a head below the greatest index, a block extends it exactly by the next index. -/
theorem extends?_eq_ite {l : Ledger} {id head : BlockId} (within : l.InLimits) (below : l.Below)
    (found : l.head? = some head) :
    extends? l id =
      if id.index = head.index + 1 then .ok () else .error (.failed (.outOfOrder head id)) := by
  rw [extends?, found]
  simp only [Ledger.next?_head within below found]

theorem extends?_of_follows {l : Ledger} {id : BlockId} (within : l.InLimits) (below : l.Below)
    (follows : ∀ head, l.head? = some head → id.index = head.index + 1) :
    extends? l id = .ok () :=
  extends?_eq_ok_iff.mpr fun head found => by
    rw [follows head found, Ledger.next?_head within below found]

/-- What extends a head comes right behind it. -/
theorem follows_of_extends {l : Ledger} {id head : BlockId} (extends_ : extends? l id = .ok ())
    (found : l.head? = some head) : id.index = head.index + 1 :=
  (Index.word?_eq_some_iff.mp (extends?_eq_ok_iff.mp extends_ head found)).2.symm

theorem behind_of_extends {l : Ledger} {id : BlockId} (extends_ : extends? l id = .ok ()) :
    ∀ head, l.head? = some head → head.index < id.index := by
  intro head found
  have := follows_of_extends extends_ found
  omega

/-! ## While the disk fails

By induction on the actions: what was due stays due, and the ledger grows by what the store
receives. -/

/-- What becomes of what is in memory. -/
def Action.received (l : Ledger) : Action → Ledger
  | commit b =>
    match extends? l b.block with
    | .ok () => l.apply b
    | .error _ => l
  | update name amount => l.increment name amount
  | _ => l

/-- A store that holds blocks, on a disk that fails, whose file is due. -/
structure Overdue (s : Store) : Prop where
  isOpen : s.closed = false
  persistent : s.persistent = true
  broken : ¬ s.disk.Works
  due : s.interval ≤ s.unflushed
  started : s.ledger.head?.isSome = true
  within : s.ledger.InLimits

namespace Overdue

theorem flush_eq (overdue : Overdue s) : s.flush = (.error (.io .isDirectory), s) := by
  rw [flush_eq_ite, if_pos overdue.persistent, if_neg overdue.broken]

/-- No block is left to start with, so that no manifest is taken over. -/
theorem bootstrap_eq (overdue : Overdue s) (manifest : Except FileFault String)
    (genesis : BlockId) : (s.bootstrap manifest genesis).2 = s := by
  obtain ⟨head, found⟩ := Option.isSome_iff_exists.mp overdue.started
  have refused : (s.read >>= unstarted) = .error (.alreadySyncing head) := by
    rw [read_of_open overdue.isOpen]
    show unstarted s.ledger = _
    rw [unstarted, found]
  rw [bootstrap]
  split
  · rfl
  · rw [refused]

theorem commit_eq (overdue : Overdue s) (extends_ : extends? s.ledger b.block = .ok ()) :
    s.commit b = (.error (.failed (.io .isDirectory)),
      { s with ledger := s.ledger.apply b, unflushed := s.unflushed + 1 }) := by
  have due : s.interval ≤ s.unflushed + 1 := overdue.due.trans (Nat.le_succ _)
  rw [commit_eq_ite overdue.isOpen extends_, if_pos ⟨overdue.persistent, due⟩,
    if_neg overdue.broken]

theorem head?_apply_isSome (l : Ledger) (b : Batch) : (l.apply b).head?.isSome = true := by
  obtain ⟨head, found⟩ := Ledger.exists_head? ((l.contains_blocks_apply b _).mpr (.inl rfl))
  rw [found]
  rfl

/-- **One action of the owner** only adds to what is in memory. -/
theorem run {a : Action} (overdue : Overdue s) (owner : a.OfOwner) (words : a.InLimits) :
    Overdue (a.run s) ∧ (a.run s).ledger = a.received s.ledger ∧ (a.run s).disk = s.disk := by
  obtain ⟨isOpen, persistent, broken, due, started, within⟩ := overdue
  have overdue : Overdue s := ⟨isOpen, persistent, broken, due, started, within⟩
  cases a with
  | commit b =>
    -- Accepted commits grow what is due; the write behind them fails as every one before.
    cases order : extends? s.ledger b.block with
    | error e =>
      have same : (Action.commit b).run s = s := congrArg Prod.snd (commit_of_refused isOpen order)
      rw [same, Action.received, order]
      exact ⟨overdue, rfl, rfl⟩
    | ok =>
      have run : (Action.commit b).run s = _ := congrArg Prod.snd (overdue.commit_eq order)
      rw [run, Action.received, order]
      refine ⟨⟨isOpen, persistent, broken, ?_, ?_, within.apply words⟩, rfl, rfl⟩
      · show s.interval ≤ s.unflushed + 1
        omega
      · exact head?_apply_isSome s.ledger b
  | update name amount =>
    have run : (Action.update name amount).run s = _ :=
      congrArg Prod.snd (update_eq isOpen name amount)
    rw [run]
    exact ⟨⟨isOpen, persistent, broken, due, started, within.increment name amount⟩, rfl, rfl⟩
  | bootstrap manifest genesis =>
    have same : (Action.bootstrap manifest genesis).run s = s :=
      overdue.bootstrap_eq manifest genesis
    rw [same]
    exact ⟨overdue, rfl, rfl⟩
  | close =>
    have same : Action.close.run s = s := by
      rw [Action.run, close, isOpen, overdue.flush_eq]
      rfl
    rw [same]
    exact ⟨overdue, rfl, rfl⟩
  | _ => exact owner.elim

/-- Everything the owner does while the disk fails. The induction is on the actions, the
last one first. -/
theorem runAll (overdue : Overdue s) {as : List Action}
    (owner : ∀ a ∈ as, a.OfOwner ∧ a.InLimits) :
    Overdue (s.runAll as) ∧ (s.runAll as).ledger = as.foldl Action.received s.ledger ∧
      (s.runAll as).disk = s.disk := by
  induction as using List.reverseRecOn with
  | nil => exact ⟨overdue, rfl, rfl⟩
  | append_singleton as a ih =>
    obtain ⟨before, ledger, disk⟩ := ih fun b mem => owner b (List.mem_append_left _ mem)
    obtain ⟨ofOwner, words⟩ := owner a (by simp)
    obtain ⟨after, ledger', disk'⟩ := before.run ofOwner words
    rw [runAll_concat]
    refine ⟨after, ?_, disk'.trans disk⟩
    rw [ledger', ledger, List.foldl_append]
    rfl

end Overdue

/-- One action after another loses no block of an overdue store. -/
theorem Overdue.retains (overdue : Overdue s) {as : List Action}
    (owner : ∀ a ∈ as, a.OfOwner ∧ a.InLimits) : s.ledger.Retains (s.runAll as).ledger := by
  induction as using List.reverseRecOn with
  | nil => exact .refl _
  | append_singleton as a ih =>
    have earlier : ∀ a ∈ as, a.OfOwner ∧ a.InLimits :=
      fun b mem => owner b (List.mem_append_left _ mem)
    obtain ⟨ofOwner, words⟩ := owner a (by simp)
    have before := (overdue.runAll earlier).1
    refine (ih earlier).trans ?_
    rw [runAll_concat, (before.run ofOwner words).2.1]
    cases a with
    | commit b =>
      rw [Action.received]
      split
      · next extends_ => exact Ledger.retains_apply (behind_of_extends extends_)
      · exact .refl _
    | update name amount => exact .refl _
    | _ => exact .refl _

/-! ## Once the disk works again

On a disk that works the next write that is due saves all that was received in between. -/

/-- As soon as the store stands on a disk that works, the next commit that is accepted
and closing the store write all that is in memory. -/
structure Recovers (s : Store) : Prop where
  commit : ∀ disk b, disk.Works → b.InLimits → extends? s.ledger b.block = .ok () →
    ∃ t, ({ s with disk } : Store).commit b = (.ok (), t) ∧ t.disk.Opens (s.ledger.apply b) ∧
      s.ledger.TakesOver b (s.ledger.apply b) ∧ s.ledger.Retains (s.ledger.apply b)
  close : ∀ disk, disk.Works →
    ∃ t, ({ s with disk } : Store).close = (.ok (), t) ∧ t.disk.Opens s.ledger

theorem Overdue.recovers (overdue : Overdue s) : s.Recovers where
  commit disk b works words extends_ := by
    have due : s.interval ≤ s.unflushed + 1 := overdue.due.trans (Nat.le_succ _)
    refine ⟨{ s with
      ledger := s.ledger.apply b, disk := ⟨.file (s.ledger.apply b).toJson.pretty, true⟩,
      unflushed := 0 }, ?_, opens_text (overdue.within.apply words), ?_, ?_⟩
    · rw [commit_eq_ite (s := { s with disk }) overdue.isOpen extends_,
        if_pos ⟨overdue.persistent, due⟩, if_pos works]
    · exact Ledger.apply_takesOver (behind_of_extends extends_)
    · exact Ledger.retains_apply (behind_of_extends extends_)
  close disk works := by
    refine ⟨{ s with
      disk := ⟨.file s.ledger.toJson.pretty, true⟩, unflushed := 0, closed := true }, ?_,
      opens_text overdue.within⟩
    rw [Store.close, if_neg (by simp [overdue.isOpen]), flush_eq_ite, if_pos overdue.persistent,
      if_pos works]

/-! ## The theorem -/

/-- What a commit that is accepted comes to. -/
structure Accepts (s : Store) (b : Batch) : Prop where
  /-- The batch is taken over as a whole, whatever becomes of the file. -/
  ledger : s.ledger.TakesOver b (s.commit b).2.ledger
  retains : s.ledger.Retains (s.commit b).2.ledger
  /-- Only a write that is due and fails makes it complain. -/
  result : (s.commit b).1 =
    if s.Due ∧ ¬ s.disk.Works then
      .error (.failed (.io .isDirectory))
    else .ok ()
  disk : (s.commit b).2.disk =
    if s.Due ∧ s.disk.Works then
      ⟨.file (s.commit b).2.ledger.toJson.pretty, true⟩
    else s.disk
  /-- Then the file stays as it was, and due, whatever the owner goes on to do; it is
  written with all that was accepted as soon as the disk works. -/
  failed : (s.commit b).1 ≠ .ok () → (s.commit b).2.disk = s.disk ∧
    ∀ as, (∀ a ∈ as, a.OfOwner ∧ a.InLimits) →
      ((s.commit b).2.runAll as).ledger = as.foldl Action.received (s.commit b).2.ledger ∧
      ((s.commit b).2.runAll as).disk = s.disk ∧
      ((s.commit b).2.runAll as).interval ≤ ((s.commit b).2.runAll as).unflushed ∧
      (s.commit b).2.ledger.Retains ((s.commit b).2.runAll as).ledger ∧
      ((s.commit b).2.runAll as).Recovers

theorem accepts (within : s.ledger.InLimits) (words : b.InLimits) (isOpen : s.closed = false)
    (extends_ : extends? s.ledger b.block = .ok ()) : s.Accepts b := by
  have behind := behind_of_extends extends_
  have ledger : (s.commit b).2.ledger = s.ledger.apply b :=
    commit_ledger isOpen (extends?_eq_ok_iff.mp extends_)
  have eq := commit_eq_ite isOpen extends_
  refine ⟨ledger ▸ Ledger.apply_takesOver behind, ledger ▸ Ledger.retains_apply behind, ?_, ?_, ?_⟩
  · rw [eq]
    by_cases due : s.Due <;> by_cases works : s.disk.Works <;> simp [due, works]
  · rw [eq]
    by_cases due : s.Due <;> by_cases works : s.disk.Works <;> simp [due, works]
  · intro fails
    -- The only way to fail is a write that was due.
    by_cases due : s.Due
    · by_cases works : s.disk.Works
      · rw [eq, if_pos due, if_pos works] at fails
        cases fails rfl
      · rw [eq, if_pos due, if_neg works]
        have overdue :
            Overdue { s with ledger := s.ledger.apply b, unflushed := s.unflushed + 1 } :=
          ⟨isOpen, due.1, works, due.2, Overdue.head?_apply_isSome _ _, within.apply words⟩
        refine ⟨rfl, fun as owner => ?_⟩
        obtain ⟨after, held, disk⟩ := overdue.runAll owner
        exact ⟨held, disk, after.due, overdue.retains owner, after.recovers⟩
    · rw [eq, if_neg due] at fails
      cases fails rfl

/-- **A commit is all or nothing, also when the write fails.** A closed store refuses it,
and an open one exactly if there is a head and the block does not come next; then
everything stays. Otherwise the whole batch is taken over, and a write that fails is
made up for. -/
theorem commit_atomic (within : s.ledger.InLimits) (words : b.InLimits) (below : s.ledger.Below) :
    (s.closed = true → s.commit b = (.error (.failed .closed), s)) ∧
    (s.closed = false → ∀ head, s.ledger.head? = some head → b.block.index ≠ head.index + 1 →
      s.commit b = (.error (.failed (.outOfOrder head b.block)), s)) ∧
    (s.closed = false → (∀ head, s.ledger.head? = some head → b.block.index = head.index + 1) →
      s.Accepts b) := by
  refine ⟨commit_of_closed, fun isOpen head found other => ?_, fun isOpen follows => ?_⟩
  · refine commit_of_refused isOpen ?_
    rw [extends?_eq_ite within below found, if_neg other]
  · exact accepts within words isOpen (extends?_of_follows within below follows)

/-- A block behind another one, on a disk that fails, with a file from before. -/
theorem commit_atomic_unwritable :
    let alice : Holding := ⟨⟨"alice", none⟩, ⟨"BTC", 8⟩⟩
    let value : Decimal := ⟨-10, 2, by decide, by decide⟩
    let s : Store := { ledger := { blocks := Table.ofList [(4, "h4")] }, interval := 1,
                       persistent := true, disk := ⟨.file "old", false⟩ }
    let b : Batch := ⟨⟨5, "h5"⟩, [⟨alice, ⟨4, "h4"⟩, value, default, true⟩,
      ⟨alice, ⟨5, "h5"⟩, value, value, false⟩], [("blocks", 1), ("blocks", 2)]⟩
    s.ledger.InLimits ∧ b.InLimits ∧ s.ledger.Below ∧ (s.commit b).1 ≠ .ok () ∧ s.Accepts b := by
  intro alice value s b
  have within : s.ledger.InLimits := ⟨by decide, nofun⟩
  have words : b.InLimits := ⟨by decide, by decide⟩
  have below : s.ledger.Below := by
    intro head found
    cases found
    decide
  have accepted := (commit_atomic within words below).2.2 rfl
    (by intro head found; cases found; rfl)
  refine ⟨within, words, below, ?_, accepted⟩
  rw [accepted.result]
  decide

end Store

end BalanceAudit
