import Mathlib.Data.List.Induction
import BalanceAudit.Proofs.Store.Reopened

/-!
# What a crash loses

The owner of a store commits, counts, seeds and closes; nobody else touches the
directory, and it can be written. Whenever the owner stops, the directory opens
as what was held at one earlier moment.

- `Store.Action.OfOwner`, `Store.runAll`: what the owner does, one after another.
- `Store.Action.Saves`: the actions that write the file.
- `Store.Action.taken`, `Store.takenOver`: how many commits are taken over.
- `Store.Working.run`: one action either writes the file as a whole, or leaves
  it and is counted as missing from it.
- `Store.reopens_at_last_save`: **the directory opens as the ledger of the last
  action that wrote it, and fewer commits are missing than make a write due**.
-/

namespace BalanceAudit

namespace Store

/-! ## What the owner does

Of the actions some save. The number of what was taken over since the last save is read off
the answers. -/

/-- What the owner of a store does with it. -/
def Action.OfOwner : Action → Prop
  | commit _ | update _ _ | bootstrap _ _ | close => True
  | flush | closeNow | setInterval _ | replace _ => False

/-- What becomes of a store by one action after another. -/
def runAll (s : Store) (as : List Action) : Store := as.foldl Action.run s

@[simp] theorem runAll_nil (s : Store) : s.runAll [] = s := rfl

theorem runAll_append (s : Store) (as bs : List Action) :
    s.runAll (as ++ bs) = (s.runAll as).runAll bs := List.foldl_append ..

theorem runAll_concat (s : Store) (as : List Action) (a : Action) :
    s.runAll (as ++ [a]) = a.run (s.runAll as) := runAll_append s as [a]

/-- Whether the action writes the file of a store that can be written: a commit
that is due, a manifest that is taken over, and closing. -/
def Action.Saves (s : Store) : Action → Prop
  | commit b => (s.commit b).1 = .ok () ∧ s.interval ≤ s.unflushed + 1
  | bootstrap manifest genesis => ∃ seeded, (s.bootstrap manifest genesis).1 = .ok seeded
  | close => s.closed = false
  | _ => False

/-- How many commits the action is: one, if it is a commit that is taken over. -/
def Action.taken (s : Store) : Action → Nat
  | commit b => if (s.commit b).1.isOk then 1 else 0
  | _ => 0

/-- How many commits are taken over by one action after another. -/
def takenOver (s : Store) : List Action → Nat
  | [] => 0
  | a :: as => a.taken s + (a.run s).takenOver as

theorem takenOver_concat (s : Store) (as : List Action) (a : Action) :
    s.takenOver (as ++ [a]) = s.takenOver as + a.taken (s.runAll as) := by
  induction as generalizing s with
  | nil => exact Nat.add_comm ..
  | cons b bs ih =>
    show b.taken s + (b.run s).takenOver (bs ++ [a]) = b.taken s + _ + _
    rw [ih (b.run s), Nat.add_assoc]
    rfl

/-! ## One action

A working store has fewer than the interval outstanding, and an action either saves all of
it or adds at most one. -/

/-- A store that was opened and can be written, whose file lacks fewer commits
than make a write due, and none once it is closed. -/
structure Working (s : Store) : Prop where
  reached : Reachable s
  canWrite : s.canWrite = true
  due : s.unflushed < s.interval
  closed : s.closed = true → s.unflushed = 0

/-- What an action does to the file. -/
inductive Action.Effect (s : Store) (a : Action) : Prop where
  /-- It becomes the text of what is held. -/
  | saved (saves : a.Saves s) (text : (a.run s).disk = ⟨.file (a.run s).ledger.toJson.pretty, true⟩)
      (unflushed : (a.run s).unflushed = 0)
  /-- It stays, and lacks what the action took over. -/
  | kept (idle : ¬ a.Saves s) (disk : (a.run s).disk = s.disk)
      (unflushed : (a.run s).unflushed = s.unflushed + a.taken s)

/-- What an action of the owner leaves of a working store. -/
structure Action.Keeps (s : Store) (a : Action) : Prop where
  canWrite : (a.run s).canWrite = true
  interval : (a.run s).interval = s.interval
  due : (a.run s).unflushed < s.interval
  closed : s.closed = true → (a.run s).closed = true ∧ (a.run s).unflushed = s.unflushed
  closes : (a.run s).closed = true → (a.run s).unflushed = 0
  effect : a.Effect s

variable {s : Store} {a : Action}

theorem flush_eq (persistent : s.persistent = true) (works : s.canWrite = true) :
    s.flush =
      (.ok (), { s with disk := ⟨.file s.ledger.toJson.pretty, true⟩, unflushed := 0 }) := by
  have result := flush_result s
  rw [if_pos works] at result
  have text := flush_text persistent result
  rcases flush_cases s with ⟨_, scratch⟩ | ⟨disk, eq, _⟩ | ⟨_, broken⟩
  · rw [persistent] at scratch
    cases scratch
  · rw [eq] at text ⊢
    rw [show disk = _ from text]
  · rw [works] at broken
    cases broken

/-- An action that changes nothing at all, and would not write. -/
theorem Working.keeps_of_same (w : Working s) (same : a.run s = s) (idle : ¬ a.Saves s)
    (none : a.taken s = 0) : a.Keeps s where
  canWrite := same.symm ▸ w.canWrite
  interval := by rw [same]
  due := same.symm ▸ w.due
  closed closed := by
    rw [same]
    exact ⟨closed, rfl⟩
  closes := same.symm ▸ w.closed
  effect := .kept idle (by rw [same]) (by rw [same, none, Nat.add_zero])

/-- A commit that is taken over writes the file if it is due. -/
theorem Working.committed_eq (w : Working s) (l : Ledger) :
    ({ s with ledger := l } : Store).committed = (.ok (),
      if s.interval ≤ s.unflushed + 1 then
        { s with ledger := l, disk := ⟨.file l.toJson.pretty, true⟩, unflushed := 0 }
      else { s with ledger := l, unflushed := s.unflushed + 1 }) := by
  rw [committed]
  by_cases due : s.interval ≤ s.unflushed + 1
  · have works : ({ s with ledger := l, unflushed := s.unflushed + 1 } : Store).canWrite = true :=
      w.canWrite
    rw [if_pos due, if_pos due]
    exact flush_eq (s := { s with ledger := l, unflushed := s.unflushed + 1 })
      w.reached.inLimits.1 works
  · rw [if_neg due, if_neg due]

theorem Working.keeps_commit (w : Working s) (b : Batch) : (Action.commit b).Keeps s := by
  rcases commit_cases s b with ⟨same, refused⟩ | ⟨isOpen, next, eq⟩
  · refine w.keeps_of_same same (fun saves => refused saves.1) ?_
    rcases eq : (s.commit b).1 with _ | _
    · rw [Action.taken, eq]
      rfl
    · exact absurd eq refused
  rw [w.committed_eq] at eq
  have run : (Action.commit b).run s = _ := congrArg Prod.snd eq
  have taken : (Action.commit b).taken s = 1 := by
    rw [Action.taken, eq]
    rfl
  have stillOpen {P : Prop} (closed : s.closed = true) : P := by
    rw [isOpen] at closed
    cases closed
  -- At the interval the commit saves and starts to count anew, below it only the count grows.
  by_cases due : s.interval ≤ s.unflushed + 1
  · simp only [if_pos due] at run
    refine ⟨?_, by rw [run], ?_, stillOpen, fun _ => by rw [run], ?_⟩
    · rw [run, Store.canWrite]
      simp
    · rw [run]
      exact Nat.zero_lt_of_lt w.due
    · exact .saved ⟨congrArg Prod.fst eq, due⟩ (by rw [run]) (by rw [run])
  · simp only [if_neg due] at run
    refine ⟨?_, by rw [run], ?_, stillOpen, ?_, ?_⟩
    · rw [run]
      exact w.canWrite
    · rw [run]
      exact Nat.lt_of_not_le due
    · rw [run]
      exact stillOpen
    · exact .kept (fun saves => due saves.2) (by rw [run]) (by rw [run, taken])

theorem Working.keeps_update (w : Working s) (name : String) (amount : Count) :
    (Action.update name amount).Keeps s := by
  have eq : (Action.update name amount).run s = s ∨
      (Action.update name amount).run s = { s with ledger := s.ledger.increment name amount } := by
    rw [Action.run, update, Store.read]
    cases s.closed
    · exact .inr rfl
    · exact .inl rfl
  rcases eq with same | run
  · exact w.keeps_of_same same id rfl
  · refine ⟨?_, by rw [run], ?_, ?_, ?_, .kept id (by rw [run]) (by rw [run]; rfl)⟩
    · rw [run]
      exact w.canWrite
    · rw [run]
      exact w.due
    · intro closed
      rw [run]
      exact ⟨closed, rfl⟩
    · rw [run]
      exact w.closed

/-- A manifest that is taken over is written at once. -/
theorem Working.bootstrap_cases (w : Working s) (manifest : Except FileFault String)
    (genesis : BlockId) :
    (∃ e, s.bootstrap manifest genesis = (.error e, s)) ∨
    s.closed = false ∧ ∃ l seeded, s.bootstrap manifest genesis =
      (.ok seeded,
        { s with ledger := l, disk := ⟨.file l.toJson.pretty, true⟩, unflushed := 0 }) := by
  rw [bootstrap]
  split
  · exact .inl ⟨_, rfl⟩
  · next seeds _ =>
    split
    · exact .inl ⟨_, rfl⟩
    · next goes =>
      have isOpen : s.closed = false := by
        by_contra other
        rw [Store.read, if_pos (Bool.eq_true_of_not_eq_false other)] at goes
        cases goes
      have works : ({ s with ledger := s.ledger.seed seeds genesis } : Store).canWrite = true :=
        w.canWrite
      rw [flush_eq (s := { s with ledger := s.ledger.seed seeds genesis })
        w.reached.inLimits.1 works]
      exact .inr ⟨isOpen, _, _, rfl⟩

theorem Working.keeps_bootstrap (w : Working s) (manifest : Except FileFault String)
    (genesis : BlockId) : (Action.bootstrap manifest genesis).Keeps s := by
  rcases w.bootstrap_cases manifest genesis with ⟨e, eq⟩ | ⟨isOpen, l, seeded, eq⟩
  · refine w.keeps_of_same (congrArg Prod.snd eq) ?_ rfl
    rintro ⟨seeded, ok⟩
    rw [eq] at ok
    cases ok
  · have run : (Action.bootstrap manifest genesis).run s = _ := congrArg Prod.snd eq
    refine ⟨?_, by rw [run], ?_, ?_, fun _ => by rw [run], ?_⟩
    · rw [run, Store.canWrite]
      simp
    · rw [run]
      exact Nat.zero_lt_of_lt w.due
    · intro closed
      rw [isOpen] at closed
      cases closed
    · exact .saved ⟨seeded, congrArg Prod.fst eq⟩ (by rw [run]) (by rw [run])

theorem Working.close_eq (w : Working s) (isOpen : s.closed = false) :
    s.close.2 = { s with
      disk := ⟨.file s.ledger.toJson.pretty, true⟩, unflushed := 0, closed := true } := by
  rw [close, isOpen, flush_eq w.reached.inLimits.1 w.canWrite]
  rfl

theorem Working.keeps_close (w : Working s) : Action.close.Keeps s := by
  by_cases isOpen : s.closed = false
  · have run : Action.close.run s = _ := w.close_eq isOpen
    refine ⟨?_, by rw [run], ?_, ?_, fun _ => by rw [run],
      .saved isOpen (by rw [run]) (by rw [run])⟩
    · rw [run, Store.canWrite]
      simp
    · rw [run]
      exact Nat.zero_lt_of_lt w.due
    · intro closed
      rw [isOpen] at closed
      cases closed
  · have closed : s.closed = true := Bool.eq_true_of_not_eq_false isOpen
    refine w.keeps_of_same ?_ isOpen rfl
    rw [Action.run, close, if_pos closed]

theorem Working.keeps (w : Working s) (owner : a.OfOwner) : a.Keeps s := by
  cases a with
  | commit b => exact w.keeps_commit b
  | update name amount => exact w.keeps_update name amount
  | bootstrap manifest genesis => exact w.keeps_bootstrap manifest genesis
  | close => exact w.keeps_close
  | _ => exact owner.elim

/-- A working store stays one. -/
theorem Working.run (w : Working s) (owner : a.OfOwner) (within : a.InLimits) :
    Working (a.run s) where
  reached := .run a within w.reached
  canWrite := (w.keeps owner).canWrite
  due := (w.keeps owner).interval ▸ (w.keeps owner).due
  closed := (w.keeps owner).closes

/-! ## One action after another

By induction from the right: the last action that saved splits the history. -/

theorem Working.runAll {s : Store} (w : Working s) {as : List Action}
    (owner : ∀ a ∈ as, a.OfOwner ∧ a.InLimits) :
    Working (s.runAll as) ∧ (s.runAll as).interval = s.interval := by
  induction as generalizing s with
  | nil => exact ⟨w, rfl⟩
  | cons a as ih =>
    obtain ⟨first, rest⟩ := List.forall_mem_cons.mp owner
    obtain ⟨working, interval⟩ := ih (w.run first.1 first.2) rest
    exact ⟨working, interval.trans (w.keeps first.1).interval⟩

/-- Once the owner has closed the store it stays closed. -/
theorem Working.closed_of_mem {s : Store} (w : Working s) {as : List Action}
    (owner : ∀ a ∈ as, a.OfOwner ∧ a.InLimits) (closes : Action.close ∈ as) :
    (s.runAll as).closed = true := by
  induction as using List.reverseRecOn with
  | nil => cases closes
  | append_singleton as a ih =>
    have earlier : ∀ a ∈ as, a.OfOwner ∧ a.InLimits :=
      fun b mem => owner b (List.mem_append_left _ mem)
    have working := (w.runAll earlier).1
    rw [runAll_concat]
    rcases List.mem_append.mp closes with mem | last
    · exact ((working.keeps (owner a (by simp)).1).closed (ih earlier mem)).1
    · rw [← List.mem_singleton.mp last]
      by_cases isOpen : (s.runAll as).closed = false
      · exact congrArg Store.closed (working.close_eq isOpen)
      · have closed := Bool.eq_true_of_not_eq_false isOpen
        exact ((working.keeps (a := .close) trivial).closed closed).1

/-- Actions, split at the last one that wrote the file: the directory opens as
the ledger that was held there, and lacks the commits that were taken over since. -/
structure SplitAtSave (s : Store) (before after : List Action) : Prop where
  reopens : ∃ r, openAt (s.runAll (before ++ after)).disk = .ok r ∧
    r.ledger = (s.runAll before).ledger
  saves : before = [] ∨ ∃ earlier a, before = earlier ++ [a] ∧ a.Saves (s.runAll earlier)
  idle : ∀ earlier a later, after = earlier ++ a :: later →
    ¬ a.Saves (s.runAll (before ++ earlier))
  missing : (s.runAll (before ++ after)).unflushed = (s.runAll before).takenOver after

/-- An action that writes the file becomes the last one that did. -/
theorem Working.splitAt_saved {s : Store} {as : List Action} {a : Action}
    (w : Working (a.run (s.runAll as))) (saves : a.Saves (s.runAll as))
    (text : (a.run (s.runAll as)).disk =
      ⟨.file (a.run (s.runAll as)).ledger.toJson.pretty, true⟩)
    (unflushed : (a.run (s.runAll as)).unflushed = 0) : SplitAtSave s (as ++ [a]) [] where
  reopens := by
    rw [List.append_nil, runAll_concat, text]
    exact ⟨_, openAt_text w.reached.inLimits.2 true, rfl⟩
  saves := .inr ⟨as, a, rfl, saves⟩
  idle := by
    intro earlier b later eq
    cases earlier <;> cases eq
  missing := by
    rw [List.append_nil, runAll_concat, unflushed]
    rfl

/-- An action that leaves the file is one of those that the file lacks. -/
theorem SplitAtSave.kept {s : Store} {before after : List Action} {a : Action}
    (split : SplitAtSave s before after) (idle : ¬ a.Saves (s.runAll (before ++ after)))
    (disk : (a.run (s.runAll (before ++ after))).disk = (s.runAll (before ++ after)).disk)
    (unflushed : (a.run (s.runAll (before ++ after))).unflushed =
      (s.runAll (before ++ after)).unflushed + a.taken (s.runAll (before ++ after))) :
    SplitAtSave s before (after ++ [a]) where
  reopens := by
    rw [← List.append_assoc, runAll_concat, disk]
    exact split.reopens
  saves := split.saves
  idle := by
    intro earlier b later eq
    rcases List.eq_nil_or_concat later with rfl | ⟨later, c, rfl⟩
    · obtain ⟨rfl, last⟩ := List.append_inj' eq rfl
      rw [← (List.cons.inj last).1]
      exact idle
    · rw [List.concat_eq_append, ← List.cons_append, ← List.append_assoc] at eq
      exact split.idle earlier b later (List.append_inj' eq rfl).1
  missing := by
    rw [← List.append_assoc, runAll_concat, unflushed, split.missing, takenOver_concat,
      ← runAll_append]

/-- By induction on the actions of the owner, the last one first: it either is
the last one that wrote the file, or the file is as it was without it. -/
theorem Working.exists_splitAtSave {s : Store} (w : Working s) (fresh : s.unflushed = 0)
    (reopens : ∃ r, openAt s.disk = .ok r ∧ r.ledger = s.ledger) {as : List Action}
    (owner : ∀ a ∈ as, a.OfOwner ∧ a.InLimits) :
    ∃ before after, as = before ++ after ∧ SplitAtSave s before after := by
  induction as using List.reverseRecOn with
  | nil =>
    refine ⟨[], [], rfl, reopens, .inl rfl, ?_, fresh⟩
    intro earlier b later eq
    cases earlier <;> cases eq
  | append_singleton as a ih =>
    have earlier : ∀ a ∈ as, a.OfOwner ∧ a.InLimits :=
      fun b mem => owner b (List.mem_append_left _ mem)
    obtain ⟨ofOwner, within⟩ := owner a (by simp)
    have working := (w.runAll earlier).1
    obtain ⟨before, after, rfl, split⟩ := ih earlier
    cases (working.keeps ofOwner).effect with
    | saved saves text unflushed =>
      exact ⟨_, [], (List.append_nil _).symm,
        (working.run ofOwner within).splitAt_saved saves text unflushed⟩
    | kept idle disk unflushed =>
      exact ⟨before, after ++ [a], List.append_assoc .., split.kept idle disk unflushed⟩

/-! ## Scratch stores

Nothing is ever written, so there is nothing that could be lost. -/

/-- A store that is never written leaves what stands in its directory. -/
theorem run_disk_of_scratch (scratch : s.persistent = false) (owner : a.OfOwner) :
    (a.run s).disk = s.disk := by
  -- A scratch store has no file: its flush is no write.
  have flush_same (l : Ledger) (unflushed : Nat) :
      ({ s with ledger := l, unflushed } : Store).flush =
        (.ok (), { s with ledger := l, unflushed }) := by
    rw [flush, scratch]
    rfl
  cases a with
  | commit b =>
    rcases commit_cases s b with ⟨same, _⟩ | ⟨_, _, eq⟩
    · exact congrArg Store.disk same
    · rw [Action.run, eq, committed]
      split
      · exact congrArg (·.2.disk) (flush_same _ _)
      · rfl
  | update name amount =>
    rw [Action.run, update]
    split <;> rfl
  | bootstrap manifest genesis =>
    rw [Action.run, bootstrap]
    split
    · rfl
    · split
      · rfl
      · rw [flush_same _ s.unflushed]
  | close =>
    rw [Action.run, close]
    split
    · rfl
    · rw [flush_same s.ledger s.unflushed]
  | _ => exact owner.elim

theorem runAll_disk_of_scratch {s : Store} (scratch : s.persistent = false) {as : List Action}
    (owner : ∀ a ∈ as, a.OfOwner) : (s.runAll as).disk = s.disk := by
  induction as generalizing s with
  | nil => rfl
  | cons a as ih =>
    obtain ⟨first, rest⟩ := List.forall_mem_cons.mp owner
    have later := ih ((a.run_changes s).1.trans scratch) rest
    exact later.trans (run_disk_of_scratch scratch first)

/-! ## What is lost

The file holds what the store held at the split. -/

theorem working_of_openAt {disk : Disk} (opened : openAt disk = .ok s)
    (writable : disk.writable = true) (commits : Nat) : Working (s.withInterval commits) := by
  obtain ⟨isOpen, _, fresh, same, file⟩ := openAt_cases opened
  refine ⟨.run (.setInterval commits) trivial (.opened opened), ?_, ?_, fun _ => fresh⟩
  · simp [canWrite, withInterval, same, writable, file]
  · show s.unflushed < max commits 1
    rw [fresh]
    exact Nat.le_max_right commits 1

/-- A store is opened on a directory that can be written, and its owner commits,
counts, seeds and closes. Whenever that ends, the directory opens as exactly what
was held at one earlier moment: after the last action that wrote the file, or at
the start. Since then fewer commits were taken over than make a write due, and
none once the store is closed. A scratch store writes nothing. -/
theorem reopens_at_last_save {disk : Disk} {s : Store} (opened : openAt disk = .ok s)
    (writable : disk.writable = true) (commits : Nat) {as : List Action}
    (owner : ∀ a ∈ as, a.OfOwner ∧ a.InLimits) :
    (∃ before after, as = before ++ after ∧ SplitAtSave (s.withInterval commits) before after ∧
      ((s.withInterval commits).runAll before).takenOver after ≤ max commits 1 - 1 ∧
      (.close ∈ as → ((s.withInterval commits).runAll before).takenOver after = 0)) ∧
    ∀ place, (((scratch place).withInterval commits).runAll as).disk = place := by
  have w := working_of_openAt opened writable commits
  obtain ⟨_, _, fresh, same, _⟩ := openAt_cases opened
  constructor
  · obtain ⟨before, after, rfl, split⟩ := w.exists_splitAtSave fresh
      ⟨s, (congrArg openAt same).trans opened, rfl⟩ owner
    obtain ⟨working, interval⟩ := w.runAll owner
    refine ⟨before, after, rfl, split, ?_, fun closes => ?_⟩
    · have due := working.due
      rw [interval, split.missing] at due
      exact Nat.le_sub_one_of_lt due
    · rw [← split.missing]
      exact working.closed (w.closed_of_mem owner closes)
  · intro place
    exact runAll_disk_of_scratch rfl fun a mem => (owner a mem).1

/-- Balances are seeded, three blocks are committed of which every second one is
written, and a counter is raised. -/
theorem reopens_at_last_save_alternating :
    let as : List Action :=
      [.bootstrap (.ok "[]") ⟨0, "0"⟩, .commit ⟨⟨0, "0"⟩, [], []⟩, .commit ⟨⟨1, "1"⟩, [], []⟩,
        .commit ⟨⟨2, "2"⟩, [], []⟩, .update "seen" 3]
    openAt {} = .ok { persistent := true } ∧ (∀ a ∈ as, a.OfOwner ∧ a.InLimits) ∧
      (∃ before after, as = before ++ after ∧
        SplitAtSave (({ persistent := true } : Store).withInterval 2) before after ∧
        ((({ persistent := true } : Store).withInterval 2).runAll before).takenOver after ≤ 1 ∧
        (.close ∈ as →
          ((({ persistent := true } : Store).withInterval 2).runAll before).takenOver after = 0)) ∧
      ∀ place, (((scratch place).withInterval 2).runAll as).disk = place := by
  intro as
  have owner : ∀ a ∈ as, a.OfOwner ∧ a.InLimits := by
    intro a mem
    simp only [as, List.mem_cons, List.not_mem_nil, or_false] at mem
    rcases mem with rfl | rfl | rfl | rfl | rfl
    · exact ⟨trivial, (by decide : (⟨0, "0"⟩ : BlockId).InLimits)⟩
    · exact ⟨trivial, by decide, nofun⟩
    · exact ⟨trivial, by decide, nofun⟩
    · exact ⟨trivial, by decide, nofun⟩
    · exact ⟨trivial, trivial⟩
  have opened : openAt {} = .ok { persistent := true } := rfl
  exact ⟨opened, owner, reopens_at_last_save opened rfl 2 owner⟩

end Store

end BalanceAudit
