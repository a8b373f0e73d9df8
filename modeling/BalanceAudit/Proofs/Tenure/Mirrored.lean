import BalanceAudit.Proofs.Tenure.Paces

/-!
# The counters of a store over many runs

Runs come one after the other on one store, and each goes on where the file of the last
one ends. A run may be seeded from a manifest, meet errors, be aborted or be killed at any
moment; the disk may fail. Whatever happens, the counters of blocks, transactions,
operations and seen accounts say what the store holds.

- `Register`: the blocks that were taken over, as far as they are still there.
- `Tenure`: a store at any moment of any number of runs.
- `Tenure.Sound`: the ledger mirrors the blocks that were taken over, and so does the one
  that the file opens as.
- `Tenure.Sound.pace`, `Tenure.sound`: a pace keeps it so, and **so it is at every moment**.
- `Tenure.mirrored`: **the counters are those of the blocks that the store holds and of the
  records**.
-/

namespace BalanceAudit

variable {σ : Type}

/-- Whatever the node reports is made of words. -/
structure Node.InLimits (n : Node σ) : Prop where
  block : ∀ b, n.Reports b → Block.InLimits b
  genesis : ∀ w st, (n.status w).1.reply = some (.ok st) → st.genesis.InLimits

/-- The reported blocks that a store took over, in order. -/
structure Register where
  /-- Those it holds in memory. -/
  kept : List Block := []
  /-- Those it held when the file was written. -/
  filed : List Block := []

/-- The register of a store that took over more blocks and has become `s`. -/
def Register.next (r : Register) (more : List Block) (s : Store) : Register where
  kept := r.kept ++ more
  filed := if s.UpToDate then r.kept ++ more else r.filed

/-- A store at some moment of the runs on one directory, which had no file at first. -/
inductive Tenure : Store → Register → Prop where
  | founded (writable : Bool) (commits : Nat) :
      Tenure (Store.withInterval { persistent := true, disk := { writable } } commits) {}
  /-- A run goes on. -/
  | pace {σ : Type} {a : Auditor σ} {s t : Session σ} {r : Register} {more : List Block}
      (tenure : Tenure s.store r) (words : a.node.InLimits) (pace : a.Pace s more t) :
      Tenure t.store (r.next more t.store)
  /-- Balances are seeded from a manifest, if that is still possible. -/
  | seed {s : Store} {r : Register} (tenure : Tenure s r) (manifest : Except FileFault String)
      {genesis : BlockId} (word : genesis.InLimits) :
      Tenure (s.bootstrap manifest genesis).2 (r.next [] (s.bootstrap manifest genesis).2)
  | close {s : Store} {r : Register} (tenure : Tenure s r) :
      Tenure s.close.2 (r.next [] s.close.2)
  /-- Writing begins or ceases to work. -/
  | disk {s : Store} {r : Register} (tenure : Tenure s r) (writable : Bool) :
      Tenure { s with disk := { s.disk with writable } } r
  /-- A run ended or was killed, and another one opens the directory. -/
  | reopen {s t : Store} {r : Register} {d : Disk} (tenure : Tenure s r)
      (left : d.entry = s.disk.entry) (opened : Store.openAt d = .ok t) (commits : Nat) :
      Tenure (t.withInterval commits) ⟨r.filed, r.filed⟩

/-- A check raises a counter of its own. -/
theorem Ledger.Mirrors.check {l : Ledger} {kept : List Block} {k : Counter}
    (mirrors : l.Mirrors kept) (mem : k ∈ Counter.ofChecks) (amount : Count) :
    (l.increment k.name amount).Mirrors kept := by
  refine mirrors.increment ?_ amount
  simp only [Counter.ofChecks, Counter.passing, List.mem_cons, List.not_mem_nil, or_false] at mem
  rcases mem with rfl | rfl | rfl | rfl | rfl <;> rfl

/-! ## What a tenure keeps

Soundness speaks of the ledger in memory and of the file, because a killed run goes on from
the latter. -/

namespace Tenure

variable {s t : Store} {r : Register} {more : List Block}

/-- The ledger mirrors what was taken over, and so does the one that the file opens as. -/
structure Sound (s : Store) (r : Register) : Prop where
  mirrors : s.ledger.Mirrors r.kept
  within : s.ledger.InLimits
  reopens : ∀ d t, d.entry = s.disk.entry → Store.openAt d = .ok t → t.ledger.Mirrors r.filed

/-- A step that leaves the file or writes it. -/
theorem Sound.next (sound : Sound s r) (mirrors : t.ledger.Mirrors (r.kept ++ more))
    (within : t.ledger.InLimits) (disk : t.disk = s.disk ∨ t.UpToDate) :
    Sound t (r.next more t) where
  mirrors := mirrors
  within := within
  reopens d t' left opened := by
    show t'.ledger.Mirrors (if t.UpToDate then r.kept ++ more else r.filed)
    by_cases written : t.UpToDate
    · -- What the file holds is what is in memory.
      have text : d.text? = some t.ledger.toJson.pretty := by
        rw [← written, Disk.text?, Disk.text?, left]
      rw [if_pos written]
      cases (Store.openAt_of_text text within).symm.trans opened
      exact mirrors
    · rw [if_neg written]
      have entry := congrArg Disk.entry (disk.resolve_right written)
      exact sound.reopens d t' (left.trans entry) opened

/-- What the owner of a store does that takes over no block. -/
theorem Sound.act {a : Store.Action} (sound : Sound s r) (own : a.Own) (words : a.InLimits)
    (mirrors : (a.run s).ledger.Mirrors r.kept) : Sound (a.run s) (r.next [] (a.run s)) :=
  sound.next ((List.append_nil r.kept).symm ▸ mirrors) (a.run_inLimits sound.within words)
    (a.run_disk own)

/-- The batch of a block that is made of words is made of words. -/
theorem changing_inLimits {b : Block} {cs : List Change} (words : Block.InLimits b)
    (reported : ∀ c ∈ cs, b.reports c.holding = true ∧ c.block = b.id) :
    (Batch.changing b cs).InLimits where
  block := (Batch.changing_block b cs).symm ▸ words.id
  changes c mem := by
    rw [Batch.changing_changes] at mem
    obtain ⟨reports, block⟩ := reported c mem
    exact ⟨words.holdings _ reports, block.symm ▸ words.id⟩

/-- **A pace of a run** keeps the store sound. -/
theorem Sound.pace {a : Auditor σ} {x y : Session σ} (sound : Sound x.store r)
    (words : a.node.InLimits) (pace : a.Pace x more y) : Sound y.store (r.next more y.store) := by
  cases pace with
  | rest same =>
    rw [same]
    exact sound.next ((List.append_nil r.kept).symm ▸ sound.mirrors) sound.within (.inl rfl)
  | @check _ k mem raised =>
    rw [raised]
    exact sound.next ((List.append_nil r.kept).symm ▸ sound.mirrors.check mem 1)
      (sound.within.increment k.name 1) (.inl rfl)
  | @enter _ u b batch reported staged accepted committed =>
    obtain ⟨cs, rfl, fresh, changed⟩ := (a.stageBalances_fresh b x).of_ok staged
    have ledger : y.store.ledger = x.store.ledger.apply (Batch.changing b cs) := by
      rw [committed, Store.commit_eq_of_extends accepted.1
        ((Batch.changing_block b cs).symm ▸ accepted.2), Store.committed_ledger]
    refine sound.next ?_ ?_ (committed ▸ Store.commit_disk_or x.store _)
    · rw [ledger]
      exact sound.mirrors.apply fresh accepted.2
    · rw [ledger]
      exact sound.within.apply (changing_inLimits (words.block b reported) changed)

/-- **Every tenure is sound.** -/
theorem sound (tenure : Tenure s r) : Sound s r := by
  induction tenure with
  | founded writable commits =>
    refine ⟨Ledger.mirrors_empty, Ledger.inLimits_empty, fun d t left opened => ?_⟩
    obtain ⟨entry, _⟩ := d
    obtain rfl : entry = .absent := left
    cases opened
    exact Ledger.mirrors_empty
  | pace _ words pace sound => exact sound.pace words pace
  | @seed s r _ manifest genesis word sound =>
    refine sound.act (a := .bootstrap manifest genesis) trivial word ?_
    have changes := ((Store.Action.bootstrap manifest genesis).run_changes s).2
    generalize ((Store.Action.bootstrap manifest genesis).run s).ledger = l at changes
    cases changes with
    | none => exact sound.mirrors
    | bootstrap => exact sound.mirrors.seed _ _
  | @close s r _ sound =>
    refine sound.act (a := .close) trivial trivial ?_
    have changes := (Store.Action.close.run_changes s).2
    generalize (Store.Action.close.run s).ledger = l at changes
    cases changes
    exact sound.mirrors
  | disk _ writable sound => exact ⟨sound.mirrors, sound.within, sound.reopens⟩
  | @reopen s t r d _ left opened commits sound =>
    -- As long as nothing is written, the next run opens the same file again.
    refine ⟨sound.reopens d t left opened, (Store.openAt_inLimits opened).2, ?_⟩
    intro d' t' left' opened'
    have disk := (Store.openAt_cases opened).2.2.2.1
    exact sound.reopens d' t' ((left'.trans (congrArg Disk.entry disk)).trans left) opened'

/-- **The counters are those of the blocks that the store holds** and of the records: it
holds exactly the blocks that were taken over. -/
theorem mirrored (tenure : Tenure s r) :
    s.ledger.Mirrors r.kept ∧ s.ledger.blocks.entries.length = r.kept.length := by
  have mirrors := tenure.sound.mirrors
  exact ⟨mirrors, by rw [mirrors.stored, List.length_map]⟩

end Tenure

end BalanceAudit
