import BalanceAudit.Proofs.Audit
import BalanceAudit.Proofs.Chain.TwoBlocks
import BalanceAudit.Proofs.Files
import BalanceAudit.Proofs.Tenure.Mirrored

/-!
# Many audits on one data directory

An audit opens the store of its directory, follows the chain, and leaves a file there for
the next audit, whether it ends or is killed on the way. So the stores of all the audits
on a directory, at each of their moments, make up one tenure.

- `Audit.Moment`: a moment of following the chain; `Audit.follow_moment`: there it goes by
  such moments.
- `Files.AfterRuns`: the files after any number of runs on a directory, and the blocks that
  the runs left there; `Audit.run_after`: what a whole audit leaves there.
- `Store.Serving`, `Files.Held`: the tenure in memory, and in the directory.
- `Files.AfterRuns.held`: **a tenure has come to what is there**.
- `Audit.counters_mirror`: **at each moment of each run the counters mirror the store**.
-/

namespace BalanceAudit

variable {σ : Type}

/-! ## Moments of a run

A run from an opened store goes by paces, each of which leaves a moment. The register is
carried along. -/

namespace Audit

variable {u : Audit σ} {d : Disk} {s t : Session σ} {site : Site σ} {directory : String}
  {settings : Settings} {genesis : BlockId} {store : Store} {r r' : Register}

/-- A pace of a run, with the register that is kept of it. -/
def Paced (a : Auditor σ) (x y : Session σ × Register) : Prop :=
  ∃ more, a.Pace x.1 more y.1 ∧ y.2 = x.2.next more y.1.store

/-- A moment of following the chain: a manifest was taken over or not, and then it went on
by paces. -/
def Moment (u : Audit σ) (settings : Settings) (genesis : BlockId) (s : Session σ) (r : Register)
    (t : Session σ) (r' : Register) : Prop :=
  ∃ s₁ r₁, (s₁.store = s.store ∧ r₁ = r ∨
      ∃ manifest, s₁.store = (s.store.bootstrap manifest genesis).2 ∧ r₁ = r.next [] s₁.store) ∧
    Relation.ReflTransGen (Paced ⟨u.node, settings⟩) (s₁, r₁) (t, r')

/-- The register can be kept along any way that goes by paces. -/
theorem exists_paced {a : Auditor σ} (r : Register)
    (path : Relation.ReflTransGen (fun s t => ∃ more, a.Pace s more t) s t) :
    ∃ r', Relation.ReflTransGen (Paced a) (s, r) (t, r') := by
  induction path with
  | refl => exact ⟨r, .refl⟩
  | @tail t u _ last ih =>
    obtain ⟨r', path⟩ := ih
    obtain ⟨more, pace⟩ := last
    exact ⟨r'.next more u.store, path.tail ⟨more, pace, rfl⟩⟩

/-- Without a manifest, following the chain goes by paces. -/
theorem follow_paces (u : Audit σ) (settings : Settings) (genesis : BlockId) :
    Auditor.Paces ⟨u.node, settings⟩ (u.follow settings genesis none) := by
  let a : Auditor σ := ⟨u.node, settings⟩
  have reads : a.Paces (Step.read .store : Step (Session σ) AuditError Ledger) := by
    intro s
    rw [Step.eval_read]
  have enters : a.Paces (Step.onWorld World.enter : Step (Session σ) AuditError Unit) :=
    .modify fun _ => ⟨[], .rest rfl⟩
  have reports : ∀ result, a.Paces (do
      let s ← get
      return ⟨result, s.store.read.toOption.map (·.reconciliations), s.recorder.inactive⟩ :
        Step (Session σ) AuditError Report) := fun _ => Step.Along.get.bind fun _ => .pure _
  refine reads.bind fun l => (Step.Along.within _ _).bind fun first => enters.bind fun _ =>
    (a.runPipeline_paces _ _).attempt.bind fun result => ?_
  rcases result with (e | _ | _) | ⟨⟩
  · exact (Step.Along.pure _).bind reports
  · exact Step.Along.idle.bind reports
  · exact (Step.Along.throw _).bind reports
  · exact (Step.Along.pure _).bind reports

/-- **What following the chain comes to** is a moment of it. -/
theorem follow_moment (u : Audit σ) (settings : Settings) (genesis : BlockId) (s : Session σ)
    (r : Register) (manifest : Option (Except FileFault String)) :
    ∃ r', u.Moment settings genesis s r ((u.follow settings genesis manifest).eval s).2 r' := by
  cases manifest with
  | none =>
    obtain ⟨r', path⟩ := exists_paced r (u.follow_paces settings genesis s)
    exact ⟨r', s, r, .inl ⟨rfl, rfl⟩, path⟩
  | some manifest =>
    let s₁ : Session σ := { s with store := (s.store.bootstrap manifest genesis).2 }
    have seeds : u.follow settings genesis (some manifest) =
        Step.onStore AuditError.store (·.bootstrap manifest genesis) >>= fun _ =>
          u.follow settings genesis none := rfl
    obtain ⟨r', path⟩ := exists_paced (r.next [] s₁.store) (u.follow_paces settings genesis s₁)
    rw [seeds, Step.eval_bind, Step.eval_onStore]
    cases (s.store.bootstrap manifest genesis).1 with
    | error e => exact ⟨_, s₁, _, .inr ⟨manifest, rfl, rfl⟩, .refl⟩
    | ok n => exact ⟨r', s₁, _, .inr ⟨manifest, rfl, rfl⟩, path⟩

end Audit

/-! ## Runs on a directory

A run that is killed leaves the file of some moment, one that ends leaves that of its last. -/

/-- The files after any number of runs on a directory, which had no store at first, and the
blocks of which the file there tells. The runs may be configured in different ways and have
different nodes. -/
inductive Files.AfterRuns (directory : String) : Files → List Block → Prop where
  | fresh {f : Files} (absent : ∀ d, f.disk directory = .ok d → d.entry = .absent) :
      AfterRuns directory f []
  /-- Other files change, or writing begins or ceases to work. -/
  | between {f g : Files} {filed : List Block} (after : AfterRuns directory f filed)
      (same : ∀ d, g.disk directory = .ok d →
        ∃ d', f.disk directory = .ok d' ∧ d.entry = d'.entry) : AfterRuns directory g filed
  /-- A run is killed at some moment. -/
  | killed {σ : Type} {u : Audit σ} {site : Site σ} {settings : Settings} {genesis : BlockId}
      {d : Disk} {store : Store} {t : Session σ} {filed : List Block} {r : Register}
      (after : AfterRuns directory site.files filed) (words : u.node.InLimits)
      (word : genesis.InLimits) (placed : site.files.disk directory = .ok d)
      (opened : Store.openAt d = .ok store)
      (moment : u.Moment settings genesis (u.session site store) ⟨filed, filed⟩ t r) :
      AfterRuns directory (site.files.setDisk directory t.store.disk) r.filed
  /-- A run ends and its store is closed. -/
  | closed {σ : Type} {u : Audit σ} {site : Site σ} {settings : Settings} {genesis : BlockId}
      {d : Disk} {store : Store} {t : Session σ} {filed : List Block} {r : Register}
      (after : AfterRuns directory site.files filed) (words : u.node.InLimits)
      (word : genesis.InLimits) (placed : site.files.disk directory = .ok d)
      (opened : Store.openAt d = .ok store)
      (moment : u.Moment settings genesis (u.session site store) ⟨filed, filed⟩ t r) :
      AfterRuns directory (site.files.setDisk directory t.store.close.2.disk)
        (r.next [] t.store.close.2).filed

namespace Audit

variable {u : Audit σ} {d : Disk} {s t : Session σ} {site : Site σ} {directory : String}
  {settings : Settings} {genesis : BlockId} {store : Store} {filed : List Block}

/-- Following the chain on a directory is one more run there. -/
theorem followOn_after (settings : Settings) (after : site.files.AfterRuns directory filed)
    (words : u.node.InLimits) (word : genesis.InLimits) : ∃ filed',
      ((u.followOn settings genesis directory).eval site).2.files.AfterRuns directory filed' := by
  rw [followOn, Step.eval_bind, Step.eval_get]
  dsimp only
  rw [Step.eval_bind, Step.eval_ofExcept]
  cases placed : site.files.disk directory with
  | error fault => exact ⟨filed, after⟩
  | ok d =>
    dsimp only [Except.mapError]
    rw [Step.eval_bind, Step.eval_ofExcept]
    cases opened : Store.openAt d with
    | error e => exact ⟨filed, after⟩
    | ok store =>
      dsimp only [Except.mapError]
      obtain ⟨r, moment⟩ := u.follow_moment settings genesis (u.session site store)
        ⟨filed, filed⟩ (site.files.read? u.config.bootstrapBalances)
      rw [session] at moment
      generalize (u.follow settings genesis (site.files.read? u.config.bootstrapBalances)).eval
        { world := site.world, store := store.withInterval u.config.storeFlushInterval } = o
        at moment ⊢
      obtain ⟨report, t⟩ := o
      dsimp only at moment ⊢
      rw [Step.eval_bind, Step.eval_set]
      -- A store is closed after an error too; a run that does not end leaves it as it is.
      cases report with
      | error stop =>
        cases stop with
        | failed e => exact ⟨_, .closed after words word placed opened moment⟩
        | idle => exact ⟨_, .killed after words word placed opened moment⟩
        | overflow => exact ⟨_, .killed after words word placed opened moment⟩
      | ok report =>
        refine ⟨(r.next [] t.store.close.2).filed, ?_⟩
        show Files.AfterRuns directory ((Step.ofExcept AuditError.store t.store.close.1 >>=
          fun _ => pure report : Step (Site σ) AuditError Report).eval { site with
            world := t.world
            files := site.files.setDisk directory t.store.close.2.disk }).2.files _
        rw [Step.eval_bind, Step.eval_ofExcept]
        have leaves := Files.AfterRuns.closed after words word placed opened moment
        cases closing : t.store.close.1 with
        | error e => exact leaves
        | ok => exact leaves

theorem settings_leaves_files (u : Audit σ) : Step.Leaves Site.files u.settings := by
  have loads : ∀ r : Except ConfigError (List Holding), Step.Leaves Site.files
      (Step.ofExcept .config r : Step (Site σ) AuditError (List Holding)) :=
    fun r s => by cases r <;> rfl
  intro s
  exact ((loads _).bind fun _ => (loads _).bind fun _ => .pure _) s

theorem localize_leaves_files (u : Audit σ) (settings : Settings) (genesis : BlockId) (h : Holding)
    (observed : BlockId) : Step.Leaves Site.files (u.localize settings genesis h observed) := by
  intro s
  rw [localize, Step.eval_bind, Step.eval_get]
  dsimp only
  generalize ((⟨u.node, settings⟩ : Auditor σ).findMissing h observed.index
    u.config.lookbackWindow genesis.index).eval ⟨s.world, s.scratch⟩ = o
  obtain ⟨r, t⟩ := o
  dsimp only
  rw [Step.eval_bind, Step.eval_set]
  rcases r with (e | _ | _) | b <;> rfl

/-- The audit works in the directory, whatever network its node is of. -/
def WorksIn (u : Audit σ) (site : Site σ) (directory : String) : Prop :=
  ∀ st w, site.world.call u.node.status = (some (.ok st), w) → u.directory st.network = directory

theorem eval_ask {α : Type} (call : σ → Answer α × σ) (s : Site σ) :
    (Site.ask call : Step (Site σ) AuditError α).eval s =
      (match (s.world.call call).1 with
        | some r => r.mapError (fun e => .failed (.fetch e))
        | none => .error .idle, { s with world := (s.world.call call).2 }) := by
  rw [Site.ask, Step.eval_bind, Step.eval_get]
  dsimp only
  rcases s.world.call call with ⟨_ | reply, w⟩
  · rfl
  · show (Step.ofExcept _ reply : Step (Site σ) AuditError _).eval _ = _
    rw [Step.eval_ofExcept]

/-- **A whole audit** is one more run on its directory, whatever it comes to. -/
theorem run_after (after : site.files.AfterRuns directory filed) (words : u.node.InLimits)
    (there : u.WorksIn site directory) :
    ∃ filed', (u.run.eval site).2.files.AfterRuns directory filed' := by
  rw [run, Step.eval_bind, eval_ask]
  rcases called : site.world.call u.node.status with ⟨_ | e | st, w⟩
  · exact ⟨filed, after⟩
  · exact ⟨filed, after⟩
  -- From here on the run knows its directory, and only one step writes to it.
  · have word : st.genesis.InLimits :=
      words.genesis site.world.node st (congrArg Prod.fst called)
    dsimp only [Except.mapError]
    rw [Step.eval_bind]
    have after₁ : (u.settings.eval { site with world := w }).2.files.AfterRuns directory filed := by
      rw [u.settings_leaves_files]
      exact after
    rcases loaded : u.settings.eval { site with world := w } with ⟨stop | settings, site₁⟩
    · rw [loaded] at after₁
      exact ⟨filed, after₁⟩
    · rw [loaded] at after₁
      dsimp only
      rw [Step.eval_bind, there st w called]
      obtain ⟨filed', after₂⟩ := followOn_after settings after₁ words word
      rcases followed : (u.followOn settings st.genesis directory).eval site₁ with
        ⟨stop | report, site₂⟩
      · rw [followed] at after₂
        exact ⟨filed', after₂⟩
      · rw [followed] at after₂
        dsimp only
        rw [Step.eval_bind, Step.eval_get]
        dsimp only
        split
        · exact ⟨filed', after₂⟩
        · -- A search has stores of its own.
          rw [u.localize_leaves_files]
          exact ⟨filed', after₂⟩

end Audit

/-! ## The tenure of the runs

By induction on the runs: a tenure comes to the file that each of them leaves. -/

/-- The tenure has come to the store, which is on the place `d` or has a file of its own. -/
def Store.Serving (d : Disk) (s : Store) (r : Register) : Prop :=
  Tenure s r ∧ (s.disk = d ∨ ∃ text, s.disk.text? = some text)

/-- The directory has what some tenure left there. -/
def Files.Held (f : Files) (directory : String) (filed : List Block) : Prop :=
  ∃ s r, Tenure s r ∧ r.filed = filed ∧ ∀ d, f.disk directory = .ok d → d.entry = s.disk.entry

namespace Store.Serving

variable {d : Disk} {s t : Store} {r r' : Register}

theorem of_disk (serving : s.Serving d r) (tenure : Tenure t r')
    (disk : t.disk = s.disk ∨ t.UpToDate) : t.Serving d r' := by
  refine ⟨tenure, ?_⟩
  rcases disk with same | written
  · rw [same]
    exact serving.2
  · exact .inr ⟨_, written⟩

theorem seed (serving : s.Serving d r) (manifest : Except FileFault String)
    {genesis : BlockId} (word : genesis.InLimits) :
    (s.bootstrap manifest genesis).2.Serving d (r.next [] (s.bootstrap manifest genesis).2) :=
  serving.of_disk (serving.1.seed manifest word) (Store.bootstrap_disk s manifest genesis)

theorem close (serving : s.Serving d r) : s.close.2.Serving d (r.next [] s.close.2) :=
  serving.of_disk serving.1.close (Store.close_disk s)

theorem pace {a : Auditor σ} {x y : Session σ} {more : List Block}
    (serving : x.store.Serving d r) (words : a.node.InLimits) (pace : a.Pace x more y) :
    y.store.Serving d (r.next more y.store) := by
  refine serving.of_disk (serving.1.pace words pace) ?_
  cases pace with
  | rest same => exact .inl (congrArg Store.disk same)
  | check _ raised => exact .inl (by rw [raised]; rfl)
  | enter _ _ _ committed =>
    rw [committed]
    exact Store.commit_disk_or _ _

/-- The tenure goes on to every moment of a run. -/
theorem moment {u : Audit σ} {settings : Settings} {genesis : BlockId} {x y : Session σ}
    (serving : x.store.Serving d r) (words : u.node.InLimits) (word : genesis.InLimits)
    (moment : u.Moment settings genesis x r y r') : y.store.Serving d r' := by
  obtain ⟨x₁, r₁, begins, path⟩ := moment
  have serving₁ : x₁.store.Serving d r₁ := by
    rcases begins with ⟨same, rfl⟩ | ⟨manifest, same, rfl⟩
    · rwa [same]
    · rw [same]
      exact serving.seed manifest word
  -- The path is one of sessions with their registers.
  suffices along : ∀ z : Session σ × Register,
      Relation.ReflTransGen (Audit.Paced ⟨u.node, settings⟩) (x₁, r₁) z →
        z.1.store.Serving d z.2 from along _ path
  intro z path
  induction path with
  | refl => exact serving₁
  | tail _ last ih =>
    obtain ⟨more, pace, eq⟩ := last
    rw [eq]
    exact ih.pace words pace

end Store.Serving

namespace Files

variable {f : Files} {directory : String} {filed : List Block} {d : Disk} {store : Store}
  {r : Register}

/-- What is opened in the directory serves there. -/
theorem Held.serving {u : Audit σ} {site : Site σ} (held : site.files.Held directory filed)
    (placed : site.files.disk directory = .ok d) (opened : Store.openAt d = .ok store) :
    (u.session site store).store.Serving d ⟨filed, filed⟩ := by
  obtain ⟨s, r, tenure, rfl, left⟩ := held
  exact ⟨tenure.reopen (left d placed) opened _, .inl (Store.openAt_cases opened).2.2.2.1⟩

/-- What a store left is found in the directory. -/
theorem held_setDisk (placed : f.disk directory = .ok d) (serving : store.Serving d r) :
    (f.setDisk directory store.disk).Held directory r.filed := by
  obtain ⟨tenure, place⟩ := serving
  refine ⟨store, r, tenure, rfl, fun d' placed' => ?_⟩
  cases left : store.disk.entry with
  | file text =>
    have found : store.disk.text? = some text := by rw [Disk.text?, left]
    rw [disk_setDisk placed found] at placed'
    cases placed'
    rfl
  | absent | directory =>
    -- Nothing was written, so that the place is as it was.
    have nothing : store.disk.text? = none := by rw [Disk.text?, left]
    have same := place.resolve_right (by simp [nothing])
    rw [setDisk, nothing] at placed'
    rw [← left, same, Except.ok.inj (placed'.symm.trans placed)]

/-- **Some tenure has come to what is in the directory**, by induction on the runs. -/
theorem AfterRuns.held (after : f.AfterRuns directory filed) : f.Held directory filed := by
  induction after with
  | fresh absent => exact ⟨_, _, .founded true 0, rfl, absent⟩
  | between _ same ih =>
    obtain ⟨s, r, tenure, filed, left⟩ := ih
    refine ⟨s, r, tenure, filed, fun d placed => ?_⟩
    obtain ⟨d', placed', entry⟩ := same d placed
    exact entry.trans (left d' placed')
  | killed _ words word placed opened moment held =>
    exact held_setDisk placed ((held.serving placed opened).moment words word moment)
  | closed _ words word placed opened moment held =>
    exact held_setDisk placed ((held.serving placed opened).moment words word moment).close

end Files

/-! ## Counters

At each moment the ledger is that of a tenure, which mirrors its register. -/

theorem Chain.node_inLimits {c : Chain}
    (blocks : ∀ i b, c.blocks.find? i = some b → Block.InLimits b)
    (genesis : ∀ st, c.status = .ok st → st.genesis.InLimits) : c.node.InLimits where
  block b := by
    rintro ⟨i, w, reply⟩
    exact blocks i b (Except.ok.inj (Option.some.inj reply))
  genesis w st reply := genesis st (Option.some.inj reply)

namespace Audit

variable {u : Audit σ} {d : Disk} {site : Site σ} {directory : String} {settings : Settings}
  {genesis : BlockId} {store : Store} {filed : List Block}

/-- **The counters mirror the store.** After any number of runs on a directory, a run opens
it and follows the chain by moments. At each of them the blocks of the store are those that
the runs took over, and the counters are those of these blocks and of the records, up to the
greatest count. -/
theorem counters_mirror (after : site.files.AfterRuns directory filed) (words : u.node.InLimits)
    (settings : Settings) (word : genesis.InLimits) (placed : site.files.disk directory = .ok d)
    (opened : Store.openAt d = .ok store) :
    (∀ t r, u.Moment settings genesis (u.session site store) ⟨filed, filed⟩ t r →
      t.store.ledger.Mirrors r.kept ∧ t.store.ledger.blocks.entries.length = r.kept.length) ∧
    (∀ manifest, ∃ r, u.Moment settings genesis (u.session site store) ⟨filed, filed⟩
      ((u.follow settings genesis manifest).eval (u.session site store)).2 r) ∧
    (u.WorksIn site directory →
      ∃ filed', (u.run.eval site).2.files.AfterRuns directory filed') :=
  ⟨fun _ _ moment => ((after.held.serving placed opened).moment words word moment).1.mirrored,
    u.follow_moment settings genesis _ _, run_after after words⟩

/-- A run is killed before the block that it took over is written. The next one takes the
block over again, and it is counted once. -/
theorem counters_mirror_killed :
    let u : Audit Unit := ⟨Chain.gap.node, {}⟩
    let b : Block := .changing .alice ⟨0, "a"⟩ ⟨0, "a"⟩ [.whole 1]
    let site : Site Unit := { world := { node := () } }
    ∃ t : Session Unit,
      u.Moment {} ⟨0, "a"⟩ (u.session site { persistent := true }) ⟨[], []⟩ t ⟨[b], []⟩ ∧
        (site.files.setDisk "d" t.store.disk).AfterRuns "d" [] ∧ u.node.InLimits ∧
        (site.files.setDisk "d" t.store.disk).disk "d" = .ok {} ∧
        t.store.ledger.Mirrors [b] ∧ t.store.ledger.blocks.entries.length = 1 := by
  intro u b site
  have words : u.node.InLimits := by
    have blocks : ∀ e ∈ Chain.gap.blocks.entries, Block.InLimits e.2 := by decide +kernel
    refine Chain.node_inLimits (fun i b' found => ?_) fun st known => ?_
    · exact blocks _ (Table.find?_eq_some_iff.mp found)
    · cases known
      decide
  let s : Session Unit := u.session site { persistent := true }
  let batch : Batch := .changing b [⟨.alice, ⟨0, "a"⟩, .whole 1, .whole 1, true⟩]
  let t : Session Unit := { s with store := (s.store.commit batch).2 }
  have staged : (Auditor.stageBalances ⟨u.node, {}⟩ b (Batch.ofBlock b)).eval s = (.ok batch, s) :=
    Prod.ext (by decide +kernel) rfl
  -- One block has entered the store in memory, its interval is longer, and the audit is killed
  -- there.
  have enters : Auditor.Pace ⟨u.node, {}⟩ s [b] t :=
    .enter ⟨0, (), rfl⟩ staged
      (by decide +kernel) rfl
  have moment : u.Moment {} ⟨0, "a"⟩ s ⟨[], []⟩ t ⟨[b], []⟩ :=
    ⟨s, ⟨[], []⟩, .inl ⟨rfl, rfl⟩, .single ⟨[b], enters, rfl⟩⟩
  have fresh : site.files.AfterRuns "d" [] := .fresh fun d placed => by
    cases (Files.disk_of_empty rfl "d").symm.trans placed
    rfl
  have word : BlockId.InLimits ⟨0, "a"⟩ := by decide
  let site' : Site Unit := { site with files := site.files.setDisk "d" t.store.disk }
  have after : site'.files.AfterRuns "d" [] :=
    .killed fresh words word (Files.disk_of_empty rfl "d") rfl moment
  have placed : site'.files.disk "d" = .ok {} := Files.disk_of_empty rfl "d"
  obtain ⟨mirrors, once⟩ := (counters_mirror after words {} word placed rfl).1 t _ moment
  exact ⟨t, moment, after, words, placed, mirrors, once⟩

end Audit

end BalanceAudit
