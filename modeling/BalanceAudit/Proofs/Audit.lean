import BalanceAudit.Audit
import BalanceAudit.Proofs.Served
import BalanceAudit.Proofs.Step

/-!
# What an audit makes of a run

Around following the chain an audit opens a store, closes it and turns the outcome
into a verdict.

- `Site.Stores`: the ledger in the file of a directory; `Site.Wrote`: no other file was
  written; `Site.Dropped`: nothing was, behind what the run had saved.
- `Ledger.verdict`: the verdict if nothing was wrong; `Session.verdict`: that after a run
  without a failed sweep.
- `Audit.follow_ends`: following the chain is a run under a token of its own.
- `Audit.followOn_ends`: the store of a run that ends is written and closed; where an index
  overflows it is dropped.
- `Audit.run_ends`: a whole audit, from what its run comes to.
- `Audit.run_of_astray`: behind a head without a next index there is no run at all.
-/

namespace BalanceAudit

/-- The file of the store in a directory has the ledger. -/
def Site.Stores {σ : Type} (site : Site σ) (directory : String) (l : Ledger) : Prop :=
  site.files.texts.find? (Files.spelling (Files.storePath directory)) = some l.toJson.pretty

/-- The file of the store in the directory was written with the ledger, and no other. -/
def Site.Wrote {σ : Type} (site site' : Site σ) (directory : String) (l : Ledger) : Prop :=
  ∃ d : Disk, d.text? = some l.toJson.pretty ∧ site'.files = site.files.setDisk directory d

/-- The store of the directory was dropped as a run left it. -/
def Site.Dropped {σ : Type} (site site' : Site σ) (directory : String) (t : Session σ) : Prop :=
  site'.world = t.world ∧ site'.files = site.files.setDisk directory t.store.disk

theorem Site.Wrote.stores {σ : Type} {site site' : Site σ} {directory : String} {l : Ledger}
    (wrote : site.Wrote site' directory l) : site'.Stores directory l := by
  obtain ⟨d, text, files⟩ := wrote
  unfold Stores
  rw [files, Files.setDisk, text]
  exact Table.find?_insert_self _ _ _

/-- The verdict on a ledger where nothing was found wrong. -/
def Ledger.verdict (l : Ledger) : Verdict :=
  if l.reconciliations.value = 0 then .passedUnchecked else .passed

/-- What a run without a failed sweep comes to, which ended with an error or
without one. -/
def Session.verdict {σ : Type} (t : Session σ) (error : Option PipelineError) : Verdict :=
  if t.world.cancellation.aborted then .halted
  else
    match error with
    | some e => .failed e.message
    | none => t.store.ledger.verdict

/-- A directory tree without files has an absent store everywhere. -/
theorem Files.disk_of_empty {f : Files} (empty : f.texts = ∅) (directory : String) :
    f.disk directory = .ok ⟨.absent, f.writable⟩ := by
  have nothing : ∀ path, f.texts.contains path = false := by
    intro path
    rw [empty]
    rfl
  have fine : f.directoryFault? directory = none := by
    unfold directoryFault?
    simp [nothing]
  have missing : f.read (storePath directory) = .error .missing := by
    unfold read
    rw [empty]
    rfl
  unfold disk
  rw [fine, missing]

namespace Audit

variable {σ : Type} {u : Audit σ} {settings : Settings} {genesis : BlockId} {directory : String}
  {site : Site σ} {disk : Disk} {store : Store}

/-- The session in which an audit follows the chain. -/
def session (u : Audit σ) (site : Site σ) (store : Store) : Session σ :=
  { world := site.world, store := store.withInterval u.config.storeFlushInterval }

/-- The session in which its run starts. -/
def entered (u : Audit σ) (site : Site σ) (store : Store) : Session σ :=
  { u.session site store with world := site.world.enter }

theorem session_open (u : Audit σ) (site : Site σ)
    (opened : Store.openAt disk = .ok store) (writable : disk.writable = true) :
    (u.session site store).store.closed = false ∧ (u.session site store).store.persistent = true ∧
      (u.session site store).store.canWrite = true := by
  obtain ⟨isOpen, persistent, _, same, file⟩ := Store.openAt_cases opened
  refine ⟨isOpen, persistent, ?_⟩
  show (!store.persistent || (store.disk.writable && store.disk.entry != .directory)) = true
  rw [same, writable]
  simp [file]

/-- **Following the chain** without a manifest is a run under a token of its own. Where
that overflows so does this. -/
theorem follow_ends (isOpen : (u.session site store).store.closed = false) {first : Int}
    (begins : u.firstIndex? genesis store.ledger = some first)
    {Q : Option PipelineError → Session σ → Prop} {O : Overflow → Session σ → Prop}
    (run : (Auditor.runPipeline ⟨u.node, settings⟩ first u.config.endIndex).Ends
      (u.entered site store)
      (fun _ t => Q none t ∧ (u.session site store).store.SameMode t.store)
      (fun stop t =>
        (∃ cause, stop = .failed cause ∧ Q (some cause) t ∧
          (u.session site store).store.SameMode t.store) ∨
        ∃ what, stop = .overflow what ∧ O what t)) :
    (u.follow settings genesis none).Ends (u.session site store)
      (fun r t => (∃ e : Option PipelineError, r = ⟨e.elim (.ok ()) .error,
          some t.store.ledger.reconciliations, t.recorder.inactive⟩ ∧ Q e t) ∧
        (u.session site store).store.SameMode t.store)
      (fun stop t => ∃ what, stop = .overflow what ∧ O what t) := by
  -- The run leaves the store open, so that its counters can be read for the report.
  have known : ∀ t : Session σ, (u.session site store).store.SameMode t.store →
      t.store.read.toOption.map (·.reconciliations) = some t.store.ledger.reconciliations := by
    intro t mode
    rw [Store.read_of_open (mode.closed.trans isOpen)]
    rfl
  unfold follow
  rw [Step.ends_bind]
  refine Step.ends_of_ok (Step.eval_read_of_open isOpen) ?_
  show Step.Ends (Step.within .next (u.firstIndex? genesis store.ledger) >>= _) _ _ _
  rw [begins, Step.ends_bind]
  show Step.Ends (Step.onWorld World.enter >>= _) _ _ _
  rw [Step.ends_bind]
  refine Step.ends_of_ok (Step.eval_onWorld _ _) ?_
  show Step.Ends (Step.attempt (Auditor.runPipeline _ first u.config.endIndex) >>= _)
    (u.entered site store) _ _
  rw [Step.ends_bind, Step.ends_attempt]
  refine run.mono ?_ ?_
  · rintro _ t ⟨holds, mode⟩
    refine ⟨⟨none, ?_, holds⟩, mode⟩
    rw [← known t mode]
    rfl
  · rintro _ t (⟨cause, rfl, holds, mode⟩ | ⟨what, rfl, overflows⟩)
    · refine ⟨⟨some cause, ?_, holds⟩, mode⟩
      rw [← known t mode]
      rfl
    · exact ⟨what, rfl, overflows⟩

/-- Behind a head without a next index there is nothing to follow. -/
theorem follow_of_astray (isOpen : (u.session site store).store.closed = false)
    (ends : u.firstIndex? genesis store.ledger = none) :
    (u.follow settings genesis none).eval (u.session site store) =
      (.error (.overflow .next), u.session site store) := by
  unfold follow
  rw [Step.eval_bind, Step.eval_read_of_open isOpen]
  show Step.eval (Step.within .next (u.firstIndex? genesis store.ledger) >>= _) _ = _
  rw [ends, Step.eval_bind]
  rfl

/-- **The store of a run that ends is written and closed**, and its file has what
the run left in memory. If an index overflows the store is dropped. -/
theorem followOn_ends (site : Site σ) (placed : site.files.disk directory = .ok disk)
    (opened : Store.openAt disk = .ok store) (writable : disk.writable = true)
    {Q : Report → Session σ → Prop} {O : Overflow → Session σ → Prop}
    (follow : (u.follow settings genesis (site.files.read? u.config.bootstrapBalances)).Ends
      (u.session site store)
      (fun r t => Q r t ∧ (u.session site store).store.SameMode t.store)
      (fun stop t => ∃ what, stop = .overflow what ∧ O what t)) :
    (u.followOn settings genesis directory).Ends site
      (fun r site' => ∃ t, Q r t ∧ site'.world = t.world ∧
        site.Wrote site' directory t.store.ledger)
      (fun stop site' => ∃ what t, stop = .overflow what ∧ O what t ∧
        site.Dropped site' directory t) := by
  obtain ⟨isOpen, persistent, works⟩ := session_open u site opened writable
  unfold followOn
  rw [Step.ends_bind, Step.ends_get, placed, Step.ends_bind, Step.ends_ofExcept_ok, opened,
    Step.ends_bind, Step.ends_ofExcept_ok]
  rcases finished : (u.follow settings genesis
      (site.files.read? u.config.bootstrapBalances)).eval (u.session site store) with
    ⟨stop | report, t⟩
  · obtain ⟨what, rfl, overflows⟩ := follow.of_error finished
    unfold session at finished
    rw [finished]
    exact ⟨what, t, rfl, overflows, rfl, rfl⟩
  · obtain ⟨holds, mode⟩ := follow.of_ok finished
    -- The store was opened from a file that can be written, and the run left it so.
    have closes : t.store.close.1 = .ok () := by
      rw [Store.close_result (mode.closed.trans isOpen), mode.canWrite, works]
      rfl
    have text := Store.close_text (mode.closed.trans isOpen) (mode.persistent.trans persistent)
      (mode.canWrite.trans works)
    unfold session at finished
    rw [finished]
    show Step.Ends (set _ >>= _) site _ _
    rw [Step.ends_bind, Step.ends_set]
    show Step.Ends (Step.ofExcept AuditError.store t.store.close.1 >>= fun _ => pure report) _ _ _
    rw [closes, Step.ends_bind, Step.ends_ofExcept_ok]
    exact ⟨t, holds, rfl, _, text, rfl⟩

end Audit

section Whole

variable {σ : Type} {u : Audit σ} {site : Site σ} {world : World σ} {st : NetworkStatus}
  {interesting exempt : List Holding} {disk : Disk} {store : Store}

theorem Site.ask_status_ends (status : site.world.call u.node.status = (some (.ok st), world)) :
    (Site.ask u.node.status : Step (Site σ) AuditError _).Ends site
      (fun reply site' => reply = st ∧ site' = { site with world }) (fun _ _ => False) := by
  unfold Site.ask
  rw [Step.ends_bind, Step.ends_get, status]
  show Step.Ends (set { site with world } >>= fun _ => Step.ofExcept AuditError.fetch (.ok st)) site
    _ _
  rw [Step.ends_bind, Step.ends_set, Step.ends_ofExcept_ok]
  exact ⟨rfl, rfl⟩

/-- The node of a chain answers at once. -/
theorem Chain.call_status {c : Chain} (status : c.status = .ok st) (world : World Unit) :
    world.call c.node.status = (some (.ok st), world) := by
  show (some c.status, world) = _
  rw [status]

theorem Audit.settings_ends (site : Site σ)
    (listed : loadHoldings (site.files.read? u.config.interestingAccounts) = .ok interesting)
    (spared : loadHoldings (site.files.read? u.config.exemptAccounts) = .ok exempt) :
    u.settings.Ends site
      (fun settings site' =>
        settings = Settings.ofConfig u.config interesting exempt ∧ site' = site)
      (fun _ _ => False) := by
  unfold Audit.settings
  rw [Step.ends_bind, Step.ends_get]
  show Step.Ends (Step.ofExcept AuditError.config
      (loadHoldings (site.files.read? u.config.interestingAccounts)) >>= fun interesting =>
    Step.ofExcept AuditError.config (loadHoldings (site.files.read? u.config.exemptAccounts)) >>=
      fun exempt => pure (Settings.ofConfig u.config interesting exempt)) site _ _
  rw [listed, Step.ends_bind, Step.ends_ofExcept_ok, spared, Step.ends_bind,
    Step.ends_ofExcept_ok]
  exact ⟨rfl, rfl⟩

section Asked

-- The node answers at once, the lists can be read, nothing is seeded and the store can be
-- opened and written.
variable (status : site.world.call u.node.status = (some (.ok st), world))
  (listed : loadHoldings (site.files.read? u.config.interestingAccounts) = .ok interesting)
  (spared : loadHoldings (site.files.read? u.config.exemptAccounts) = .ok exempt)
  (unseeded : u.config.bootstrapBalances = none)
  (placed : site.files.disk (u.directory st.network) = .ok disk)
  (opened : Store.openAt disk = .ok store) (writable : disk.writable = true)

include status listed spared unseeded placed opened writable

/-- An audit, from what following the chain comes to: without a failed sweep its verdict
follows from how the run ended. -/
theorem Audit.run_of_follow {Q : Option PipelineError → Session σ → Prop}
    {O : Overflow → Session σ → Prop}
    (follow : (u.follow (Settings.ofConfig u.config interesting exempt) st.genesis none).Ends
      (u.session { site with world } store)
      (fun r t => (∃ e : Option PipelineError, r = ⟨e.elim (.ok ()) .error,
          some t.store.ledger.reconciliations, t.recorder.inactive⟩ ∧ Q e t) ∧
        (u.session { site with world } store).store.SameMode t.store)
      (fun stop t => ∃ what, stop = .overflow what ∧ O what t))
    (swept : ∀ e t, Q e t → t.recorder.inactive = none) :
    u.run.Ends site
      (fun v site' => ∃ e t, v = Session.verdict t e ∧ Q e t ∧
        site.Wrote site' (u.directory st.network) t.store.ledger)
      (fun stop site' => ∃ what t, stop = .overflow what ∧ O what t ∧
        site.Dropped site' (u.directory st.network) t) := by
  have manifest : site.files.read? u.config.bootstrapBalances = none := by
    rw [unseeded]
    rfl
  rw [← manifest] at follow
  unfold Audit.run
  rw [Step.ends_bind]
  refine (Site.ask_status_ends status).mono ?_ fun _ _ h => h.elim
  rintro st _ ⟨rfl, rfl⟩
  rw [Step.ends_bind]
  refine (Audit.settings_ends { site with world } listed spared).mono ?_
    fun _ _ h => h.elim
  rintro settings _ ⟨rfl, rfl⟩
  rw [Step.ends_bind]
  refine (Audit.followOn_ends { site with world } placed opened writable follow).mono ?_
    fun _ _ h => h
  rintro _ site' ⟨t, ⟨e, rfl, holds⟩, world, wrote⟩
  rw [Step.ends_bind, Step.ends_get]
  have aborted : site'.isAborted = t.world.cancellation.aborted := by
    unfold Site.isAborted
    rw [world]
  -- Without sweeps no failure of theirs was kept, and the ending does not call for a search.
  have concluded : Ending.conclusion ⟨site'.isAborted, e,
      some t.store.ledger.reconciliations, t.recorder.inactive, u.config.lookup⟩ =
      .verdict (Session.verdict t e) := by
    rw [aborted, swept e t holds]
    unfold Ending.conclusion Session.verdict
    by_cases quit : t.world.cancellation.aborted = true
    · rw [if_pos quit, if_pos quit]
    · rw [if_neg quit, if_neg quit]
      cases e <;> rfl
  dsimp only
  split
  · next v found =>
    have same : v = Session.verdict t e := by
      cases e <;> cases found.symm.trans concluded <;> rfl
    exact ⟨e, t, same, holds, wrote⟩
  · next found => cases e <;> cases found.symm.trans concluded

/-- **A whole audit** whose run meets no failed sweep: its verdict follows from how
the run ended, and only its file is written, with what was followed. If an index overflows
there is no verdict. -/
theorem Audit.run_ends {first : Int}
    (begins : u.firstIndex? st.genesis store.ledger = some first)
    {Q : Option PipelineError → Session σ → Prop} {O : Overflow → Session σ → Prop}
    (run : (Auditor.runPipeline ⟨u.node, Settings.ofConfig u.config interesting exempt⟩ first
        u.config.endIndex).Ends (u.entered { site with world } store)
      (fun _ t => Q none t ∧ (u.session { site with world } store).store.SameMode t.store)
      (fun stop t =>
        (∃ cause, stop = .failed cause ∧ Q (some cause) t ∧
          (u.session { site with world } store).store.SameMode t.store) ∨
        ∃ what, stop = .overflow what ∧ O what t))
    (swept : ∀ e t, Q e t → t.recorder.inactive = none) :
    u.run.Ends site
      (fun v site' => ∃ e t, v = Session.verdict t e ∧ Q e t ∧
        site.Wrote site' (u.directory st.network) t.store.ledger)
      (fun stop site' => ∃ what t, stop = .overflow what ∧ O what t ∧
        site.Dropped site' (u.directory st.network) t) :=
  Audit.run_of_follow status listed spared unseeded placed opened writable
    (Audit.follow_ends (Audit.session_open u { site with world } opened writable).1 begins run)
    swept

/-- **Behind a head without a next index there is no run**, and the store is dropped. -/
theorem Audit.run_of_astray (ends : u.firstIndex? st.genesis store.ledger = none) :
    ∃ site', u.run.eval site = (.error (.overflow .next), site') ∧
      site.Dropped site' (u.directory st.network) (u.session { site with world } store) := by
  have ran := Audit.run_of_follow (Q := fun _ _ => False)
    (O := fun what t => what = .next ∧ t = u.session { site with world } store)
    status listed spared unseeded placed opened writable
    (by
      unfold Step.Ends
      rw [Audit.follow_of_astray (Audit.session_open u { site with world } opened writable).1 ends]
      exact ⟨_, rfl, rfl, rfl⟩)
    fun _ _ => False.elim
  rcases eq : u.run.eval site with ⟨stop | v, site'⟩
  · obtain ⟨_, _, rfl, ⟨rfl, rfl⟩, dropped⟩ := ran.of_error eq
    exact ⟨site', rfl, dropped⟩
  · obtain ⟨_, _, _, impossible, _⟩ := ran.of_ok eq
    exact impossible.elim

end Asked

end Whole

end BalanceAudit
