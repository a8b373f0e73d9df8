import BalanceAudit.Proofs.Audit
import BalanceAudit.Proofs.Continued
import BalanceAudit.Proofs.Files
import BalanceAudit.Proofs.Quiet
import BalanceAudit.Proofs.Store.Reopened

/-!
# Splitting an audit

An audit in parts leaves the file and comes to the verdict of an audit in one go,
wherever it is split and however often the file is written. A range up to the greatest index
is an exception: an index overflows there, and the file stays as the run had last saved it.

- `Audit.Plain`: an audit that only follows the chain and checks changes.
- `Audit.Completes`: the audit leaves a ledger and comes to its verdict, or overflows at the
  greatest index.
- `Audit.completes_of_course`: it does from the ledger of a shorter course;
  `Audit.completes_of_killed`: and where an earlier one was killed.
- `Audit.run_split`: **in parts as in one go**; `Audit.run_split_brim`: the exception.
-/

namespace BalanceAudit

/-- Nobody has aborted, and whoever gives up aborts. -/
structure World.Ready {σ : Type} (w : World σ) : Prop where
  surrender : w.surrender = .abort
  running : w.cancellation.aborted = false
  sound : w.cancellation.Sound

/-- The configuration for a run up to `last` that writes its file behind so many
commits. -/
def Config.upTo (config : Config) (last : Int) (interval : Nat) : Config :=
  { config with endIndex := some last, storeFlushInterval := interval }

theorem Session.Led.verdict {σ : Type} {s t : Session σ} {l : Ledger} (led : s.Led l t)
    (running : s.world.cancellation.aborted = false) : t.verdict none = l.verdict := by
  unfold Session.verdict
  rw [led.aborted, running, if_neg Bool.false_ne_true, led.ledger]

/-- Lists that could be read still can when a store has left its file. -/
theorem loadHoldings_setDisk {f : Files} {directory : String} {path : Option String}
    {hs : List Holding} (placed : f.disk directory = .ok ⟨.absent, f.writable⟩)
    (loaded : loadHoldings (f.read? path) = .ok hs) (d : Disk) :
    loadHoldings ((f.setDisk directory d).read? path) = .ok hs := by
  cases path with
  | none => exact loaded
  | some path =>
    have loaded : loadHoldings (some (f.read path)) = .ok hs := loaded
    show loadHoldings (some ((f.setDisk directory d).read path)) = .ok hs
    cases read : f.read path with
    | error fault =>
      rw [read] at loaded
      cases loaded
    | ok text => rwa [Files.read_setDisk placed read, ← read]

namespace Audit

/-- The audit of a chain starts at `first` and sweeps and seeds nothing. -/
structure Plain (c : Chain) (config : Config) (files : Files) (st : NetworkStatus) (first : Int)
    (interesting exempt : List Holding) : Prop where
  status : c.status = .ok st
  start : config.startIndex.getD st.genesis.index = first
  inactive : config.inactiveConcurrency = 0
  unseeded : config.bootstrapBalances = none
  listed : loadHoldings (files.read? config.interestingAccounts) = .ok interesting
  spared : loadHoldings (files.read? config.exemptAccounts) = .ok exempt

variable {c : Chain} {config : Config} {site : Site Unit} {st : NetworkStatus}
  {first last m : Int} {interesting exempt : List Holding} {disk d : Disk} {store : Store}
  {l l₀ : Ledger}

namespace Plain

theorem upTo {files : Files} (plain : Plain c config files st first interesting exempt)
    (last : Int) (interval : Nat) :
    Plain c (config.upTo last interval) files st first interesting exempt :=
  ⟨plain.status, plain.start, plain.inactive, plain.unseeded, plain.listed, plain.spared⟩

theorem setDisk {files : Files} (plain : Plain c config files st first interesting exempt)
    {directory : String} (placed : files.disk directory = .ok ⟨.absent, files.writable⟩)
    (d : Disk) : Plain c config (files.setDisk directory d) st first interesting exempt where
  status := plain.status
  start := plain.start
  inactive := plain.inactive
  unseeded := plain.unseeded
  listed := loadHoldings_setDisk placed plain.listed d
  spared := loadHoldings_setDisk placed plain.spared d

end Plain

/-- A run that is about to start. -/
theorem entered_able {σ : Type} (u : Audit σ) (site : Site σ) (ready : site.world.Ready)
    (opened : Store.openAt disk = .ok store) (writable : disk.writable = true) :
    (u.entered site store).Able := by
  obtain ⟨isOpen, _, works⟩ := session_open u site opened writable
  obtain ⟨calm, _⟩ := World.enter_fresh ready.running ready.sound
  exact ⟨isOpen, works, rfl, rfl, calm⟩

/-- The audit comes to the verdict on a ledger and leaves it in its file, unless the range
ends at the greatest index. There it overflows, and its store is dropped. -/
def Completes (u : Audit Unit) (site : Site Unit) (directory : String) (last : Int) (l : Ledger) :
    Prop :=
  u.run.Ends site
    (fun v site' => last < Index.greatest ∧ v = l.verdict ∧ site.Wrote site' directory l)
    (fun stop site' => stop = .overflow .next ∧ last = Index.greatest ∧
      ∃ t, site.Dropped site' directory t)

namespace Completes

variable {u : Audit Unit} {directory : String}

theorem exists_ok (completes : u.Completes site directory last l) (below : last < Index.greatest) :
    ∃ site', u.run.eval site = (.ok l.verdict, site') ∧ site.Wrote site' directory l := by
  rcases eq : u.run.eval site with ⟨stop | v, site'⟩
  · obtain ⟨_, rfl, _⟩ := Step.Ends.of_error completes eq
    exact absurd below (lt_irrefl _)
  · obtain ⟨_, rfl, wrote⟩ := Step.Ends.of_ok completes eq
    exact ⟨site', rfl, wrote⟩

theorem overflows (completes : u.Completes site directory last l)
    (greatest : last = Index.greatest) : (u.run.eval site).1 = .error (.overflow .next) ∧
      ∃ t, site.Dropped (u.run.eval site).2 directory t := by
  rcases eq : u.run.eval site with ⟨stop | v, site'⟩
  · obtain ⟨rfl, _, dropped⟩ := Step.Ends.of_error completes eq
    exact ⟨rfl, dropped⟩
  · obtain ⟨below, _⟩ := Step.Ends.of_ok completes eq
    exact absurd greatest below.ne

end Completes

section Range

-- All blocks are served, no sum leaves the limits of decimals and no check fails.
variable (linked : c.Linked first last) (inRange : Index.InRange first)
  (high : last ≤ Index.greatest)
  (course : Auditor.course? ⟨c.node, Settings.ofConfig config interesting exempt⟩ c
    (c.segment first last) = some l)

include linked inRange high course

/-- **An audit that goes on with the ledger of a shorter course** leaves that of the
whole range. -/
theorem completes_of_course (plain : Plain c config site.files st first interesting exempt)
    (ready : site.world.Ready) (stop : config.endIndex = some last)
    (placed : site.files.disk (directory ⟨c.node, config⟩ st.network) = .ok disk)
    (writable : disk.writable = true) (opened : Store.openAt disk = .ok store) (le : m ≤ last)
    (before : Auditor.course? ⟨c.node, Settings.ofConfig config interesting exempt⟩ c
      (c.segment first m) = some store.ledger) :
    Completes ⟨c.node, config⟩ site (directory ⟨c.node, config⟩ st.network) last l := by
  have able := entered_able ⟨c.node, config⟩ site ready opened writable
  obtain ⟨_, running, _⟩ := World.enter_fresh ready.running ready.sound
  have status := Chain.call_status plain.status site.world
  have begins : firstIndex? ⟨c.node, config⟩ st.genesis store.ledger =
      store.ledger.resume? first := by
    rw [← plain.start]
    rfl
  -- Unless the text before already ends at the greatest index, the run resumes right behind it.
  rcases Auditor.resume?_cases linked inRange high course le before with
    ⟨r, resumes, _⟩ | ⟨astray, full⟩
  · have run := Auditor.runPipeline_led (s := entered ⟨c.node, config⟩ site store) c.recites able
      linked high course inRange le before resumes plain.inactive
    rw [← stop] at run
    refine (run_ends (Q := fun e t => e = none ∧ last < Index.greatest ∧
        (entered ⟨c.node, config⟩ site store).Led l t)
      (O := fun what _ => what = .next ∧ last = Index.greatest)
      status plain.listed plain.spared plain.unseeded placed opened writable
      (begins.trans resumes)
      (run.mono (fun _ t ⟨below, led⟩ => ⟨⟨rfl, below, led⟩, led.mode⟩)
        fun _ t ⟨same, full⟩ => .inr ⟨.next, same, rfl, full⟩)
      fun e t ⟨_, _, led⟩ => by rw [led.recorder]; rfl).mono ?_ ?_
    · rintro _ site' ⟨_, t, rfl, ⟨rfl, below, led⟩, wrote⟩
      rw [led.ledger] at wrote
      exact ⟨below, led.verdict running, wrote⟩
    · rintro _ site' ⟨_, t, rfl, ⟨rfl, full⟩, dropped⟩
      exact ⟨rfl, full, t, dropped⟩
  · obtain ⟨site', eq, dropped⟩ := run_of_astray status plain.listed plain.spared plain.unseeded
      placed opened writable (begins.trans astray)
    unfold Completes Step.Ends
    rw [eq]
    exact ⟨rfl, full, _, dropped⟩

/-- So does an audit on an empty directory. -/
theorem completes_of_nothing (plain : Plain c config site.files st first interesting exempt)
    (empty : site.files.disk (directory ⟨c.node, config⟩ st.network) = .ok ⟨.absent, true⟩)
    {w : World Unit} (ready : w.Ready) (i : Nat) :
    Completes ⟨c.node, config.upTo last i⟩ { site with world := w }
      (directory ⟨c.node, config⟩ st.network) last l := by
  have plain' : Plain c (config.upTo last i) { site with world := w }.files st first interesting
      exempt := plain.upTo last i
  -- The settings of a run depend neither on its end nor on the interval.
  have course' : Auditor.course?
      ⟨c.node, Settings.ofConfig (config.upTo last i) interesting exempt⟩ c
      (c.segment first last) = some l := course
  have opened : Store.openAt ⟨.absent, true⟩ = .ok { persistent := true } := rfl
  have nothing : c.segment first (min (first - 1) last) = [] := Chain.segment_of_lt (by omega)
  refine completes_of_course linked inRange high course' plain' ready rfl empty rfl opened
    (Int.min_le_right (first - 1) last) ?_
  rw [nothing]
  rfl

variable (words : ∀ b ∈ c.segment first last, Block.InLimits b) (le : m ≤ last)

include words le

/-- So does an audit on the file that one of a shorter course left. -/
theorem completes_of_text (later : Site Unit)
    (plain : Plain c config site.files st first interesting exempt)
    (empty : site.files.disk (directory ⟨c.node, config⟩ st.network) = .ok ⟨.absent, true⟩)
    (ready : later.world.Ready) (i : Nat)
    (files : later.files = site.files.setDisk (directory ⟨c.node, config⟩ st.network) d)
    (before : Auditor.course? ⟨c.node, Settings.ofConfig config interesting exempt⟩ c
      (c.segment first m) = some l₀) (left : d.text? = some l₀.toJson.pretty) :
    Completes ⟨c.node, config.upTo last i⟩ later
      (directory ⟨c.node, config⟩ st.network) last l := by
  have writable : site.files.writable = true := (Files.writable_disk empty).symm
  rw [← writable] at empty
  -- The shorter segment is within limits too, so the text it left reads back as its ledger.
  have shorter : ∀ b ∈ c.segment first m, Block.InLimits b := by
    intro b mem
    obtain ⟨i, ge, le', found⟩ := Chain.mem_segment.mp mem
    exact words b (Chain.mem_segment.mpr ⟨i, ge, by omega, found⟩)
  have plain' : Plain c (config.upTo last i) later.files st first interesting exempt := by
    rw [files]
    exact (plain.setDisk empty d).upTo last i
  have course' : Auditor.course?
      ⟨c.node, Settings.ofConfig (config.upTo last i) interesting exempt⟩ c
      (c.segment first last) = some l := course
  have placed := Files.disk_setDisk empty left
  rw [← files] at placed
  exact completes_of_course linked inRange high course' plain' ready rfl placed writable
    (Store.openAt_text (Auditor.course?_inLimits shorter before) _) le before

variable (plain : Plain c config site.files st first interesting exempt)
  (empty : site.files.disk (directory ⟨c.node, config⟩ st.network) = .ok ⟨.absent, true⟩)
  {w w₁ w₂ : World Unit} (ready₁ : w₁.Ready) (ready₂ : w₂.Ready) (i₁ i₂ : Nat)

include plain empty ready₁ ready₂

/-- Without checks an audit that is killed behind any of its commits can be gone on with,
too: every file on the way is that of a shorter course. -/
theorem completes_of_killed (disabled : config.reconciliationDisabled = true) {n : Nat}
    (count : n ≤ m + 1 - first) (below : m < Index.greatest) :
    ∃ killed, Auditor.Passes ⟨c.node, Settings.ofConfig config interesting exempt⟩ first m
        (entered ⟨c.node, config.upTo m i₁⟩ { site with world := w₁ } { persistent := true })
        n killed ∧
      Completes ⟨c.node, config.upTo last i₂⟩
        { site with
          world := w₂
          files := site.files.setDisk (directory ⟨c.node, config⟩ st.network) killed.store.disk }
        (directory ⟨c.node, config⟩ st.network) last l := by
  have linked₁ : c.Linked first m := linked.sub (le_refl first) le
  obtain ⟨l₁, there⟩ := Auditor.exists_course? (m := first + n - 1) course (by omega)
  have opened : Store.openAt ⟨.absent, true⟩ = .ok { persistent := true } := rfl
  have able := entered_able ⟨c.node, config.upTo m i₁⟩ { site with world := w₁ } ready₁ opened rfl
  have nothing : c.segment first (first - 1) = [] := Chain.segment_of_lt (by omega)
  -- Without checks a pass writes the course of some prefix or nothing at all; both can be gone
  -- on from.
  obtain ⟨killed, passes, _, kept⟩ := Auditor.exists_passes c.recites able linked₁ inRange.1
    below (le_refl first) (by omega) (by rw [nothing]; rfl) there (.refl _)
  refine ⟨killed, passes, ?_⟩
  have off : (Settings.ofConfig config interesting exempt).enabled = false := by
    show (!config.reconciliationDisabled) = false
    rw [disabled]
    rfl
  rcases kept off with same | ⟨m', l', le', there', text⟩
  · -- Nothing was written yet.
    have untouched : site.files.setDisk (directory ⟨c.node, config⟩ st.network)
        killed.store.disk = site.files := by
      rw [same]
      rfl
    rw [untouched]
    exact completes_of_nothing linked inRange high course plain empty ready₂ i₂
  · exact completes_of_text linked inRange high course words (le'.trans le)
      { site with
        world := w₂
        files := site.files.setDisk (directory ⟨c.node, config⟩ st.network) killed.store.disk }
      plain empty ready₂ i₂ rfl there' text

/-- Behind a part that finished an audit up to the greatest index overflows. The file of that
part is still there. -/
theorem overflows_behind (below : m < Index.greatest) (greatest : last = Index.greatest)
    {p q : Except (Stop AuditError) Verdict × Site Unit}
    (ran : (run ⟨c.node, config.upTo m i₁⟩).eval { site with world := w₁ } = p)
    (behind : (run ⟨c.node, config.upTo last i₂⟩).eval { p.2 with world := w₂ } = q) :
    q.1 = .error (.overflow .next) ∧ q.2.files.texts.contains
      (Files.spelling (Files.storePath (directory ⟨c.node, config⟩ st.network))) = true := by
  obtain ⟨l₁, course₁⟩ := Auditor.exists_course? course le
  obtain ⟨part, eq, d, text, files⟩ := (completes_of_nothing (linked.sub (le_refl first) le)
    inRange below.le course₁ plain empty ready₁ i₁).exists_ok below
  obtain rfl := eq.symm.trans ran
  obtain ⟨overflows, t, _, kept⟩ := (completes_of_text linked inRange high course words le
    { part with world := w₂ } plain empty ready₂ i₂ files course₁ text).overflows greatest
  rw [behind] at overflows kept
  have there := Site.Wrote.stores ⟨d, text, files⟩
  refine ⟨overflows, ?_⟩
  rw [kept]
  exact Files.contains_setDisk (Option.isSome_iff_exists.mpr ⟨_, there⟩) _ _

/-- **An audit in two parts leaves the file and comes to the verdict of an audit in one
go**, wherever it is split and however often the file is written. Without checks this
holds even if the first part is killed behind any of its commits, so that its store is
never closed. If the range ends at the greatest index, the audit overflows in one go and in
two parts alike, without a verdict. -/
theorem run_split (ready : w.Ready) (i : Nat) :
    (last < Index.greatest → ∃ whole part v both,
      (run ⟨c.node, config.upTo last i⟩).eval { site with world := w } =
        (.ok l.verdict, whole) ∧
      (run ⟨c.node, config.upTo m i₁⟩).eval { site with world := w₁ } = (.ok v, part) ∧
      (run ⟨c.node, config.upTo last i₂⟩).eval { part with world := w₂ } =
        (.ok l.verdict, both) ∧
      whole.Stores (directory ⟨c.node, config⟩ st.network) l ∧
      both.Stores (directory ⟨c.node, config⟩ st.network) l ∧
      (config.reconciliationDisabled = true → ∀ n : Nat, n ≤ m + 1 - first → ∃ killed,
        Auditor.Passes ⟨c.node, Settings.ofConfig config interesting exempt⟩ first m
          (entered ⟨c.node, config.upTo m i₁⟩ { site with world := w₁ } { persistent := true })
          n killed ∧
        ∃ again, (run ⟨c.node, config.upTo last i₂⟩).eval
            { site with
              world := w₂
              files := site.files.setDisk (directory ⟨c.node, config⟩ st.network)
                killed.store.disk } = (.ok l.verdict, again) ∧
          again.Stores (directory ⟨c.node, config⟩ st.network) l)) ∧
    (last = Index.greatest →
      ((run ⟨c.node, config.upTo last i⟩).eval { site with world := w }).1 =
        .error (.overflow .next) ∧
      ∀ v part, (run ⟨c.node, config.upTo m i₁⟩).eval { site with world := w₁ } = (.ok v, part) →
        ((run ⟨c.node, config.upTo last i₂⟩).eval { part with world := w₂ }).1 =
          .error (.overflow .next)) := by
  obtain ⟨l₁, course₁⟩ := Auditor.exists_course? course le
  have whole := completes_of_nothing linked inRange high course plain empty ready i
  have first_ := completes_of_nothing (linked.sub (le_refl first) le) inRange (by omega) course₁
    plain empty ready₁ i₁
  -- Whatever the first part leaves can be gone on with.
  have goesOn : ∀ part : Site Unit,
      { site with world := w₁ }.Wrote part (directory ⟨c.node, config⟩ st.network) l₁ →
      Completes ⟨c.node, config.upTo last i₂⟩ { part with world := w₂ }
        (directory ⟨c.node, config⟩ st.network) last l := fun part ⟨_, text, files⟩ =>
    completes_of_text linked inRange high course words le { part with world := w₂ } plain empty
      ready₂ i₂ files course₁ text
  constructor
  · intro below
    obtain ⟨whole, eq, wrote⟩ := whole.exists_ok below
    obtain ⟨part, eq₁, wrote₁⟩ := first_.exists_ok (by omega)
    obtain ⟨both, eq₂, wrote₂⟩ := (goesOn part wrote₁).exists_ok below
    refine ⟨whole, part, _, both, eq, eq₁, eq₂, wrote.stores, wrote₂.stores, ?_⟩
    intro disabled n count
    obtain ⟨killed, passes, completes⟩ := completes_of_killed linked inRange high course words le
      plain empty ready₁ ready₂ i₁ i₂ disabled count (by omega)
    obtain ⟨again, eq, wrote⟩ := completes.exists_ok below
    exact ⟨killed, passes, again, eq, wrote.stores⟩
  · intro greatest
    by_cases below : m < Index.greatest
    · exact ⟨(whole.overflows greatest).1, fun v part ran => (overflows_behind linked inRange high
        course words le plain empty ready₁ ready₂ i₁ i₂ below greatest ran rfl).1⟩
    · refine ⟨(whole.overflows greatest).1, fun v part ran => ?_⟩
      obtain ⟨impossible, _⟩ := Step.Ends.of_ok first_ ran
      exact absurd impossible below

end Range

/-- The default configuration without sweeps, and without any checks or with them. -/
def unswept (off : Bool) : Config := { inactiveConcurrency := 0, reconciliationDisabled := off }

/-- It makes a plain audit where there are no files. -/
theorem plain_unswept {c : Chain} {st : NetworkStatus} (status : c.status = .ok st) (off : Bool) :
    Plain c (unswept off) {} st st.genesis.index [] [] :=
  ⟨status, rfl, rfl, rfl, rfl, rfl⟩

/-- Nobody has aborted yet. -/
theorem ready_fresh : World.Ready ({ node := () } : World Unit) :=
  ⟨rfl, rfl, fun _ mem => absurd mem List.not_mem_nil⟩

/-- A rounded balance, checked on the way; and not checked, with the first part killed
behind its only commit. -/
theorem run_split_rounded :
    (∃ l whole part v both,
      (run ⟨rounds.node, (unswept false).upTo 1 64⟩).eval { world := { node := () } } =
        (.ok l.verdict, whole) ∧
      (run ⟨rounds.node, (unswept false).upTo 0 1⟩).eval { world := { node := () } } =
        (.ok v, part) ∧
      (run ⟨rounds.node, (unswept false).upTo 1 2⟩).eval { part with world := { node := () } } =
        (.ok l.verdict, both) ∧
      whole.Stores (directory ⟨rounds.node, unswept false⟩ ⟨"bitcoin", "regtest"⟩) l ∧
      both.Stores (directory ⟨rounds.node, unswept false⟩ ⟨"bitcoin", "regtest"⟩) l) ∧
    ∃ l : Ledger, ∃ killed again,
      Auditor.Passes ⟨rounds.node, Settings.ofConfig (unswept true) [] []⟩ 0 0
        (entered ⟨rounds.node, (unswept true).upTo 0 1⟩ { world := { node := () } }
          { persistent := true }) 1 killed ∧
      (run ⟨rounds.node, (unswept true).upTo 1 2⟩).eval
        { world := { node := () }
          files := Files.setDisk {} (directory ⟨rounds.node, unswept true⟩ ⟨"bitcoin", "regtest"⟩)
            killed.store.disk } = (.ok l.verdict, again) ∧
      again.Stores (directory ⟨rounds.node, unswept true⟩ ⟨"bitcoin", "regtest"⟩) l := by
  have linked : rounds.Linked 0 1 := (Chain.pair_spans (by decide +kernel)).linked
  have words : ∀ b ∈ rounds.segment 0 1, Block.InLimits b := by decide +kernel
  have plain : ∀ off, Plain rounds (unswept off) (Site.files { world := { node := () } })
      ⟨⟨"bitcoin", "regtest"⟩, ⟨0, "a"⟩, ⟨1, "b"⟩⟩ 0 [] [] := plain_unswept rfl
  have empty : ∀ off, Files.disk (Site.files { world := { node := () } })
      (directory ⟨rounds.node, unswept off⟩ ⟨"bitcoin", "regtest"⟩) = .ok ⟨.absent, true⟩ :=
    fun _ => Files.disk_of_empty rfl _
  constructor
  · obtain ⟨l, course⟩ : ∃ l, Auditor.course? ⟨rounds.node, Settings.ofConfig (unswept false) [] []⟩
        rounds (rounds.segment 0 1) = some l := Option.isSome_iff_exists.mp (by decide +kernel)
    obtain ⟨whole, part, v, both, eq, eq₁, eq₂, stores, stores₂, _⟩ := (run_split (m := 0) linked
      (by decide) (by decide) course words (by decide) (plain false) (empty false) ready_fresh
      ready_fresh 1 2 ready_fresh 64).1 (by decide)
    exact ⟨l, whole, part, v, both, eq, eq₁, eq₂, stores, stores₂⟩
  · obtain ⟨l, course⟩ : ∃ l, Auditor.course? ⟨rounds.node, Settings.ofConfig (unswept true) [] []⟩
        rounds (rounds.segment 0 1) = some l := Option.isSome_iff_exists.mp (by decide +kernel)
    obtain ⟨_, _, _, _, _, _, _, _, _, kills⟩ := (run_split (m := 0) linked (by decide) (by decide)
      course words (by decide) (plain true) (empty true) ready_fresh ready_fresh 1 2 ready_fresh
      64).1 (by decide)
    -- Killed right behind its first block, which the interval of one has saved.
    obtain ⟨killed, passes, again, eq, stores⟩ := kills rfl 1 (by decide)
    exact ⟨l, killed, again, passes, eq, stores⟩

/-- Two blocks of which the second one has the greatest index. An audit up to the first one
passes and leaves its file. An audit of both overflows, whether in one go, where no file is
left, or behind the first one. -/
theorem run_split_brim :
    let w : World Unit := { node := () }
    let site : Site Unit := { world := w }
    let audit (last : Int) : Audit Unit := ⟨Chain.brim.node, (unswept false).upTo last 64⟩
    let whole := (audit Index.greatest).run.eval site
    let part := (audit (Index.greatest - 1)).run.eval site
    let both := (audit Index.greatest).run.eval { part.2 with world := w }
    part.1 = .ok .passed ∧ whole.1 = .error (.overflow .next) ∧
      both.1 = .error (.overflow .next) ∧
      both.2.files.texts.entries ≠ whole.2.files.texts.entries := by
  intro w site audit whole part both
  have linked : Chain.brim.Linked (Index.greatest - 1) Index.greatest := Chain.brim_spans.linked
  have words : ∀ b ∈ Chain.brim.segment (Index.greatest - 1) Index.greatest, Block.InLimits b := by
    decide +kernel
  have plain : Plain Chain.brim (unswept false) site.files
      ⟨⟨"bitcoin", "regtest"⟩, ⟨Index.greatest - 1, "a"⟩, ⟨Index.greatest, "b"⟩⟩
      (Index.greatest - 1) [] [] := plain_unswept rfl false
  have empty : site.files.disk (directory ⟨Chain.brim.node, unswept false⟩ ⟨"bitcoin", "regtest"⟩) =
      .ok ⟨.absent, true⟩ := Files.disk_of_empty rfl _
  obtain ⟨l, course⟩ : ∃ l, Auditor.course?
      ⟨Chain.brim.node, Settings.ofConfig (unswept false) [] []⟩ Chain.brim
      (Chain.brim.segment (Index.greatest - 1) Index.greatest) = some l :=
    Option.isSome_iff_exists.mp (by decide +kernel)
  obtain ⟨overflows, kept⟩ := overflows_behind (m := Index.greatest - 1) (p := part) (q := both)
    linked (by decide) (le_refl _) course words (by decide) plain empty ready_fresh ready_fresh
    64 64 (by decide) rfl rfl rfl
  -- The whole run overflows before its first save, while the split one has saved its first
  -- part.
  have nothing : whole.2.files.texts.entries = [] := by decide +kernel
  refine ⟨by decide +kernel, by decide +kernel, overflows, fun same => ?_⟩
  obtain ⟨_, mem⟩ := Table.contains_iff.mp kept
  rw [same, nothing] at mem
  cases mem

end Audit

end BalanceAudit
