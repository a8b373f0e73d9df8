import BalanceAudit.Proofs.Tenure.Directory

/-!
# Networks on one data directory

An audit keeps the store of a network in a directory that is named after it. The name is
made of both names of the network, with a dash between them, and is blurred: letters lose
their case, and whatever is no letter, digit or dash becomes an underscore.

- `Network.Alike`: networks that have one directory; `Network.directory_eq_iff`.
- `Audit.apart_directory`: directories of networks that are not alike are in nobody's way.
- `Step.Frames`: a step that does not notice a change of the state and does not undo it.
- `Audit.run_leaves`, `Audit.run_frames`: a run writes nothing but the store of its network,
  and reads no other one.
- `Audit.networks_apart`: **networks share a store iff they are alike**, and then a run goes
  on where that of the other network ended.
- `Audit.networks_collide`: two networks that do.
-/

namespace BalanceAudit

/-! ## Names of directories

A title is blurred letter by letter, so two directories are the same if the letters of their
titles blur. The dash between the two names is kept like any other, so that it does not tell
where one name ends. -/

namespace Network

variable {n m : Network} {c d : Char}

/-- Letters and digits of ASCII, and dashes. -/
def Kept (c : Char) : Prop := c.isAlphanum = true ∨ c = '-'

instance (c : Char) : Decidable (Kept c) := inferInstanceAs (Decidable (_ ∨ _))

/-- The characters cannot be told apart in the name of a directory. -/
def Blurs (c d : Char) : Prop :=
  ¬Kept c ∧ ¬Kept d ∨ Kept c ∧ Kept d ∧ c.toLower = d.toLower

/-- What the name of the directory is made of. -/
def title (n : Network) : String := n.blockchain ++ "-" ++ n.network

/-- The networks are spelled in the same way, but for characters that cannot be told apart. -/
def Alike (n m : Network) : Prop := List.Forall₂ Blurs n.title.toList m.title.toList

theorem directoryChar_of_kept (kept : Kept c) : directoryChar c = c.toLower := by
  rw [directoryChar, if_pos]
  rcases kept with alphanum | dash
  · exact .inl alphanum
  · exact .inr (.inl dash)

theorem directoryChar_of_not_kept (other : ¬Kept c) : directoryChar c = '_' := by
  rw [Kept, not_or] at other
  rw [directoryChar]
  split
  · next h =>
    rcases h with alphanum | dash | rfl
    · exact absurd alphanum other.1
    · exact absurd dash other.2
    · rfl
  · rfl

/-- The lower case of a letter is 32 places behind it. -/
theorem isLower_toLower (upper : c.val ≥ 'A'.val ∧ c.val ≤ 'Z'.val) :
    c.toLower.isLower = true := by
  have lowered : c.toLower = ⟨c.val + ('a'.val - 'A'.val), _⟩ := dif_pos upper
  rw [lowered]
  show (decide _ && decide _) = true
  simp only [ge_iff_le, UInt32.le_iff_toNat_le, Bool.and_eq_true, decide_eq_true_eq] at upper ⊢
  have shift : (c.val + ('a'.val - 'A'.val)).toNat = c.val.toNat + 32 := by
    rw [UInt32.toNat_add]
    exact Nat.mod_eq_of_lt ((Nat.add_le_add_right upper.2 32).trans_lt (by decide))
  rw [shift]
  exact ⟨Nat.add_le_add_right upper.1 32, Nat.add_le_add_right upper.2 32⟩

theorem kept_toLower (kept : Kept c) : Kept c.toLower := by
  by_cases upper : c.val ≥ 'A'.val ∧ c.val ≤ 'Z'.val
  · left
    show (c.toLower.isUpper || c.toLower.isLower || c.toLower.isDigit) = true
    rw [isLower_toLower upper, Bool.or_true, Bool.true_or]
  · have same : c.toLower = c := dif_neg upper
    rwa [same]

theorem directoryChar_eq_iff : directoryChar c = directoryChar d ↔ Blurs c d := by
  have underscore : ¬Kept '_' := by decide
  by_cases first : Kept c <;> by_cases second : Kept d
  · simp [Blurs, first, second, directoryChar_of_kept]
  · have other : c.toLower ≠ '_' := fun same => underscore (same ▸ kept_toLower first)
    simpa [Blurs, first, second, directoryChar_of_kept, directoryChar_of_not_kept] using other
  · have other : '_' ≠ d.toLower := fun same => underscore (same ▸ kept_toLower second)
    simpa [Blurs, first, second, directoryChar_of_kept, directoryChar_of_not_kept] using other
  · simp [Blurs, first, second, directoryChar_of_not_kept]

/-- **Networks have one directory iff they are alike.** -/
theorem directory_eq_iff : n.directory = m.directory ↔ n.Alike m := by
  have blurs : Blurs = fun c d => directoryChar c = directoryChar d :=
    funext₂ fun _ _ => propext directoryChar_eq_iff.symm
  have maps := (List.forall₂_map_left_iff (R := Eq) (f := directoryChar) (l := n.title.toList)
    (u := m.title.toList.map directoryChar)).trans List.forall₂_map_right_iff
  rw [List.forall₂_eq_eq_eq] at maps
  rw [Alike, blurs, directory, directory, String.ofList_inj]
  exact maps

theorem isPart_directory (n : Network) : Files.IsPart n.directory := by
  have dash : '-' ∈ n.directory.toList := by
    rw [directory, String.toList_ofList, List.mem_map]
    exact ⟨'-', by simp, by decide⟩
  refine ⟨fun none => ?_, fun dot => ?_, fun slash => ?_⟩
  · rw [none] at dash
    cases dash
  · rw [dot] at dash
    revert dash
    decide
  · rw [directory, String.toList_ofList, List.mem_map] at slash
    obtain ⟨c, -, eq⟩ := slash
    by_cases kept : Kept c
    · have lower := kept_toLower kept
      rw [← directoryChar_of_kept kept, eq] at lower
      revert lower
      decide
    · rw [directoryChar_of_not_kept kept] at eq
      revert eq
      decide

end Network

namespace Audit

variable {u : Audit σ} {n m : Network}

theorem parts_directory (u : Audit σ) (n : Network) :
    Files.parts (u.directory n) =
      Files.parts u.config.dataDirectory ++ ["data", n.directory] := by
  have data : Files.parts "data" = ["data"] := by decide
  have above : Files.join u.config.dataDirectory "data" ≠ "" := by
    rw [Files.join]
    split
    · decide
    · next some =>
      intro none
      have length := congrArg String.length none
      rw [String.length_append, String.length_append] at length
      have slash : "/".length = 1 := rfl
      have empty : "".length = 0 := rfl
      omega
  rw [directory, Files.parts_join above, Files.parts_of_isPart n.isPart_directory]
  by_cases none : u.config.dataDirectory = ""
  · rw [none]
    rfl
  · rw [Files.parts_join none, data, List.append_assoc]
    rfl

/-- Directories of networks that are not alike are in nobody's way. -/
theorem apart_directory {τ : Type} {v : Audit τ}
    (same : v.config.dataDirectory = u.config.dataDirectory) (differ : ¬n.Alike m) :
    Files.Apart (u.directory n) (v.directory m) where
  parts_ne eq := by
    rw [parts_directory, parts_directory, same] at eq
    have names := List.append_cancel_left eq
    rw [List.cons.injEq, List.cons.injEq] at names
    exact differ (Network.directory_eq_iff.mp names.2.1)
  above k eq := by
    have lengths := congrArg List.length eq
    rw [Files.parts_storePath, parts_directory, parts_directory, same] at lengths
    simp only [List.length_take, List.length_append, List.length_cons, List.length_nil] at lengths
    omega

end Audit

/-! ## Steps that do not notice a change

A frame is a change of the state that a step neither reads nor writes. Frames go through
binds. -/

namespace Step

variable {S ε ε' α β : Type} {g : S → S} {x : Step S ε α} {f : α → Step S ε β}

/-- From a changed state the step comes to the same, and the change is still there. -/
def Frames (g : S → S) (x : Step S ε α) : Prop :=
  ∀ s, x.eval (g s) = ((x.eval s).1, g (x.eval s).2)

namespace Frames

theorem pure (a : α) : Frames g (Pure.pure a : Step S ε α) := fun _ => rfl

theorem ofExcept (h : ε → ε') (r : Except ε α) : Frames g (Step.ofExcept h r : Step S ε' α) := by
  cases r <;> exact fun _ => rfl

theorem bind (first : Frames g x) (next : ∀ a, Frames g (f a)) : Frames g (x >>= f) := by
  intro s
  rw [eval_bind, eval_bind, first s]
  rcases x.eval s with ⟨_ | a, t⟩
  · rfl
  · exact next a t

/-- What the step reads of the state is not changed. -/
theorem get_bind {f : S → Step S ε β} (same : ∀ s, f (g s) = f s)
    (next : ∀ s, Frames g (f s)) : Frames g (get >>= f) := by
  intro s
  rw [eval_bind, eval_bind, eval_get, eval_get]
  dsimp only
  rw [same]
  exact next s s

end Frames

end Step

/-! ## Runs

A run with another store beside its own is the run without it, with that store beside. -/

/-- The site after a store has left its file in a directory. -/
def Site.beside (other : String) (e : Disk) (s : Site σ) : Site σ :=
  { s with files := s.files.setDisk other e }

namespace Audit

variable {u : Audit σ} {site : Site σ} {directory other : String} {e : Disk}
  {settings : Settings} {genesis : BlockId}

/-- The node is one of the network. -/
def Serves (u : Audit σ) (site : Site σ) (n : Network) : Prop :=
  ∀ st w, site.world.call u.node.status = (some (.ok st), w) → st.network = n

/-- No file of the configuration is the store of the directory. -/
def ReadsElsewhere (u : Audit σ) (other : String) : Prop :=
  ∀ path, u.config.interestingAccounts = some path ∨ u.config.exemptAccounts = some path ∨
    u.config.bootstrapBalances = some path →
    Files.spelling path ≠ Files.spelling (Files.storePath other)

/-- **Following the chain** writes the store of the directory, if anything. -/
theorem followOn_leaves (u : Audit σ) (settings : Settings) (genesis : BlockId)
    (directory : String) (site : Site σ) :
    ((u.followOn settings genesis directory).eval site).2.files = site.files ∨
      ∃ d, ((u.followOn settings genesis directory).eval site).2.files =
        site.files.setDisk directory d := by
  rw [followOn, Step.eval_bind, Step.eval_get]
  dsimp only
  rw [Step.eval_bind, Step.eval_ofExcept]
  cases site.files.disk directory with
  | error fault => exact .inl rfl
  | ok d =>
    dsimp only [Except.mapError]
    rw [Step.eval_bind, Step.eval_ofExcept]
    cases Store.openAt d with
    | error e => exact .inl rfl
    | ok store =>
      dsimp only [Except.mapError]
      generalize (u.follow settings genesis (site.files.read? u.config.bootstrapBalances)).eval
        { world := site.world, store := store.withInterval u.config.storeFlushInterval } = o
      obtain ⟨report, t⟩ := o
      dsimp only
      rw [Step.eval_bind, Step.eval_set]
      right
      -- Whether the store could be closed makes no difference to the files.
      generalize (if ended report then t.store.close else (.ok (), t.store)) = after
      obtain ⟨closed, left⟩ := after
      refine ⟨left.disk, ?_⟩
      cases report with
      | error stop => rfl
      | ok report => cases closed <;> rfl

/-- **A run** writes the store of its network, if anything. -/
theorem run_leaves {n : Network} (serves : u.Serves site n) :
    (u.run.eval site).2.files = site.files ∨
      ∃ d, (u.run.eval site).2.files = site.files.setDisk (u.directory n) d := by
  rw [run, Step.eval_bind, eval_ask]
  rcases called : site.world.call u.node.status with ⟨_ | e | st, w⟩
  · exact .inl rfl
  · exact .inl rfl
  dsimp only [Except.mapError]
  rw [Step.eval_bind]
  have files : (u.settings.eval { site with world := w }).2.files = site.files :=
    u.settings_leaves_files _
  rcases loaded : u.settings.eval { site with world := w } with ⟨stop | settings, site₁⟩
  · rw [loaded] at files
    exact .inl files
  rw [loaded] at files
  dsimp only at files ⊢
  rw [Step.eval_bind, serves st w called]
  have followed := u.followOn_leaves settings st.genesis (u.directory n) site₁
  rw [files] at followed
  rcases went : (u.followOn settings st.genesis (u.directory n)).eval site₁ with
    ⟨stop | report, site₂⟩
  · rw [went] at followed
    exact followed
  rw [went] at followed
  dsimp only
  rw [Step.eval_bind, Step.eval_get]
  dsimp only
  -- The search for a missing operation writes no file of the audit.
  split
  · exact followed
  · rw [u.localize_leaves_files]
    exact followed

theorem settings_frames (elsewhere : u.ReadsElsewhere other) :
    Step.Frames (Site.beside other e) u.settings := by
  have reads : ∀ (s : Site σ) (path : Option String),
      (∀ p, path = some p → Files.spelling p ≠ Files.spelling (Files.storePath other)) →
      (s.beside other e).files.read? path = s.files.read? path := by
    intro s path differs
    cases path with
    | none => rfl
    | some p => exact congrArg some (Files.read_setDisk_of_ne (differs p rfl) s.files e)
  refine Step.Frames.get_bind (fun s => ?_) fun s => ?_
  · dsimp only
    rw [reads s _ fun p eq => elsewhere p (.inl eq),
      reads s _ fun p eq => elsewhere p (.inr (.inl eq))]
  · exact (Step.Frames.ofExcept _ _).bind fun _ =>
      (Step.Frames.ofExcept _ _).bind fun _ => .pure _

theorem localize_frames (u : Audit σ) (settings : Settings) (genesis : BlockId) (h : Holding)
    (observed : BlockId) :
    Step.Frames (Site.beside other e) (u.localize settings genesis h observed) := by
  intro s
  rw [localize, Step.eval_bind, Step.eval_bind, Step.eval_get, Step.eval_get]
  dsimp only [Site.beside]
  generalize ((⟨u.node, settings⟩ : Auditor σ).findMissing h observed.index
    u.config.lookbackWindow genesis.index).eval ⟨s.world, s.scratch⟩ = o
  obtain ⟨r, t⟩ := o
  dsimp only
  rw [Step.eval_bind, Step.eval_bind, Step.eval_set, Step.eval_set]
  rcases r with (e | _ | _) | b <;> rfl

/-- **Following the chain** on a directory does not notice the store of another one. -/
theorem followOn_frames (apart : Files.Apart directory other) (elsewhere : u.ReadsElsewhere other)
    (settings : Settings) (genesis : BlockId) :
    Step.Frames (Site.beside other e) (u.followOn settings genesis directory) := by
  intro site
  have manifest : (site.files.setDisk other e).read? u.config.bootstrapBalances =
      site.files.read? u.config.bootstrapBalances := by
    cases path : u.config.bootstrapBalances with
    | none => rfl
    | some p =>
      exact congrArg some (Files.read_setDisk_of_ne (elsewhere p (.inr (.inr path))) site.files e)
  rw [followOn, Step.eval_bind, Step.eval_bind, Step.eval_get, Step.eval_get]
  dsimp only [Site.beside]
  rw [Step.eval_bind, Step.eval_bind, Step.eval_ofExcept, Step.eval_ofExcept, apart.disk_setDisk]
  cases site.files.disk directory with
  | error fault => rfl
  | ok d =>
    dsimp only [Except.mapError]
    rw [Step.eval_bind, Step.eval_bind, Step.eval_ofExcept, Step.eval_ofExcept]
    cases Store.openAt d with
    | error e => rfl
    | ok store =>
      dsimp only [Except.mapError]
      -- From here on nothing reads the files: the two runs are one and the same session.
      rw [manifest]
      generalize (u.follow settings genesis (site.files.read? u.config.bootstrapBalances)).eval
        { world := site.world, store := store.withInterval u.config.storeFlushInterval } = o
      obtain ⟨report, t⟩ := o
      dsimp only
      rw [Step.eval_bind, Step.eval_bind, Step.eval_set, Step.eval_set, apart.setDisk_comm]
      generalize (if ended report then t.store.close else (.ok (), t.store)) = after
      obtain ⟨closed, left⟩ := after
      cases report with
      | error stop => rfl
      | ok report => cases closed <;> rfl

/-- **A run** does not notice the store of another directory, and leaves it there. -/
theorem run_frames {n : Network} (serves : u.Serves site n)
    (apart : Files.Apart (u.directory n) other) (elsewhere : u.ReadsElsewhere other) (e : Disk) :
    u.run.eval (site.beside other e) =
      ((u.run.eval site).1, (u.run.eval site).2.beside other e) := by
  rw [run, Step.eval_bind, Step.eval_bind, eval_ask, eval_ask]
  dsimp only [Site.beside]
  rcases called : site.world.call u.node.status with ⟨_ | e | st, w⟩
  · rfl
  · rfl
  have network := serves st w called
  have follows := fun settings => u.followOn_frames (e := e) (network ▸ apart) elsewhere settings
    st.genesis
  refine ((u.settings_frames elsewhere).bind fun settings => (follows settings).bind fun report =>
    Step.Frames.get_bind (fun _ => rfl) fun s => ?_) { site with world := w }
  split
  · exact .pure _
  · exact u.localize_frames settings st.genesis _ _

/-- A ledger that was written is opened again. -/
theorem reopens_of_wrote {site' : Site σ} {d : Disk} {l : Ledger}
    (wrote : site.Wrote site' directory l) (placed : site.files.disk directory = .ok d)
    (within : l.InLimits) :
    let d' : Disk := ⟨.file l.toJson.pretty, site.files.writable⟩
    site'.files.disk directory = .ok d' ∧
      Store.openAt d' = .ok { ledger := l, persistent := true, disk := d' } := by
  obtain ⟨_, text, files⟩ := wrote
  rw [files]
  exact ⟨Files.disk_setDisk placed text, Store.openAt_of_text rfl within⟩

/-! ## Two networks

Alike: one store, on which the second run goes on. Not alike: each run frames the other. -/

variable {τ : Type} {v : Audit τ} {n m : Network}

/-- The stores of the two networks have nothing to do with each other. -/
structure Separate (u : Audit σ) (n : Network) (v : Audit τ) (m : Network) : Prop where
  directory_ne : u.directory n ≠ v.directory m
  /-- A run on `m` leaves the place of the store of `n` as it is. -/
  unwritten : ∀ site, v.Serves site m →
    (v.run.eval site).2.files.disk (u.directory n) = site.files.disk (u.directory n)
  /-- A run on `n` comes to the same, whatever stands in the store of `m`. -/
  unread : ∀ site e, u.Serves site n → u.ReadsElsewhere (v.directory m) →
    u.run.eval (site.beside (v.directory m) e) =
      ((u.run.eval site).1, (u.run.eval site).2.beside (v.directory m) e)

/-- The two networks have one store. -/
structure Shared (u : Audit σ) (n : Network) (v : Audit τ) (m : Network) : Prop where
  directory_eq : u.directory n = v.directory m
  /-- What a run on `m` wrote is what a run on `n` opens, and it goes on behind the head, if
  there is an index for that. -/
  resumes : ∀ (site site' : Site τ) d l, site.files.disk (v.directory m) = .ok d →
    site.Wrote site' (v.directory m) l → l.InLimits →
    let d' : Disk := ⟨.file l.toJson.pretty, site.files.writable⟩
    site'.files.disk (u.directory n) = .ok d' ∧
      Store.openAt d' = .ok { ledger := l, persistent := true, disk := d' } ∧
      ∀ genesis head, l.head? = some head → u.firstIndex? genesis l = Index.next? head.index

theorem separate (same : v.config.dataDirectory = u.config.dataDirectory) (differ : ¬n.Alike m) :
    u.Separate n v m where
  directory_ne eq := by
    refine (apart_directory (u := u) same differ).parts_ne ?_
    rw [eq]
  unwritten site serves := by
    rcases v.run_leaves serves with kept | ⟨d, left⟩
    · rw [kept]
    · rw [left, (apart_directory same differ).disk_setDisk]
  unread _ e serves elsewhere := run_frames serves (apart_directory same differ) elsewhere e

theorem shared (same : v.config.dataDirectory = u.config.dataDirectory) (alike : n.Alike m) :
    u.Shared n v m := by
  have one : u.directory n = v.directory m := by
    rw [directory, directory, same, Network.directory_eq_iff.mpr alike]
  refine ⟨one, fun site site' d l placed wrote within => ?_⟩
  obtain ⟨there, opened⟩ := reopens_of_wrote wrote placed within
  refine ⟨one ▸ there, opened, fun genesis head found => ?_⟩
  rw [firstIndex?, found]

/-- **Two networks have separate stores unless they are alike.** Audits on one data
directory keep the stores of networks apart if these can be told apart in the names of the
directories: then no run writes the store of the other network, and none reads it. Else they
have one store, and a run goes on behind the head that a run on the other network left. -/
theorem networks_apart (u : Audit σ) (v : Audit τ)
    (same : v.config.dataDirectory = u.config.dataDirectory) (n m : Network) :
    (¬n.Alike m → u.Separate n v m) ∧ (n.Alike m → u.Shared n v m) :=
  ⟨separate same, shared same⟩

/-- Networks of one chain with different names are kept apart, and those whose names differ
only in where the dash stands are not. -/
theorem networks_apart_bitcoin :
    let u : Audit Unit := ⟨Chain.gap.node, {}⟩
    u.Separate ⟨"bitcoin", "mainnet"⟩ u ⟨"bitcoin", "testnet"⟩ ∧
      u.Shared ⟨"bitcoin", "cash-mainnet"⟩ u ⟨"bitcoin-cash", "mainnet"⟩ := by
  intro u
  constructor
  · refine (networks_apart u u rfl _ _).1 fun alike => ?_
    have one := Network.directory_eq_iff.mpr alike
    revert one
    decide +kernel
  · exact (networks_apart u u rfl _ _).2 (Network.directory_eq_iff.mp (by decide +kernel))

/-! ## A collision

Two audits of different networks, run one after the other on one data directory. -/

/-- An audit up to `last` of a chain of two blocks with the same amount in each. -/
def steady (network : Network) (amount : Nat) (last : Int) : Audit Unit where
  node := Chain.node
    { Chain.pair .alice 0 [.whole amount] [.whole amount] (.whole amount) (.whole (2 * amount)) with
      network }
  config := { endIndex := some last, inactiveConcurrency := 0 }

/-- What following such a chain from a block on comes to. -/
def followed (u : Audit Unit) (first : Int) (s : Store) :
    Except (Stop PipelineError) Unit × Session Unit :=
  (Auditor.runPipeline ⟨u.node, .ofConfig u.config [] []⟩ first u.config.endIndex).eval
    (u.entered { world := { node := () } } s)

/-- The verdict of such an audit follows from what following the chain comes to. -/
theorem run_steady {network : Network} {amount : Nat} {last first : Int} {f : Files} {d : Disk}
    {store : Store} (error : Option PipelineError)
    (placed : f.disk ((steady network amount last).directory network) = .ok d)
    (opened : Store.openAt d = .ok store) (writable : d.writable = true)
    (begins : (steady network amount last).firstIndex? ⟨0, "a"⟩ store.ledger = some first)
    (ran : (followed (steady network amount last) first store).1 =
      error.elim (.ok ()) (.error <| .failed ·))
    (mode : store.SameMode (followed (steady network amount last) first store).2.store)
    (swept : (followed (steady network amount last) first store).2.recorder.inactive = none) :
    ∃ site', (steady network amount last).run.eval { world := { node := () }, files := f } =
        (.ok ((followed (steady network amount last) first store).2.verdict error), site') ∧
      Site.Wrote { world := { node := () }, files := f } site'
        ((steady network amount last).directory network)
        (followed (steady network amount last) first store).2.store.ledger := by
  let site : Site Unit := { world := { node := () }, files := f }
  have status : site.world.call (steady network amount last).node.status =
      (some (.ok ⟨network, ⟨0, "a"⟩, ⟨1, "b"⟩⟩), site.world) := rfl
  generalize result : followed (steady network amount last) first store = o at ran mode swept ⊢
  obtain ⟨r, t⟩ := o
  dsimp only at ran mode swept ⊢
  subst ran
  -- The session is known, so the run around it can only end as run_ends says.
  have ends := run_ends status rfl rfl rfl placed opened writable begins
    (Q := fun e t' => e = error ∧ t' = t) (O := fun _ _ => False) (by
      refine (Step.Ends.self _ _).mono (fun a t' eq => ?_) fun stop t' eq => ?_
      · have same := result.symm.trans eq
        cases error with
        | none => cases same; exact ⟨⟨rfl, rfl⟩, mode.closed, mode.persistent, mode.canWrite⟩
        | some cause => cases same
      · have same := result.symm.trans eq
        cases error with
        | none => cases same
        | some cause =>
          cases same
          exact .inl ⟨cause, rfl, ⟨rfl, rfl⟩, mode.closed, mode.persistent, mode.canWrite⟩)
    (by rintro _ _ ⟨rfl, rfl⟩; exact swept)
  rcases eq : (steady network amount last).run.eval site with ⟨stop | v, site'⟩
  · obtain ⟨_, _, _, impossible, _⟩ := ends.of_error eq
    exact impossible.elim
  · obtain ⟨_, _, rfl, ⟨rfl, rfl⟩, wrote⟩ := ends.of_ok eq
    exact ⟨site', rfl, wrote⟩

/-- Nothing is wrong with either chain, and the audit of each passes by itself. But the
second one goes on from the block that was stored for the first one, and fails. -/
theorem networks_collide :
    let n : Network := ⟨"a", "b-c"⟩
    let m : Network := ⟨"a-b", "c"⟩
    let empty : Site Unit := { world := { node := () } }
    n ≠ m ∧ (steady n 1 0).directory n = (steady m 5 1).directory m ∧
      ((steady m 5 1).run.eval empty).1 = .ok .passed ∧
      ∃ left, (steady n 1 0).run.eval empty = (.ok .passed, left) ∧
        ((steady m 5 1).run.eval { empty with files := left.files }).1 =
          .ok (.failed ("syncer failed: block worker failed on block 1:b: active reconciliation " ++
            "failed for alice (BTC) at block 1:b: computed 6 but node reported 10")) := by
  intro n m empty
  have one : (steady n 1 0).directory n = (steady m 5 1).directory m := by
    decide +kernel
  have absent := Files.disk_of_empty (f := {}) rfl
  -- Each audit on an empty directory.
  obtain ⟨left, passes, wrote⟩ := run_steady none (absent _) rfl rfl rfl
    (show (followed (steady n 1 0) 0 { persistent := true }).1 = .ok () by decide +kernel)
    ⟨by decide +kernel, by decide +kernel, by decide +kernel⟩ (by decide +kernel)
  obtain ⟨_, alone, _⟩ := run_steady none (absent _) rfl rfl rfl
    (show (followed (steady m 5 1) 0 { persistent := true }).1 = .ok () by decide +kernel)
    ⟨by decide +kernel, by decide +kernel, by decide +kernel⟩ (by decide +kernel)
  -- The second one opens what the first one left.
  obtain ⟨placed, opened⟩ := reopens_of_wrote wrote (absent _)
    ⟨by decide +kernel, by decide +kernel⟩
  rw [one] at placed
  obtain ⟨_, fails, _⟩ := run_steady (some (.sync (.worker ⟨1, "b"⟩ (.reconcile (.mismatch
      ⟨.active, .alice, ⟨1, "b"⟩, .whole 6, .whole 10⟩))))) placed opened rfl
    (show _ = some 1 by decide +kernel) (by decide +kernel)
    ⟨by decide +kernel, by decide +kernel, by decide +kernel⟩ (by decide +kernel)
  refine ⟨by decide, one, ?_, left, ?_, ?_⟩
  · rw [alone]
    exact congrArg Except.ok (by decide +kernel)
  · rw [passes]
    exact congrArg (fun v => (Except.ok v, left)) (by decide +kernel)
  · rw [fails]
    exact congrArg Except.ok (by decide +kernel)

end Audit

end BalanceAudit
