import BalanceAudit.Audit
import BalanceAudit.Proofs.Applied

/-!
# Going on after a cancellation

A canceled run leaves its books between two blocks, or within one: its block is in
the store, and some of its checks never came to an end. A later audit goes on
behind the head. So in the first case both together apply every block of the range
once, and in the second one the block that was left off is never checked.

- `Ledger.Reaches`: the next block of a ledger.
- `Auditor.Applies.head?`, `Auditor.Applies.segment`: what is applied are the blocks
  of a range of the chain.
- `Audit.Resumes`: a later audit of the same range; `Audit.run_follows`: what it does
  if it passes.
- `Auditor.sync_canceled`: **where a canceled run leaves off, and what a later audit
  makes of it**.
-/

namespace BalanceAudit

variable {σ : Type}

/-! ## The next block of a ledger

Where a run goes on is read off the head, or is the first index if there is none. -/

/-- The block at `next` follows on the head. -/
def Ledger.Reaches (next : Int) (l : Ledger) : Prop :=
  ∀ head, l.head? = some head → Index.next? head.index = some next

/-- The block with which a run goes on: the one behind the head, if there is an index for
it, or the first one. -/
def Ledger.resume? (l : Ledger) (first : Int) : Option Int :=
  match l.head? with
  | some head => Index.next? head.index
  | none => some first

namespace Ledger.Reaches

variable {first next : Int} {l l' : Ledger} {b : Block}

theorem congr (h : l.Reaches next) (same : l'.head? = l.head?) : l'.Reaches next := by
  unfold Reaches
  rwa [same]

/-- A ledger whose head, if it has one, is the block before. -/
theorem of_before (inRange : Index.InRange next)
    (before : ∀ head, l.head? = some head → head.index = next - 1) : l.Reaches next := by
  intro head found
  rw [before head found, Index.next?, Int.sub_add_cancel]
  exact Index.word?_eq_some_iff.mpr ⟨inRange, rfl⟩

theorem of_head (advance : Index.next? b.id.index = some next) (head : l.head? = some b.id) :
    l.Reaches next := by
  intro head' found
  cases head.symm.trans found
  exact advance

/-- A run goes on with what follows on the head. -/
theorem of_resume? (resumes : l.resume? first = some next) : l.Reaches next := by
  intro head found
  rwa [resume?, found] at resumes

/-- What follows on the head is greater. -/
theorem lt (h : l.Reaches next) {head : BlockId} (found : l.head? = some head) :
    head.index < next := by
  have eq := (Index.word?_eq_some_iff.mp (h head found)).2
  omega

end Ledger.Reaches

theorem Session.head?_of_books {s t : Session σ} (same : t.books = s.books) :
    t.store.ledger.head? = s.store.ledger.head? := by
  rw [Ledger.head?, (Prod.mk.inj same).1, Ledger.head?]

namespace Auditor

variable {a : Auditor σ} {c : Chain} {index first last next : Int} {s t u v : Session σ} {b : Block}
  {bs left : List Block}

/-! ## What is applied

Blocks that were applied are a segment of the chain, and the head is the last of them. -/

/-- A block that was entered is that of the chain, and is the head. -/
theorem head?_of_entered (honest : a.node.Honest c) (keyed : c.Keyed)
    (reaches : s.store.ledger.Reaches index) {batch : Batch}
    (entered : (a.enterBlock index).eval s = (.ok (b, batch), u)) (same : t.books = u.books) :
    c.blocks.find? index = some b ∧ b.id.index = index ∧ t.store.ledger.head? = some b.id := by
  obtain ⟨found, block, l, blocks, eq⟩ := (enterBlock_ends honest index s).of_ok entered
  have key : b.id.index = index := keyed.index index b found
  have block : batch.block = b.id := block
  refine ⟨found, key, ?_⟩
  have head : l.head? = s.store.ledger.head? := by rw [Ledger.head?, blocks, Ledger.head?]
  rw [Session.head?_of_books same, eq, Ledger.head?_apply, block]
  intro head' eq'
  rw [block, key]
  exact reaches.lt (head ▸ eq')

theorem Applied.head? (honest : a.node.Honest c) (keyed : c.Keyed)
    (applied : a.Applied index s b t) (reaches : s.store.ledger.Reaches index) :
    c.blocks.find? index = some b ∧ b.id.index = index ∧ t.store.ledger.head? = some b.id := by
  obtain ⟨batch, u, v, entered, heard, completed⟩ := applied
  exact head?_of_entered honest keyed reaches entered ((Tried.books completed).trans heard.books)

theorem CutShort.head? (honest : a.node.Honest c) (keyed : c.Keyed)
    (cut : a.CutShort index s b t) (reaches : s.store.ledger.Reaches index) :
    c.blocks.find? index = some b ∧ b.id.index = index ∧ t.store.ledger.head? = some b.id := by
  obtain ⟨batch, u, v, entered, heard, rs, tried, _⟩ := cut
  exact head?_of_entered honest keyed reaches entered (tried.books.trans heard.books)

/-- The last block that was applied is the head, and what comes next follows on it. -/
theorem Applies.head? (honest : a.node.Honest c) (keyed : c.Keyed)
    (applies : a.Applies first s bs u next) (reaches : s.store.ledger.Reaches first) :
    u.store.ledger.head? = (bs.getLast?.map (·.id)).or s.store.ledger.head? ∧
      u.store.ledger.Reaches next := by
  induction applies with
  | none => exact ⟨rfl, reaches⟩
  | cons here advance later ih =>
    obtain ⟨found, rfl, head⟩ := here.head? honest keyed reaches
    obtain ⟨last, reaches'⟩ := ih (.of_head advance head)
    refine ⟨?_, reaches'⟩
    rw [last, head, List.getLast?_cons]
    cases List.getLast? _ <;> rfl

/-- The blocks that were applied are those of a range of the chain. -/
theorem Applies.segment (honest : a.node.Honest c) (keyed : c.Keyed)
    (applies : a.Applies first s bs u next) (reaches : s.store.ledger.Reaches first) :
    bs = c.segment first (next - 1) ∧ first ≤ next ∧
      (next = first ∨ ∃ b ∈ bs, next = b.id.index + 1) := by
  induction applies with
  | none => exact ⟨(Chain.segment_of_lt (by omega)).symm, le_refl _, .inl rfl⟩
  | @cons first next s t u b bs second here advance later ih =>
    obtain ⟨found, rfl, head⟩ := here.head? honest keyed reaches
    obtain ⟨rest, le, stop⟩ := ih (.of_head advance head)
    obtain ⟨_, rfl⟩ := Index.word?_eq_some_iff.mp advance
    have one : c.segment b.id.index b.id.index = [b] := by
      rw [Chain.segment_concat (le_refl _) found, Chain.segment_of_lt (by omega), List.nil_append]
    have parts : c.segment b.id.index (next - 1) =
        c.segment b.id.index b.id.index ++ c.segment (b.id.index + 1) (next - 1) :=
      Chain.segment_append (by omega) (by omega)
    refine ⟨?_, by omega, .inr ?_⟩
    · rw [parts, one, ← rest]
      rfl
    · rcases stop with stop | ⟨b', mem, stop⟩
      · exact ⟨b, List.mem_cons_self, stop⟩
      · exact ⟨b', List.mem_cons_of_mem b mem, stop⟩

/-- Where a run left off between two blocks, the next one is that of the ledger. -/
theorem LeavesOff.head? (honest : a.node.Honest c) (keyed : c.Keyed)
    (off : a.LeavesOff next u left t) (reaches : u.store.ledger.Reaches next) :
    t.store.ledger.head? = (left.getLast?.map (·.id)).or u.store.ledger.head? ∧
      (left = [] ∨ ∃ b, left = [b] ∧ b.id.index = next ∧ c.blocks.find? next = some b) := by
  cases off with
  | between same => exact ⟨Session.head?_of_books same, .inl rfl⟩
  | @within b t _ cut same =>
    obtain ⟨found, key, head⟩ := cut.head? honest keyed reaches
    refine ⟨?_, .inr ⟨b, rfl, key, found⟩⟩
    rw [Session.head?_of_books same, head]
    rfl

end Auditor

/-! ## A later audit

A later audit that succeeds has run to the end of its range, from where the head told it to. -/

/-- A run that ends without an error has followed the chain to its end, from the
books that were there. -/
theorem Auditor.runPipeline_follows (a : Auditor σ) (first : Int) (last : Option Int)
    (s : Session σ) :
    (a.runPipeline first last).Ends s
      (fun _ _ => ∃ t u, t.books = s.books ∧ (a.sync a.workers first last).eval t = (.ok (), u))
      (fun _ _ => True) := by
  refine runPipeline_ends_of_sync a (fun t same => ?_) (fun _ _ _ h => h) (fun _ _ _ h => h)
    (fun _ _ => trivial) trivial
  exact (Step.Ends.self _ t).mono (fun _ u eq => ⟨t, u, same, eq⟩) fun _ _ _ => trivial

/-- A verdict that is a success comes of a run without an error. -/
theorem Ending.error_of_success {e : Ending} {v : Verdict} (concluded : e.conclusion = .verdict v)
    (success : v.isSuccess = true) : e.error = none := by
  unfold conclusion at concluded
  split at concluded
  · cases concluded
    cases success
  · split at concluded
    · assumption
    · split at concluded
      · cases concluded
        cases success
      · split at concluded <;> cases concluded
        cases success

namespace Audit

/-- An audit of the range from `first` to `last` whose directory opens as the ledger
and that seeds nothing. -/
structure Resumes (u : Audit σ) (site : Site σ) (first last : Int) (l : Ledger) : Prop where
  start : ∀ st, (u.node.status site.world.node).1.reply = some (.ok st) →
    u.config.startIndex.getD st.genesis.index = first
  stop : u.config.endIndex = some last
  unseeded : u.config.bootstrapBalances = none
  opens : ∀ st disk store, (u.node.status site.world.node).1.reply = some (.ok st) →
    site.files.disk (u.directory st.network) = .ok disk → Store.openAt disk = .ok store →
    store.ledger = l

variable {u : Audit σ} {site : Site σ} {first last : Int} {l : Ledger}

/-- Following the chain without an error is a run from where the ledger ends. -/
theorem follow_follows (settings : Settings) (genesis : BlockId) (s : Session σ) :
    (u.follow settings genesis none).Ends s
      (fun report _ => report.result = .ok () → ∃ first t v,
        s.store.ledger.resume? (u.config.startIndex.getD genesis.index) = some first ∧
        t.books = s.books ∧
        (Auditor.sync ⟨u.node, settings⟩ (Auditor.workers ⟨u.node, settings⟩) first
          u.config.endIndex).eval t = (.ok (), v))
      (fun _ _ => True) := by
  unfold follow
  rw [Step.ends_bind, Step.ends_read]
  split
  · trivial
  · rw [Step.ends_bind, Step.ends_within]
    refine ⟨fun first resumes => ?_, fun _ => trivial⟩
    rw [Step.ends_bind]
    refine Step.ends_of_ok (Step.eval_onWorld _ _) ?_
    rw [Step.ends_bind, Step.ends_attempt]
    -- Only a run that came back without error has something to show.
    refine (Auditor.runPipeline_follows _ _ _ _).mono
      (fun _ t ⟨v, w, ran⟩ _ => ⟨first, v, w, resumes, ran⟩) fun stop t _ => ?_
    cases stop with
    | failed e =>
      intro result
      cases result
    | idle => trivial
    | overflow => trivial

theorem settings_keeps (u : Audit σ) (site : Site σ) :
    u.settings.Ends site (fun _ site' => site' = site) (fun _ _ => True) := by
  unfold settings
  rw [Step.ends_bind, Step.ends_get]
  dsimp only
  cases loadHoldings (site.files.read? u.config.interestingAccounts) with
  | error e => trivial
  | ok interesting =>
    cases loadHoldings (site.files.read? u.config.exemptAccounts) with
    | error e => trivial
    | ok exempt => exact Eq.refl site

theorem ask_keeps {α : Type} (call : σ → Answer α × σ) (site : Site σ) :
    (Site.ask call : Step (Site σ) AuditError α).Ends site
      (fun r site' => (call site.world.node).1.reply = some (.ok r) ∧ site'.files = site.files)
      (fun _ _ => True) := by
  unfold Site.ask
  rw [Step.ends_bind, Step.ends_get]
  rcases reply : site.world.call call with ⟨r, world⟩
  show Step.Ends (set { site with world } >>= _) site _ _
  rw [Step.ends_bind, Step.ends_set]
  cases r with
  | none => trivial
  | some r =>
    cases r with
    | error e => trivial
    | ok r => exact ⟨congrArg Prod.fst reply, rfl⟩

/-- Some run with these settings followed the chain to the end of the range, from where
the ledger ended and with its books. -/
def FollowedFrom (u : Audit σ) (settings : Settings) (first last : Int) (l : Ledger) : Prop :=
  ∃ next, ∃ s t : Session σ, l.resume? first = some next ∧
    (s.store.ledger.blocks, s.store.ledger.balances) = (l.blocks, l.balances) ∧
    (Auditor.sync ⟨u.node, settings⟩ (Auditor.workers ⟨u.node, settings⟩) next
      (some last)).eval s = (.ok (), t)

theorem followOn_follows (resumes : u.Resumes site first last l) {st : NetworkStatus}
    (status : (u.node.status site.world.node).1.reply = some (.ok st)) (settings : Settings)
    {later : Site σ} (files : later.files = site.files) :
    (u.followOn settings st.genesis (u.directory st.network)).Ends later
      (fun report _ => report.result = .ok () → u.FollowedFrom settings first last l)
      (fun _ _ => True) := by
  unfold followOn
  rw [Step.ends_bind, Step.ends_get, files, Step.ends_bind]
  cases placed : site.files.disk (u.directory st.network) with
  | error fault => trivial
  | ok disk =>
    rw [Step.ends_ofExcept_ok, Step.ends_bind]
    cases opened : Store.openAt disk with
    | error e => trivial
    | ok store =>
      rw [Step.ends_ofExcept_ok]
      have ledger : store.ledger = l := resumes.opens st disk store status placed opened
      have manifest : site.files.read? u.config.bootstrapBalances = none := by
        rw [resumes.unseeded]
        rfl
      rw [manifest]
      -- The store that is opened holds the ledger the run resumes from, so the pipeline starts
      -- at first.
      have ran := follow_follows (u := u) settings st.genesis
        { world := later.world, store := store.withInterval u.config.storeFlushInterval }
      rw [resumes.start st status, resumes.stop] at ran
      rcases eq : (u.follow settings st.genesis none).eval
        { world := later.world, store := store.withInterval u.config.storeFlushInterval }
        with ⟨stop | report, t⟩
      · trivial
      · obtain passed := ran.of_ok eq
        show Step.Ends (set _ >>= _) _ _ _
        rw [Step.ends_bind, Step.ends_set]
        show Step.Ends (Step.ofExcept AuditError.store t.store.close.1 >>= fun _ => pure report)
          _ _ _
        cases t.store.close.1 with
        | error e => trivial
        | ok =>
          intro result
          obtain ⟨next, s, v, goes, same, run⟩ := passed result
          have books : s.books = (l.blocks, l.balances) := by
            rw [same, ← ledger]
            rfl
          exact ⟨next, s, v, ledger ▸ goes, books, run⟩

/-- A search never comes to a success. -/
theorem localize_fails (u : Audit σ) (settings : Settings) (genesis : BlockId) (h : Holding)
    (observed : BlockId) (site : Site σ) :
    (u.localize settings genesis h observed).Ends site (fun v _ => v.isSuccess = false)
      (fun _ _ => True) := by
  unfold localize
  rw [Step.ends_bind, Step.ends_get]
  dsimp only
  rw [Step.ends_bind, Step.ends_set]
  split
  · exact Eq.refl false
  · next e _ => cases e <;> exact Eq.refl false
  · trivial
  · trivial

/-- **An audit that passes** has followed the chain from where its ledger ended. -/
theorem run_follows (resumes : u.Resumes site first last l) :
    u.run.Ends site
      (fun v _ => v.isSuccess = true → ∃ settings, u.FollowedFrom settings first last l)
      (fun _ _ => True) := by
  unfold run
  rw [Step.ends_bind]
  refine (ask_keeps u.node.status site).mono ?_ fun _ _ h => h
  rintro st asked ⟨status, files⟩
  rw [Step.ends_bind]
  refine (settings_keeps u asked).mono ?_ fun _ _ h => h
  rintro settings later same
  rw [same, Step.ends_bind]
  refine (followOn_follows resumes status settings files).mono ?_ fun _ _ h => h
  intro report later ran
  rw [Step.ends_bind, Step.ends_get]
  dsimp only
  split
  · next v concluded =>
    intro success
    refine ⟨settings, ran ?_⟩
    -- A verdict of success leaves no room for an error in the report.
    have fine := Ending.error_of_success concluded success
    cases result : report.result with
    | ok => rfl
    | error e =>
      rw [result] at fine
      cases fine
  · refine (u.localize_fails settings st.genesis _ _ later).mono (fun _ _ failed success => ?_)
      fun _ _ h => h
    rw [failed] at success
    cases success

end Audit

/-! ## Both together

The two segments meet at the cut, with the block between them whose checks were cut off, if
there is one. -/

/-- The node of the chain, whose balances at one block never come, as the operator
cancels the run while it is asked for one. -/
def Chain.canceling (c : Chain) (index : Int) : Node Unit :=
  { c.node with
    balance := fun h id? s =>
      (if id?.any (·.index = index) then ⟨some .cancel, none⟩ else .replied (c.balance h id?), s) }

theorem Chain.canceling_honest (c : Chain) (index : Int) : (c.canceling index).Honest c where
  block := c.honest.block
  balance := by
    intro h id s r reply
    unfold canceling at reply
    dsimp only at reply
    split at reply
    · cases reply
    · exact Option.some.inj reply

namespace Auditor

variable {a : Auditor σ} {c : Chain} {first last next : Int} {s t u : Session σ}
  {bs left : List Block}

/-- A run that is canceled leaves off before a block of its range. -/
theorem LeavesOff.atomic_iff (honest : a.node.Honest c) (keyed : c.Keyed)
    (off : a.LeavesOff next u left t) (reaches : u.store.ledger.Reaches next) :
    left = [] ↔
      ∀ head, t.store.ledger.head? = some head → Index.next? head.index = some next := by
  obtain ⟨head, between | ⟨b, within, key, found⟩⟩ := off.head? honest keyed reaches
  · refine ⟨fun _ => ?_, fun _ => between⟩
    rw [head, between]
    exact reaches
  · constructor
    · intro between
      rw [within] at between
      cases between
    · intro follows
      rw [within] at head
      have before := (Index.word?_eq_some_iff.mp (follows b.id head)).2
      omega

/-- The ledger that a canceled run leaves is gone on with at the block it was
canceled at, unless that is in the store. -/
theorem LeavesOff.resume (honest : a.node.Honest c) (keyed : c.Keyed)
    (applies : a.Applies first s bs u next) (off : a.LeavesOff next u left t)
    (start : s.store.ledger.Reaches first) :
    left = [] ∧ t.store.ledger.resume? first = some next ∨
      ∃ b, left = [b] ∧ b.id.index = next ∧ c.blocks.find? next = some b ∧
        t.store.ledger.resume? first = Index.next? next := by
  obtain ⟨last, reaches⟩ := applies.head? honest keyed start
  obtain ⟨head, between | ⟨b, within, rfl, found⟩⟩ := off.head? honest keyed reaches
  · rw [between] at head
    have head : t.store.ledger.head? = u.store.ledger.head? := head
    refine .inl ⟨between, ?_⟩
    unfold Ledger.resume?
    cases eq : t.store.ledger.head? with
    | some id => exact reaches id (head ▸ eq)
    | none =>
      -- Without a head nothing was applied.
      rw [head, last, Option.or_eq_none_iff, Option.map_eq_none_iff,
        List.getLast?_eq_none_iff] at eq
      obtain ⟨rfl, _⟩ := eq
      cases applies
      rfl
  · rw [within] at head
    have head : t.store.ledger.head? = some b.id := head
    refine .inr ⟨b, within, rfl, found, ?_⟩
    unfold Ledger.resume?
    rw [head]

/-- What a canceled run applied, the block it left off within and what a later run
applies are the blocks of the range. -/
theorem Applies.segment_resumed {τ : Type} {a' : Auditor τ} (honest : a.node.Honest c)
    (honest' : a'.node.Honest c) (keyed : c.Keyed)
    (start : s.store.ledger.Reaches first) (applies : a.Applies first s bs u next)
    (off : a.LeavesOff next u left t) (due : next ≤ last)
    {s' u' : Session τ} {bs' : List Block} {first' next' : Int}
    (resumes : t.store.ledger.resume? first = some first')
    (same : s'.store.ledger.head? = t.store.ledger.head?)
    (applies' : a'.Applies first' s' bs' u' next')
    (past : last < next') (within' : ∀ b ∈ bs', b.id.index ≤ last) :
    c.segment first last = bs ++ left ++ bs' ∧ next' = last + 1 := by
  obtain ⟨before, le, _⟩ := applies.segment honest keyed start
  obtain ⟨behind, le', stop⟩ :=
    applies'.segment honest' keyed ((Ledger.Reaches.of_resume? resumes).congr same)
  have last_block : ∀ b ∈ bs', next' = b.id.index + 1 → next' = last + 1 := by
    intro b mem eq
    have := within' b mem
    omega
  -- What the first run stored is the segment up to next; the rest is the second run's.
  have parts : c.segment first last = bs ++ c.segment next last := by
    have split : c.segment first last =
        c.segment first (next - 1) ++ c.segment (next - 1 + 1) last :=
      Chain.segment_append (by omega) (by omega)
    rwa [← before, Int.sub_add_cancel] at split
  -- Either nothing was left behind, or one stored block whose checks were cut off.
  rcases off.resume honest keyed applies start with ⟨rfl, here⟩ | ⟨b, rfl, key, found, here⟩
  · cases here.symm.trans resumes
    have last' : next' = last + 1 := by
      rcases stop with stop | ⟨b, mem, eq⟩
      · omega
      · exact last_block b mem eq
    rw [last', Int.add_sub_cancel] at behind
    rw [parts, behind, List.append_nil]
    exact ⟨rfl, last'⟩
  · obtain ⟨_, rfl⟩ := Index.word?_eq_some_iff.mp (here.symm.trans resumes)
    have last' : next' = last + 1 := by
      rcases stop with stop | ⟨b, mem, eq⟩
      · omega
      · exact last_block b mem eq
    have one : c.segment next next = [b] := by
      rw [Chain.segment_concat (le_refl _) found, Chain.segment_of_lt (by omega), List.nil_append]
    rw [last', Int.add_sub_cancel] at behind
    have parts' : c.segment next last = c.segment next next ++ c.segment (next + 1) last :=
      Chain.segment_append (by omega) due
    rw [parts, parts', one, behind, List.append_assoc]
    exact ⟨rfl, last'⟩

/-- Every later audit that passes goes on with the ledger, and what it applies are the
blocks of the range behind those that are done. -/
def GoesOn (c : Chain) (first last : Int) (t : Session σ) (done : List Block) : Prop :=
  ∀ (τ : Type) (later : Audit τ) (site site' : Site τ) (v : Verdict), later.node.Honest c →
    later.Resumes site first last t.store.ledger → later.run.eval site = (.ok v, site') →
    v.isSuccess = true → ∃ settings next, ∃ s u : Session τ, ∃ bs,
      t.store.ledger.resume? first = some next ∧
      (s.store.ledger.blocks, s.store.ledger.balances) = t.books ∧
      Applies ⟨later.node, settings⟩ next s bs u (last + 1) ∧
      c.segment first last = done ++ bs

/-- **Where a canceled run leaves off.** The blocks before `next` were applied with all
their checks. Either that is all, the head is the block before, and a later audit that
passes applies the other blocks of the range; or `next` itself is in the store, one of
its checks never came to an end, and the later audit goes on behind it. -/
theorem sync_canceled (honest : a.node.Honest c) (keyed : c.Keyed) (inRange : Index.InRange first)
    (before : ∀ head, s.store.ledger.head? = some head → head.index = first - 1)
    {stop : Option Int}
    (canceled : (a.sync a.workers first stop).eval s = (.error (.failed (.canceled next)), t)) :
    ∃ bs u left, a.Applies first s bs u next ∧ a.LeavesOff next u left t ∧
      t.store.ledger.head? = ((bs ++ left).getLast?.map (·.id)).or s.store.ledger.head? ∧
      (left = [] ↔
        ∀ head, t.store.ledger.head? = some head → Index.next? head.index = some next) ∧
      ∀ last, stop = some last → GoesOn c first last t (bs ++ left) := by
  have start : s.store.ledger.Reaches first := .of_before inRange before
  obtain ⟨bs, u, left, applies, off, due, _⟩ :=
    (syncFrom_applies honest keyed (Index.count + 1) first s).of_error canceled next rfl
  obtain ⟨last_block, reaches⟩ := applies.head? honest keyed start
  obtain ⟨head, _⟩ := off.head? honest keyed reaches
  refine ⟨bs, u, left, applies, off, ?_, off.atomic_iff honest keyed reaches, ?_⟩
  · rw [head, last_block, List.getLast?_append]
    cases left.getLast? <;> rfl
  -- The later run starts where the stored head says, on whichever side of the cut that is.
  · rintro last rfl τ later site site' v honest' resumes passed success
    obtain ⟨settings, next', s', t', goes, same, run⟩ :=
      (Audit.run_follows resumes).of_ok passed success
    obtain ⟨bs', u', _, applies', _, past, within'⟩ :=
      (syncFrom_applies (a := ⟨later.node, settings⟩) honest' keyed (Index.count + 1) _
        s').of_ok run
    have head' : s'.store.ledger.head? = t.store.ledger.head? := by
      rw [Ledger.head?, (Prod.mk.inj same).1, Ledger.head?]
    obtain ⟨blocks, rfl⟩ := applies.segment_resumed honest honest' keyed start off
      (by simpa using due) goes head' applies' (by simpa using past)
      fun b mem => by simpa using within' b mem
    exact ⟨settings, next', s', u', bs', goes, same, applies', blocks⟩

/-- A run over two blocks, canceled while the second one is checked. -/
theorem sync_canceled_second :
    let a : Auditor Unit := ⟨Chain.gap.canceling 1, {}⟩
    let s : Session Unit := { world := World.enter { node := () }, store := {} }
    Chain.gap.Keyed ∧ Index.InRange 0 ∧
      (∀ head, s.store.ledger.head? = some head → head.index = 0 - 1) ∧
      ∃ t, (a.sync a.workers 0 (some 1)).eval s = (.error (.failed (.canceled 1)), t) ∧
        ∃ bs u left, a.Applies 0 s bs u 1 ∧ a.LeavesOff 1 u left t ∧
          t.store.ledger.head? = ((bs ++ left).getLast?.map (·.id)).or s.store.ledger.head? ∧
          (left = [] ↔
            ∀ head, t.store.ledger.head? = some head → Index.next? head.index = some 1) ∧
          ∀ last, some 1 = some last → GoesOn Chain.gap 0 last t (bs ++ left) := by
  intro a s
  have keyed : Chain.gap.Keyed := Chain.gap_spans.keyed
  have run : (a.sync a.workers 0 (some 1)).eval s =
      (.error (.failed (.canceled 1)), ((a.sync a.workers 0 (some 1)).eval s).2) :=
    Prod.ext (by decide +kernel) rfl
  have fresh : ∀ head, s.store.ledger.head? = some head → head.index = 0 - 1 := by
    intro head eq
    cases eq
  exact ⟨keyed, by decide, fresh, _, run,
    sync_canceled (Chain.canceling_honest _ 1) keyed (by decide) fresh run⟩

/-- The second block is in the store, and a later audit passes although its balance is
wrong. -/
theorem sync_canceled_hides :
    let a : Auditor Unit := ⟨Chain.gap.canceling 1, {}⟩
    let s : Session Unit := { world := World.enter { node := () }, store := {} }
    ∃ t, (a.sync a.workers 0 (some 1)).eval s = (.error (.failed (.canceled 1)), t) ∧
      t.store.ledger.head? = some ⟨1, "b"⟩ ∧
      ¬(t.store.ledger.balances.find? .alice).map (·.value) =
        some (Chain.gap.balanceAt .alice 1) ∧
      t.store.ledger.resume? 0 = some 2 ∧
      ∃ u, (Auditor.runPipeline ⟨Chain.gap.node, {}⟩ 2 (some 1)).eval
        { world := World.enter { node := () }, store := t.store } = (.ok (), u) := by
  intro a s
  exact ⟨((a.sync a.workers 0 (some 1)).eval s).2, Prod.ext (by decide +kernel) rfl,
    by decide +kernel, by decide +kernel, by decide +kernel, _, Prod.ext (by decide +kernel) rfl⟩

end Auditor

end BalanceAudit
