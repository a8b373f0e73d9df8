import BalanceAudit.Proofs.Books
import BalanceAudit.Proofs.Chain.TwoBlocks
import BalanceAudit.Proofs.Sync

/-!
# What computed balances are

At every moment of a run from an empty store the balances are what was there
before the first block that names a holding, and what the blocks since then
report. The node may fail, fall silent and have no block yet at any call, and
somebody may end the run there; all that is asked of it is that the blocks and
past balances it does report are those of the chain. So the states in which a run
can end are those that it goes through.

- `Node.Honest`: such a node; `Chain.Keyed`: blocks under their own indices.
- `Auditor.expected?`: what the blocks lead to; `Auditor.ExactSums`: no sum that a
  run forms has to be rounded.
- `Ledger.Computed`: a ledger that has this for the blocks up to its head.
- `Ledger.Computed.apply`: one more block.
- `Auditor.sync_computed`: **it has it at every moment of a run**, whatever
  observes the commits, and with the sweeps of a pipeline beside it.
-/

namespace BalanceAudit

variable {σ : Type}

/-! ## Nodes and chains

An honest node may fail to answer, but tells no other block or past balance than the
chain's. -/

/-- Whenever the node reports a block or a past balance it is that of the chain. -/
structure Node.Honest (n : Node σ) (c : Chain) : Prop where
  block : ∀ index s b, (n.block index s).1.reply = some (.ok (some b)) →
    c.blocks.find? index = some b
  balance : ∀ h id s r, (n.balance h (some id) s).1.reply = some (.ok r) →
    c.balance h (some id) = .ok r

/-- The node of the chain is honest. -/
theorem Chain.honest (c : Chain) : c.node.Honest c where
  block := fun _ _ _ reply => Except.ok.inj (Option.some.inj reply)
  balance := fun _ _ _ _ reply => Option.some.inj reply

/-- Blocks stand under their own indices, which are words. -/
structure Chain.Keyed (c : Chain) : Prop where
  index : ∀ i b, c.blocks.find? i = some b → b.id.index = i
  inRange : ∀ i b, c.blocks.find? i = some b → Index.InRange i

theorem Chain.Spans.keyed {c : Chain} {genesis tip : Int} (spans : c.Spans genesis tip) :
    c.Keyed where
  index := fun i _ found =>
    have ⟨ge, le⟩ := spans.only i _ found
    spans.linked.index ge le found
  inRange := fun i b found => by
    have ⟨ge, le⟩ := spans.only i b found
    exact ⟨spans.low.trans ge, le.trans spans.high⟩

/-- A reported past balance is the one at the block. -/
theorem Chain.balance_of_ok {c : Chain} {h : Holding} {id id' : BlockId} {v : Decimal}
    (reply : c.balance h (some id) = .ok (id', v)) : v = c.balanceAt h id.index := by
  rw [balance] at reply
  split at reply
  · split at reply
    · cases reply
      rfl
    · cases reply
  · cases reply

/-! ## Expected balances

Expected is said with the operations of the chain alone; the ledger is not asked. The
invariant compares the two at the head. -/

namespace Auditor

/-- What a holding has before the first block of a run that names it: what the
node reports at the parent, if it knows past balances. -/
def before (a : Auditor σ) (c : Chain) (b : Block) (h : Holding) : Decimal :=
  if a.settings.lookup then c.opening b h else .zero

/-- The balance that the operations of consecutive blocks lead to; none if no
block names the holding. -/
def expected? (a : Auditor σ) (c : Chain) (h : Holding) (bs : List Block) : Option ℚ :=
  Block.running? (fun b => (a.before c b h).toRat) h bs

/-- No sum that a run from `first` to `last` forms has to be rounded. -/
structure ExactSums (a : Auditor σ) (c : Chain) (first : Int) (last : Option Int) : Prop where
  within : ∀ i b, first ≤ i → last.any (· < i) = false → c.blocks.find? i = some b → b.SumsExact
  running : ∀ i h q, first ≤ i → last.any (· < i) = false →
    a.expected? c h (c.segment first i) = some q → Decimal.Representable q

end Auditor

namespace Auditor

variable {a : Auditor σ} {c : Chain}

/-- With past balances it is the balance that the chain itself leads to. -/
theorem expected?_of_lookup (lookup : a.settings.lookup = true) (h : Holding) (bs : List Block) :
    a.expected? c h bs = c.computed? h bs := by
  unfold expected? before
  simp only [lookup, if_true]
  rfl

theorem ExactSums.of_lookup (lookup : a.settings.lookup = true) {first last : Int}
    (exact_ : c.ExactSums first last) : a.ExactSums c first (some last) where
  within := fun i b ge le => exact_.within i b ge (by simpa using le)
  running := fun i h q ge le sum =>
    exact_.running i h q ge (by simpa using le) (expected?_of_lookup lookup h _ ▸ sum)

end Auditor

/-- The blocks of the chain that a ledger has from `first` on. -/
def Ledger.followed (l : Ledger) (c : Chain) (first : Int) : List Block :=
  match l.head? with
  | some head => c.segment first head.index
  | none => []

/-- The ledger has followed the chain from `first` to its head. A holding has a
record iff a block since then reports it; its value is what the reports lead to,
and its block the last one that reports it. -/
structure Ledger.Computed (a : Auditor σ) (c : Chain) (first : Int) (l : Ledger) : Prop where
  head : ∀ head, l.head? = some head →
    first ≤ head.index ∧ ∃ b, c.blocks.find? head.index = some b ∧ b.id = head
  known : ∀ h, (l.balances.find? h).isSome = true ↔
    ∃ b ∈ l.followed c first, b.reports h = true
  value : ∀ h r, l.balances.find? h = some r →
    a.expected? c h (l.followed c first) = some r.value.toRat
  block : ∀ h r, l.balances.find? h = some r →
    ((l.followed c first).filter (·.reports h)).getLast?.map (·.id) = some r.block

/-- The next block of a ledger: the one behind the head, or the first one. -/
structure Ledger.Awaits (first : Int) (l : Ledger) (next : Int) : Prop where
  start : l.head? = none → next = first
  next : ∀ head, l.head? = some head → Index.next? head.index = some next

theorem Ledger.Awaits.of_books {s t : Session σ} {first next : Int}
    (h : s.store.ledger.Awaits first next) (same : t.books = s.books) :
    t.store.ledger.Awaits first next := by
  have head : t.store.ledger.head? = s.store.ledger.head? := by
    rw [head?, (Prod.mk.inj same).1, head?]
  constructor <;> rw [head]
  exacts [h.start, h.next]

namespace Ledger.Computed

variable {a : Auditor σ} {c : Chain} {first : Int} {l l' : Ledger} {b : Block}

theorem empty : Computed a c first ({} : Ledger) where
  head := nofun
  known := fun _ => ⟨nofun, fun ⟨_, mem, _⟩ => nomatch mem⟩
  value := nofun
  block := nofun

/-- Only blocks and balances matter. -/
theorem congr (h : Computed a c first l) (blocks : l'.blocks = l.blocks)
    (balances : l'.balances = l.balances) : Computed a c first l' := by
  have head : l'.head? = l.head? := by rw [head?, blocks, head?]
  have followed : l'.followed c first = l.followed c first := by
    rw [Ledger.followed, head, Ledger.followed]
  refine ⟨?_, ?_, ?_, ?_⟩
  · rw [head]
    exact h.head
  · rw [balances, followed]
    exact h.known
  · rw [balances, followed]
    exact h.value
  · rw [balances, followed]
    exact h.block

theorem of_books {s t : Session σ} (h : Computed a c first s.store.ledger)
    (same : t.books = s.books) : Computed a c first t.store.ledger :=
  h.congr (Prod.mk.inj same).1 (Prod.mk.inj same).2

/-- The balance on top of which the net change of the next block is put. -/
theorem prior_toRat (h : Computed a c first l) (holding : Holding) :
    (a.prior c l b holding).toRat =
      (a.expected? c holding (l.followed c first)).getD (a.before c b holding).toRat := by
  unfold Auditor.prior
  cases found : l.balances.find? holding with
  | some r => rw [h.value holding r found, Option.getD_some]
  | none =>
    have silent : (l.followed c first).find? (·.reports holding) = none := by
      rw [List.find?_eq_none]
      intro b mem reports
      have known := (h.known holding).mpr ⟨b, mem, reports⟩
      rw [found] at known
      cases known
    rw [Auditor.expected?, Block.running?, silent]
    rfl

/-- The next block is behind all others, and follows on them. -/
theorem segment_eq (h : Computed a c first l)
    (found : c.blocks.find? b.id.index = some b) (awaits : l.Awaits first b.id.index) :
    first ≤ b.id.index ∧ c.segment first b.id.index = l.followed c first ++ [b] ∧
      ∀ head, l.head? = some head → head.index < b.id.index := by
  unfold Ledger.followed
  cases eq : l.head? with
  | none =>
    have start := awaits.start eq
    refine ⟨start.ge, ?_, nofun⟩
    rw [Chain.segment_concat start.ge found, Chain.segment_of_lt (by omega)]
  | some head =>
    obtain ⟨ge, b', before, rfl⟩ := h.head head eq
    have step := (Index.word?_eq_some_iff.mp (awaits.next b'.id eq)).2
    refine ⟨by omega, ?_, fun _ same => ?_⟩
    · have last : b.id.index - 1 = b'.id.index := by omega
      rw [Chain.segment_concat (by omega) found, last]
    · cases same
      omega

/-- **One more block.** Every holding it reports gets what was there before and
the net change, and the block as its last one; the others keep what they have. -/
theorem apply (h : Computed a c first l)
    (found : c.blocks.find? b.id.index = some b) (awaits : l.Awaits first b.id.index)
    {cs : List Change}
    (staged : b.Staged
      (fun holding v => v.toRat = (a.prior c l b holding).toRat + b.net holding) cs)
    (counts : List (String × Count)) : Computed a c first (l.apply ⟨b.id, cs, counts⟩) := by
  obtain ⟨ge, segment, behind⟩ := h.segment_eq found awaits
  have head : (l.apply ⟨b.id, cs, counts⟩).head? = some b.id := head?_apply behind
  have followed : (l.apply ⟨b.id, cs, counts⟩).followed c first = l.followed c first ++ [b] := by
    rw [Ledger.followed, head]
    exact segment
  -- The holdings of the block have their new balance, and the others what they had.
  have reported : ∀ holding, b.reports holding = true → ∃ v,
      (l.apply ⟨b.id, cs, counts⟩).balances.find? holding = some ⟨v, b.id⟩ ∧
        v.toRat = (a.prior c l b holding).toRat + b.net holding := by
    intro holding reports
    obtain ⟨change, mem, rfl⟩ := List.mem_map.mp ((staged.mem_iff holding).mpr reports)
    refine ⟨change.value, ?_, staged.value change mem⟩
    rw [find?_balances_apply (b := ⟨b.id, cs, counts⟩) staged.distinct mem, staged.block change mem]
  have others : ∀ holding, ¬b.reports holding = true →
      (l.apply ⟨b.id, cs, counts⟩).balances.find? holding = l.balances.find? holding :=
    fun holding silent => find?_balances_apply_of_notMem (b := ⟨b.id, cs, counts⟩) fun mem =>
      silent ((staged.mem_iff holding).mp mem)
  -- The head, which holdings are known, their values, and the blocks they were changed at.
  refine ⟨fun head' eq => ?_, fun holding => ?_, fun holding r => ?_, fun holding r => ?_⟩
  · rw [head] at eq
    cases eq
    exact ⟨ge, b, found, rfl⟩
  · rw [followed]
    simp only [List.mem_append, List.mem_singleton]
    by_cases reports : b.reports holding = true
    · obtain ⟨v, found, _⟩ := reported holding reports
      rw [found]
      exact ⟨fun _ => ⟨b, .inr rfl, reports⟩, fun _ => rfl⟩
    · rw [others holding reports, h.known]
      constructor
      · rintro ⟨b', mem, reports'⟩
        exact ⟨b', .inl mem, reports'⟩
      · rintro ⟨b', mem | rfl, reports'⟩
        · exact ⟨b', mem, reports'⟩
        · exact absurd reports' reports
  · rw [followed, Auditor.expected?, Block.running?_concat, ← Auditor.expected?]
    by_cases reports : b.reports holding = true
    · obtain ⟨v, found, value⟩ := reported holding reports
      rw [found, if_pos reports, ← h.prior_toRat holding, ← value]
      rintro ⟨⟩
      rfl
    · rw [others holding reports, if_neg reports]
      exact h.value holding r
  · rw [followed, List.filter_append]
    by_cases reports : b.reports holding = true
    · obtain ⟨v, found, _⟩ := reported holding reports
      have last : [b].filter (·.reports holding) = [b] := List.filter_cons_of_pos reports
      rw [found, last, List.getLast?_concat]
      rintro ⟨⟩
      rfl
    · have not_last : [b].filter (·.reports holding) = [] := List.filter_cons_of_neg reports
      rw [others holding reports, not_last, List.append_nil]
      exact h.block holding r

end Ledger.Computed

/-! ## Staging

Staging reads the balance from the ledger or from the node, and both are what is expected in
front of the block. -/

/-- A reply is what the node says in the state in which it is asked. -/
theorem Step.ends_ask {ε α : Type} {s : Session σ} (call : σ → Answer α × σ) :
    (ask call : Step (Session σ) ε _).Ends s
      (fun r _ => (call s.world.node).1.reply = some r) (fun _ _ => True) := by
  unfold Ends
  rw [eval_ask]
  cases reply : (s.world.call call).1 with
  | none => trivial
  | some r => exact reply

namespace Auditor

variable {a : Auditor σ} {c : Chain} {first : Int} {last : Option Int} {s : Session σ} {b : Block}

/-- An opening balance that is found is the one before the block. -/
theorem openingBalance_honest (honest : a.node.Honest c) (h : Holding) :
    (a.openingBalance b h).Ends s (fun v _ => v = a.before c b h) (fun _ _ => True) := by
  unfold openingBalance before
  by_cases unasked : b.isGenesis = true ∨ ¬a.settings.lookup = true
  · rw [if_pos unasked, Step.ends_pure]
    exact (opening_of_unasked unasked c h).symm
  · rw [if_neg unasked, Step.ends_bind]
    rw [not_or, not_not] at unasked
    refine (Step.ends_ask _).mono (fun r t reply => ?_) fun _ _ h => h
    rw [Step.ends_bind]
    cases r with
    | error cause => trivial
    | ok answer =>
      have value := Chain.balance_of_ok (honest.balance h b.parent _ answer reply)
      rw [if_pos unasked.2, Chain.opening, if_neg unasked.1]
      exact value

/-- A change that is staged puts the net change on top of the balance before. -/
theorem stageChange_honest (honest : a.node.Honest c) {l : Ledger}
    (balances : s.store.ledger.balances = l.balances) (h : Holding) (d : Decimal) :
    (a.stageChange b (h, d)).Ends s
      (fun change _ => change.holding = h ∧ change.block = b.id ∧
        (a.prior c l b h).add? d = some change.value) (fun _ _ => True) := by
  refine stageChange_of_previous
    (P := fun previous _ _ => previous = a.prior c l b h) (fun _ => trivial) (fun r found => ?_)
    (fun missing => ?_) ?_
  · rw [balances] at found
    rw [prior, found]
  · rw [balances] at missing
    rw [prior, missing]
    exact (openingBalance_honest honest h).mono (fun _ _ h => h) fun _ _ h => h
  · rintro _ isNew t rfl
    rw [Step.ends_within]
    exact ⟨fun v sum => ⟨rfl, rfl, sum⟩, fun _ => trivial⟩

/-- What is staged of a block is one change for every holding it reports, with
the balance before and the net change as its value. -/
theorem stageBalances_honest (honest : a.node.Honest c) {l : Ledger}
    (balances : s.store.ledger.balances = l.balances) (within : b.SumsExact)
    (fits : ∀ h, b.reports h = true →
      Decimal.Representable ((a.prior c l b h).toRat + b.net h)) :
    (a.stageBalances b (Batch.ofBlock b)).Ends s
      (fun batch _ => ∃ cs, batch = Batch.changing b cs ∧
        b.Staged (fun h v => v.toRat = (a.prior c l b h).toRat + b.net h) cs)
      (fun _ _ => True) := by
  obtain ⟨ds, deltas, nets⟩ := Block.deltas?_exact within
  refine (stageBalances_each deltas
    (C := fun change => change.block = b.id ∧
      change.value.toRat = (a.prior c l b change.holding).toRat + b.net change.holding)
    (R := fun t => t.store.ledger.balances = l.balances) ?_ balances).mono ?_ fun _ _ h => h
  · intro h d t mem same
    have reports : b.reports h = true :=
      (Block.mem_keys_deltas? deltas h).mp (List.mem_map_of_mem (f := (·.1)) mem)
    refine ((stageChange_honest honest same h d).and ((a.stageChange_leaves b (h, d)).ends t)).mono
      ?_ fun _ _ _ => trivial
    rintro change u ⟨⟨rfl, block, sum⟩, books⟩
    obtain ⟨v, sum', value⟩ := Decimal.add?_exact (a := a.prior c l b change.holding) (b := d)
      (by rw [nets _ _ mem]; exact fits _ reports)
    rw [sum] at sum'
    cases sum'
    exact ⟨⟨rfl, block, by rw [value, nets _ _ mem]⟩, (Prod.mk.inj books).2.trans same⟩
  · rintro _ t ⟨⟨cs, rfl, holdings, each⟩, _⟩
    exact ⟨cs, rfl, Block.staged_of_deltas deltas holdings each⟩

/-! ## Whole runs

A commit is the one move that the invariant notices. It goes from one block to the next by
the lemma on one more block. -/

/-- What is fetched is one of the node's replies for that index. -/
theorem fetchBlock_replies {P : Block → Prop} {index : Int} (replies : ∀ v b,
    (a.node.block index v).1.reply = some (.ok (some b)) → P b) :
    (a.fetchBlock index).Ends s (fun b _ => P b) (fun _ _ => True) := by
  have fetch : ∀ fuel attempts s, (a.fetchFrom index fuel attempts).Ends s
      (fun b _ => P b) (fun _ _ => True) := by
    intro fuel
    induction fuel with
    | zero => exact fun _ _ => trivial
    | succ fuel ih =>
      intro attempts s
      -- Whatever is waited for, the next attempt asks for the same block.
      have again : ∀ attempts ms s,
          (do a.pause ms; a.fetchFrom index fuel attempts : Step (Session σ) SyncError Block).Ends s
            (fun b _ => P b) (fun _ _ => True) := by
        intro attempts ms s
        rw [Step.ends_bind]
        exact ((a.pause_leaves ms).ends s).mono (fun _ t _ => ih attempts t) fun _ _ _ => trivial
      unfold fetchFrom
      rw [Step.ends_bind]
      refine (proceed_leaves.ends s).mono (fun _ t _ => ?_) fun _ _ _ => trivial
      rw [Step.ends_bind]
      refine (Step.ends_ask _).mono (fun r u reply => ?_) fun _ _ h => h
      split
      · next b => exact replies _ b reply
      · exact again _ _ _
      · split
        · exact again _ _ _
        · trivial
      · trivial
  exact fetch _ 0 s

/-- A block that is fetched is that of the chain. -/
theorem fetchBlock_honest (honest : a.node.Honest c) (index : Int) :
    (a.fetchBlock index).Ends s (fun b _ => c.blocks.find? index = some b) (fun _ _ => True) :=
  fetchBlock_replies (honest.block index)

/-- The observer leaves blocks and balances alone, whatever else it does. -/
def Discreet (observer : Option (Observer σ)) : Prop :=
  ∀ observe ∈ observer, ∀ b cs, Step.Leaves Session.books (observe b cs)

/-- The sum that staging forms for a holding is one of those that need no
rounding. -/
theorem ExactSums.fits (exact_ : a.ExactSums c first last) {l : Ledger}
    (computed : l.Computed a c first) (found : c.blocks.find? b.id.index = some b)
    (awaits : l.Awaits first b.id.index) (inside : last.any (· < b.id.index) = false) {h : Holding}
    (reports : b.reports h = true) :
    Decimal.Representable ((a.prior c l b h).toRat + b.net h) := by
  obtain ⟨ge, segment, _⟩ := computed.segment_eq found awaits
  refine exact_.running b.id.index h _ ge inside ?_
  rw [segment, expected?, Block.running?_concat, ← expected?, if_pos reports, computed.prior_toRat]

/-- What a commit leaves, whether or not the file can be written. -/
theorem commit_ends {batch : Batch} {Q : Ledger → Prop} {E : Stop SyncError → Session σ → Prop}
    (refused : ∀ stop, E stop s)
    (taken : s.store.closed = false →
      (∀ head, s.store.ledger.head? = some head → Index.next? head.index = some batch.block.index) →
      Q (s.store.ledger.apply batch) ∧
        ∀ stop t, t.store.ledger = s.store.ledger.apply batch → E stop t) :
    (Step.commit SyncError.store batch : Step (Session σ) SyncError Unit).Ends s
      (fun _ t => Q t.store.ledger) E := by
  rcases Store.commit_cases s.store batch with ⟨same, failed⟩ | ⟨isOpen, next, eq⟩
  · refine Step.ends_commit (fun result => absurd result failed) fun _ _ => ?_
    rw [same]
    exact refused _
  · obtain ⟨ok, error⟩ := taken isOpen next
    have ledger : (s.store.commit batch).2.ledger = s.store.ledger.apply batch := by
      rw [eq, Store.committed_ledger]
    refine Step.ends_commit (fun _ => ?_) fun _ _ => error _ _ ledger
    show Q (s.store.commit batch).2.ledger
    rw [ledger]
    exact ok

/-- However entering a block ends, the balances are as expected; if it finishes, the block is
the head. -/
theorem enterBlock_computed (honest : a.node.Honest c) (keyed : c.Keyed)
    (exact_ : a.ExactSums c first last) {index : Int}
    (computed : s.store.ledger.Computed a c first) (awaits : s.store.ledger.Awaits first index)
    (inside : last.any (· < index) = false) :
    (a.enterBlock index).Ends s
      (fun r t => r.1.id.index = index ∧ t.store.ledger.Computed a c first ∧
        t.store.ledger.head? = some r.1.id)
      (fun _ t => t.store.ledger.Computed a c first) := by
  unfold enterBlock
  rw [Step.ends_bind]
  refine ((fetchBlock_honest honest index).and ((a.fetchBlock_leaves index).ends s)).mono ?_
    fun _ _ ⟨_, same⟩ => computed.of_books same
  rintro b t ⟨found, fetched⟩
  have key := keyed.index index b found
  subst key
  have computed_t := computed.of_books fetched
  have awaits_t := awaits.of_books fetched
  obtain ⟨ge, _, _⟩ := computed_t.segment_eq found awaits_t
  rw [Step.ends_bind, Step.ends_mapError]
  have staging := stageBalances_honest (s := t) honest rfl (exact_.within _ b ge inside found)
    (fun h reports => exact_.fits computed_t found awaits_t inside reports)
  refine (staging.and ((a.stageBalances_leaves b _).ends t)).mono ?_
    fun _ _ ⟨_, same⟩ => computed_t.of_books same
  rintro _ u ⟨⟨cs, rfl, staged⟩, same⟩
  obtain ⟨counts, _, changing⟩ := Batch.changing_counts b cs
  have computed_u := computed_t.of_books same
  have awaits_u := awaits_t.of_books same
  obtain ⟨_, _, behind⟩ := computed_u.segment_eq found awaits_u
  have staged_u : b.Staged
      (fun h v => v.toRat = (a.prior c u.store.ledger b h).toRat + b.net h) cs := by
    unfold prior
    rw [(Prod.mk.inj same).2]
    exact staged
  have after := computed_u.apply found awaits_u staged_u counts
  rw [changing, Step.ends_bind]
  refine (commit_ends (Q := fun l => l.Computed a c first ∧ l.head? = some b.id)
    (fun _ => computed_u) fun _ _ => ⟨⟨after, Ledger.head?_apply behind⟩, ?_⟩).mono ?_
      fun _ _ h => h
  · intro _ v eq
    rw [eq]
    exact after
  · exact fun _ v h => ⟨rfl, h⟩

/-- Telling of a block leaves the books alone, as its observer does. -/
theorem announceBlock_leaves {observer : Option (Observer σ)} (discreet : Discreet observer)
    (b : Block) (batch : Batch) :
    Step.Leaves Session.books (a.announceBlock observer b batch) := by
  refine (Step.tell_leaves _).bind fun _ => .mapError _ ((Step.tell_leaves _).bind fun _ => ?_)
  cases observer with
  | none => exact .pure _
  | some observe => exact .mapError _ (discreet observe rfl b _)

/-- However applying a block ends, the balances are as expected; if it finishes, the next
block is awaited. -/
theorem applyBlock_computed (honest : a.node.Honest c) (keyed : c.Keyed)
    (exact_ : a.ExactSums c first last) {observer : Option (Observer σ)}
    (discreet : Discreet observer) {index : Int} (computed : s.store.ledger.Computed a c first)
    (awaits : s.store.ledger.Awaits first index) (inside : last.any (· < index) = false) :
    (a.applyBlock [a.balanceWorker observer] index).Ends s
      (fun _ t => t.store.ledger.Computed a c first ∧
        ∀ j, Index.next? index = some j → t.store.ledger.Awaits first j)
      (fun _ t => t.store.ledger.Computed a c first) := by
  rw [applyBlock_eq, Step.ends_bind]
  refine (enterBlock_computed honest keyed exact_ computed awaits inside).mono ?_ fun _ _ h => h
  rintro ⟨b, batch⟩ t ⟨rfl, computed_t, head⟩
  refine ((announceBlock_leaves discreet b batch).ends t).mono (fun _ u same => ?_)
    fun _ _ same => computed_t.of_books same
  refine ⟨computed_t.of_books same, fun j next => ?_⟩
  have head_u : u.store.ledger.head? = some b.id := by
    rw [Ledger.head?, (Prod.mk.inj same).1]
    exact head
  constructor <;> rw [head_u]
  · intro none
    cases none
  · rintro _ ⟨⟩
    exact next

/-- However following the chain ends, the balances are as expected. The induction
is on the blocks that may still come. -/
theorem syncFrom_computed (honest : a.node.Honest c) (keyed : c.Keyed)
    (exact_ : a.ExactSums c first last) {observer : Option (Observer σ)}
    (discreet : Discreet observer) :
    ∀ (fuel : Nat) (next : Int) (s : Session σ), s.store.ledger.Computed a c first →
      s.store.ledger.Awaits first next →
      (a.syncFrom [a.balanceWorker observer] last fuel next).Ends s
        (fun _ t => t.store.ledger.Computed a c first)
        (fun _ t => t.store.ledger.Computed a c first) := by
  intro fuel
  induction fuel with
  | zero => exact fun _ _ computed _ => computed
  | succ fuel ih =>
    intro next s computed awaits
    unfold syncFrom
    by_cases done : last.any (· < next) = true
    · rw [if_pos done]
      exact computed
    · rw [if_neg done, Step.ends_bind, Step.ends_attempt]
      refine (applyBlock_computed honest keyed exact_ discreet computed awaits
        (Bool.eq_false_iff.mpr done)).mono (fun _ t ⟨h, awaits'⟩ => ?_) ?_
      · show Step.Ends (Step.within .next (Index.next? next) >>= _) t _ _
        rw [Step.ends_bind, Step.ends_within]
        exact ⟨fun j eq => ih j t h (awaits' j eq), fun _ => h⟩
      intro stop t h
      -- However the block ends, what is stored by then is computed.
      cases stop with
      | idle =>
        exact ((a.canceledBefore_leaves next).ends t).mono (fun _ _ same => h.of_books same)
          fun _ _ same => h.of_books same
      | failed cause => exact h
      | overflow => exact h

/-- The checks of a block are discreet, whether or not they are made. -/
theorem discreet_checks (a : Auditor σ) :
    Discreet a.observer := by
  intro observe mem b cs
  unfold observer at mem
  split at mem
  · cases mem
    exact a.checkChanges_leaves cs
  · cases mem

/-- **At every moment of a run from an empty store the balances are what was there
before and what the blocks report**, whatever observes the commits; and so in a
pipeline, whatever its checks and sweeps come to. -/
theorem sync_computed (honest : a.node.Honest c) (keyed : c.Keyed)
    (exact_ : a.ExactSums c first last) {observer : Option (Observer σ)}
    (discreet : Discreet observer) (empty : s.store.ledger = {}) :
    (a.sync [a.balanceWorker observer] first last).Ends s
        (fun _ t => t.store.ledger.Computed a c first)
        (fun _ t => t.store.ledger.Computed a c first) ∧
      (a.runPipeline first last).Ends s
        (fun _ t => t.store.ledger.Computed a c first)
        (fun _ t => t.store.ledger.Computed a c first) := by
  have start : s.store.ledger.Computed a c first ∧ s.store.ledger.Awaits first first := by
    rw [empty]
    exact ⟨.empty, fun _ => rfl, nofun⟩
  refine ⟨syncFrom_computed honest keyed exact_ discreet _ _ _ start.1 start.2, ?_⟩
  refine runPipeline_ends_of_sync a (fun t same => ?_) (fun _ _ same h => h.of_books same)
    (fun _ _ same h => h.of_books same) (fun _ h => h) start.1
  exact syncFrom_computed honest keyed exact_ a.discreet_checks _ _ _ (start.1.of_books same)
    (start.2.of_books same)

/-- So it is on a chain whose second block lacks an operation, although that
makes the check of the block fail. -/
theorem sync_computed_gap :
    let a : Auditor Unit := ⟨Chain.gap.node, {}⟩
    let s : Session Unit := { world := { node := () }, store := {} }
    Chain.gap.node.Honest Chain.gap ∧ Chain.gap.Keyed ∧ a.ExactSums Chain.gap 0 (some 1) ∧
      Discreet (none : Option (Observer Unit)) ∧ s.store.ledger = {} ∧
      (a.sync [a.balanceWorker none] 0 (some 1)).Ends s
          (fun _ t => t.store.ledger.Computed a Chain.gap 0)
          (fun _ t => t.store.ledger.Computed a Chain.gap 0) ∧
        (a.runPipeline 0 (some 1)).Ends s
          (fun _ t => t.store.ledger.Computed a Chain.gap 0)
          (fun _ t => t.store.ledger.Computed a Chain.gap 0) := by
  intro a s
  have keyed : Chain.gap.Keyed := Chain.gap_spans.keyed
  have exact_ : a.ExactSums Chain.gap 0 (some 1) := .of_lookup rfl (Chain.gap_exactSums 0 1)
  have discreet : Discreet (none : Option (Observer Unit)) := nofun
  exact ⟨Chain.honest _, keyed, exact_, discreet, rfl,
    sync_computed (Chain.honest _) keyed exact_ discreet rfl⟩

end Auditor

end BalanceAudit
