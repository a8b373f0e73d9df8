import BalanceAudit.Proofs.Store.Manifest

/-!
# Counters over a whole history

Three things raise counters: an update, a batch that is taken over, and a manifest that is
taken over. Counters stay at the greatest count, and that is the same as adding everything
up first.

- `Store.Action.Counts`: an action of one of the three kinds.
- `Store.Action.accepted`, `Store.Action.adds`, `Store.Action.turn`: whether it is taken
  over, what it then adds to a counter, and what it makes of the ledger.
- `Store.Action.answer`: **one action of an open store**.
- `Store.raised`, `Store.touched`: what a history adds to a counter, and which it names.
- `Store.runAll_of_reordered`: updates may be reordered among all actions.
- `Ledger.find?_report`: what a report shows.
- `Store.counters_saturate`: **counters are sums that stay at the greatest count, whatever
  the order**.
-/

namespace BalanceAudit

namespace Ledger

variable {l : Ledger} {name : String}

/-! ## Counting and everything else

Counters and the rest of a ledger do not depend on each other, so that an update can change
places with any other action. -/

/-- Counting before a batch or behind it comes to the same. -/
theorem apply_increment (l : Ledger) (b : Batch) (name : String) (amount : Count) :
    (l.increment name amount).apply b = (l.apply b).increment name amount := by
  -- Neither the changes nor the counts of the batch look at the counter, but to add to it.
  have puts : b.changes.foldl (fun l c => l.put c.holding ⟨c.value, c.block⟩)
      (l.increment name amount) =
        (b.changes.foldl (fun l c => l.put c.holding ⟨c.value, c.block⟩) l).increment name amount :=
    List.foldl_hom (fun l : Ledger => l.increment name amount) fun _ _ => rfl
  have counts : ∀ l : Ledger, b.counts.foldl (fun l c => l.increment c.1 c.2)
      (l.increment name amount) =
        (b.counts.foldl (fun l c => l.increment c.1 c.2) l).increment name amount := fun l =>
    List.foldl_hom (fun l : Ledger => l.increment name amount) fun l c =>
      increment_right_comm l name c.1 amount c.2
  rw [apply, puts, counts]
  rfl

/-- So does counting before a manifest or behind it. -/
theorem seed_increment (l : Ledger) (seeds : List Seed) (genesis : BlockId) (name : String)
    (amount : Count) :
    (l.increment name amount).seed seeds genesis =
      (l.seed seeds genesis).increment name amount := by
  have enlisted : ∀ p : Ledger × Nat,
      seeds.foldl (enlist genesis) (p.1.increment name amount, p.2) =
        ((seeds.foldl (enlist genesis) p).1.increment name amount,
          (seeds.foldl (enlist genesis) p).2) := by
    induction seeds with
    | nil => exact fun p => rfl
    | cons s seeds ih => exact fun p => ih (enlist genesis p s)
  rw [seed_eq, enlisted (l, 0), increment_right_comm]
  rfl

/-! ## Names of counters

A report names the counters that were ever raised and the known ones. -/

/-- Counting gives a counter a place, and takes none away. -/
theorem contains_increment (l : Ledger) (name name' : String) (amount : Count) :
    (l.increment name amount).counters.contains name' = true ↔
      name' = name ∨ l.counters.contains name' = true := by
  rw [increment, Table.contains_insert]

/-- Counts of a list give one to each. -/
theorem contains_foldl_increment (counts : List (String × Count)) (name : String) :
    ∀ l : Ledger, (counts.foldl (fun l c => l.increment c.1 c.2) l).counters.contains name = true ↔
      name ∈ counts.map (·.1) ∨ l.counters.contains name = true := by
  induction counts with
  | nil => exact fun l => by simp
  | cons c rest ih =>
    intro l
    rw [List.foldl_cons, ih, contains_increment, List.map_cons, List.mem_cons]
    tauto

/-- A batch names the counters that it counts. -/
theorem contains_apply (l : Ledger) (b : Batch) (name : String) :
    (l.apply b).counters.contains name = true ↔
      name ∈ b.counts.map (·.1) ∨ l.counters.contains name = true := by
  have puts : (b.changes.foldl (fun l c => l.put c.holding ⟨c.value, c.block⟩) l).counters =
      l.counters := by
    generalize b.changes = changes
    induction changes generalizing l with
    | nil => rfl
    | cons c rest ih => exact ih _
  rw [← puts]
  exact contains_foldl_increment b.counts name _

/-- A manifest names that of the holdings seen. -/
theorem contains_seed (l : Ledger) (seeds : List Seed) (genesis : BlockId) (name : String) :
    (l.seed seeds genesis).counters.contains name = true ↔
      name = Counter.seenAccounts.name ∨ l.counters.contains name = true := by
  rw [seed_eq, contains_increment, counters_foldl_enlist]

/-- A counter without a place is zero. -/
theorem counted_of_not_contains (missing : l.counters.contains name = false) :
    l.counted name = 0 := by
  rw [Table.contains, Option.isSome_eq_false_iff, Option.isNone_iff_eq_none] at missing
  rw [counted, missing]
  rfl

/-- A report shows every counter that was raised, and the well-known ones in any case. -/
theorem find?_report (l : Ledger) (name : String) :
    l.report.find? name =
      if l.counters.contains name = true ∨ name ∈ Counter.all.map Counter.name then
        some (l.counted name)
      else none := by
  -- The report puts a zero where a known counter has no entry, and no other name.
  have fills : ∀ (ks : List Counter) (t : Table String Count),
      (ks.foldl (fun t c => if t.contains c.name then t else t.insert c.name 0) t).find? name =
        (t.find? name).or (if name ∈ ks.map Counter.name then some 0 else none) := by
    intro ks
    induction ks with
    | nil => exact fun t => by simp
    | cons k ks ih =>
      intro t
      rw [List.foldl_cons, ih]
      cases known : t.find? k.name with
      | some v =>
        rw [if_pos (by rw [Table.contains, known]; rfl)]
        by_cases same : name = k.name
        · rw [same, known, Option.some_or, Option.some_or]
        · simp [same]
      | none =>
        rw [if_neg (by rw [Table.contains, known]; exact Bool.false_ne_true), Table.find?_insert]
        by_cases same : name = k.name
        · simp [same, known]
        · simp [same]
  rw [report, fills, Table.contains]
  unfold counted
  cases l.counters.find? name with
  | some v => simp
  | none => simp

end Ledger

namespace Store

variable {s : Store} {l : Ledger} {a : Action} {as bs : List Action} {name : String}

/-! ## One action

What an action answers and what it makes of the ledger, told from the store that it meets. -/

/-- Updates, commits and manifests. -/
def Action.Counts : Action → Prop
  | commit _ | update _ _ | bootstrap _ _ => True
  | _ => False

def Action.isUpdate : Action → Bool
  | update _ _ => true
  | _ => false

/-- Whether a ledger takes the action over: a block that comes next, a manifest that can be
read before there are blocks, and any update. -/
def Action.accepted (l : Ledger) : Action → Bool
  | commit b => (extends? l b.block).isOk
  | update _ _ => true
  | bootstrap manifest _ => (readManifest manifest).isOk && l.head?.isNone
  | _ => false

/-- What the ledger becomes if it takes the action over. -/
def Action.turn (l : Ledger) : Action → Ledger
  | commit b => l.apply b
  | update name amount => l.increment name amount
  | bootstrap manifest genesis =>
    match readManifest manifest with
    | .ok seeds => l.seed seeds genesis
    | .error _ => l
  | _ => l

/-- What is then added to a counter. -/
def Action.adds (l : Ledger) (name : String) : Action → Nat
  | commit b => b.total name
  | update name' amount => if name = name' then amount.value else 0
  | bootstrap manifest _ =>
    match readManifest manifest with
    | .ok seeds => if name = Counter.seenAccounts.name then (l.newcomers seeds).length else 0
    | .error _ => 0
  | _ => 0

/-- Whether the counter is one that the action raises, be it by nothing. -/
def Action.Names (name : String) : Action → Prop
  | commit b => name ∈ b.counts.map (·.1)
  | update name' _ => name = name'
  | bootstrap _ _ => name = Counter.seenAccounts.name
  | _ => False

instance (name : String) : ∀ a : Action, Decidable (a.Names name)
  | .commit b => inferInstanceAs (Decidable (name ∈ b.counts.map (·.1)))
  | .update name' _ => inferInstanceAs (Decidable (name = name'))
  | .bootstrap _ _ => inferInstanceAs (Decidable (name = Counter.seenAccounts.name))
  | .flush | .close | .closeNow | .setInterval _ | .replace _ => inferInstanceAs (Decidable False)

/-- What a result complains of. -/
def complaint {ε α : Type} : Except ε α → Option ε
  | .error e => some e
  | .ok _ => none

/-- What an action that counts complains of, or what overflows in it. -/
def Action.error? (s : Store) : Action → Option (Stop StoreError)
  | commit b => complaint (s.commit b).1
  | update name amount => (complaint (s.update name amount).1).map .failed
  | bootstrap manifest genesis => (complaint (s.bootstrap manifest genesis).1).map .failed
  | _ => none

/-- What one action does to an open store. -/
inductive Action.Answer (s : Store) (a : Action) : Prop where
  | refused (declined : a.accepted s.ledger = false) (same : a.run s = s)
      (complains : (a.error? s).isSome = true)
  /-- The ledger takes the action over, even if the file cannot be written. -/
  | taken (accepted : a.accepted s.ledger = true) (ledger : (a.run s).ledger = a.turn s.ledger)
      (stays : (a.run s).closed = false)
      (complains : ∀ stop, a.error? s = some stop → ∃ fault, stop = .failed (.io fault))

/-- A commit that was accepted complains of the file only. -/
theorem complaint_committed {stop : Stop StoreError}
    (complains : complaint (s.committed.1.mapError Stop.failed) = some stop) :
    ∃ fault, stop = .failed (.io fault) := by
  rcases committed_result s with ok | ⟨failed, _⟩
  · rw [ok] at complains
    cases complains
  · rw [failed] at complains
    exact ⟨_, (Option.some.inj complains).symm⟩

/-- So does writing by itself. -/
theorem complaint_flush {α : Type} {f : Unit → α} {stop : Stop StoreError}
    (complains : (complaint (s.flush.1.map f)).map Stop.failed = some stop) :
    ∃ fault, stop = .failed (.io fault) := by
  rw [flush_result] at complains
  split at complains
  · cases complains
  · cases complains
    exact ⟨_, rfl⟩

/-- A commit is refused and changes nothing, or taken and complains of the file at most. -/
theorem answer_commit (isOpen : s.closed = false) (b : Batch) : (Action.commit b).Answer s := by
  -- Which of both it is, is whether the block extends the head.
  cases order : extends? s.ledger b.block with
  | error e =>
    have eq := commit_of_refused isOpen order
    refine .refused ?_ (congrArg Prod.snd eq) ?_
    · rw [Action.accepted, order]
      rfl
    · rw [Action.error?, eq]
      rfl
  | ok =>
    have eq := commit_eq_of_extends isOpen order
    have run : (Action.commit b).run s = _ := congrArg Prod.snd eq
    refine .taken ?_ ?_ ?_ ?_
    · rw [Action.accepted, order]
      rfl
    · rw [run, committed_ledger]
      rfl
    · rw [run, (committed_sameMode _).closed]
      exact isOpen
    · rw [Action.error?, eq]
      exact fun e => complaint_committed

/-- An open store counts whatever it is given. -/
theorem answer_update (isOpen : s.closed = false) (name : String) (amount : Count) :
    (Action.update name amount).Answer s := by
  have eq := update_eq isOpen name amount
  have run : (Action.update name amount).run s = _ := congrArg Prod.snd eq
  refine .taken rfl ?_ ?_ ?_
  · rw [run]
    rfl
  · rw [run]
    exact isOpen
  · rw [Action.error?, eq]
    exact nofun

/-- A manifest that cannot be read, or comes late, is refused; another one is taken. -/
theorem answer_bootstrap (isOpen : s.closed = false) (manifest : Except FileFault String)
    (genesis : BlockId) : (Action.bootstrap manifest genesis).Answer s := by
  cases reads : readManifest manifest with
  | error e =>
    have eq : s.bootstrap manifest genesis = (.error e, s) := by rw [bootstrap, reads]
    refine .refused ?_ (congrArg Prod.snd eq) ?_
    · rw [Action.accepted, reads]
      rfl
    · rw [Action.error?, eq]
      rfl
  | ok seeds =>
    -- A manifest is taken by an unstarted store alone; its flush may complain, but seeds all
    -- the same.
    cases found : s.ledger.head? with
    | some head =>
      have eq := (refusesManifests s genesis).started manifest head found
      refine .refused ?_ (congrArg Prod.snd eq) ?_
      · rw [Action.accepted, found, reads]
        rfl
      · rw [Action.error?, eq]
        rfl
    | none =>
      have eq := bootstrap_eq_flush genesis reads isOpen found
      have run : (Action.bootstrap manifest genesis).run s = _ := congrArg Prod.snd eq
      refine .taken ?_ ?_ ?_ ?_
      · rw [Action.accepted, found, reads]
        rfl
      · rw [run, flush_ledger, Action.turn, reads]
      · rw [run, (flush_sameMode _).closed]
        exact isOpen
      · rw [Action.error?, eq]
        exact fun e => complaint_flush

/-- **One action** of an open store is refused and does nothing, or is taken over. -/
theorem Action.answer (isOpen : s.closed = false) (counts : a.Counts) : a.Answer s := by
  cases a with
  | commit b => exact answer_commit isOpen b
  | update name amount => exact answer_update isOpen name amount
  | bootstrap manifest genesis => exact answer_bootstrap isOpen manifest genesis
  | _ => cases counts

/-! ## What an action adds

An action adds the total of the amounts under a name, up to the greatest count. -/

/-- What an action adds to a counter, up to the greatest count there is. -/
theorem Action.value_counted_turn (a : Action) (l : Ledger) (name : String) :
    ((a.turn l).counted name).value =
      min ((l.counted name).value + a.adds l name) Count.greatest := by
  have small : (l.counted name).value ≤ Count.greatest := by
    have := (l.counted name).value_lt
    rw [Count.greatest]
    omega
  -- One case for each action that counts; the others add nothing.
  cases a with
  | commit b => exact l.value_counted_apply b name
  | update name' amount =>
    rw [Action.turn, Ledger.counted_increment, Action.adds]
    by_cases same : name = name'
    · rw [if_pos same, if_pos same, Count.value_add, same]
    · rw [if_neg same, if_neg same]
      omega
  | bootstrap manifest genesis =>
    rw [Action.turn, Action.adds]
    cases readManifest manifest with
    | error e =>
      dsimp only
      omega
    | ok seeds =>
      dsimp only
      rw [Ledger.counted_seed]
      by_cases same : name = Counter.seenAccounts.name
      · rw [if_pos same, if_pos same, Count.value_add_ofNat, same]
      · rw [if_neg same, if_neg same]
        omega
  | _ =>
    show (l.counted name).value = min (_ + 0) _
    omega

/-- Which counters it gives a place to. -/
theorem Action.contains_turn (accepted : a.accepted l = true) (name : String) :
    (a.turn l).counters.contains name = true ↔
      a.Names name ∨ l.counters.contains name = true := by
  cases a with
  | commit b => exact l.contains_apply b name
  | update name' amount => exact l.contains_increment name' name amount
  | bootstrap manifest genesis =>
    rw [Action.turn]
    cases reads : readManifest manifest with
    | error e =>
      rw [Action.accepted, reads] at accepted
      cases accepted
    | ok seeds => exact l.contains_seed seeds genesis name
  | _ => cases accepted

/-! ## Whole histories

By induction on the actions, with a saturated sum, which may be formed before or after it is
cut off. -/

/-- What a history adds to a counter: all that is added by the actions that are taken over. -/
def raised (s : Store) (name : String) : List Action → Nat
  | [] => 0
  | a :: as =>
    (if a.accepted s.ledger then a.adds s.ledger name else 0) + (a.run s).raised name as

/-- Whether some action that is taken over names the counter. -/
def touched (s : Store) (name : String) : List Action → Prop
  | [] => False
  | a :: as => a.accepted s.ledger = true ∧ a.Names name ∨ (a.run s).touched name as

instance decidableTouched (s : Store) (name : String) :
    (as : List Action) → Decidable (s.touched name as)
  | [] => inferInstanceAs (Decidable False)
  | a :: as =>
    have := decidableTouched (a.run s) name as
    inferInstanceAs (Decidable (_ ∨ _))

/-- What becomes of the ledger of an open store. -/
def Action.on (l : Ledger) (a : Action) : Ledger := if a.accepted l then a.turn l else l

/-- Running an action on an open store is taking its turn, if it is accepted. -/
theorem Action.run_ledger (isOpen : s.closed = false) (counts : a.Counts) :
    (a.run s).ledger = a.on s.ledger ∧ (a.run s).closed = false := by
  cases Action.answer isOpen counts with
  | refused declined same => rw [same, Action.on, declined]; exact ⟨rfl, isOpen⟩
  | taken accepted ledger stays => rw [ledger, Action.on, if_pos accepted]; exact ⟨rfl, stays⟩

/-- A history goes from ledger to ledger, and the store stays open. -/
theorem runAll_ledger (isOpen : s.closed = false) (counts : ∀ a ∈ as, a.Counts) :
    (s.runAll as).ledger = as.foldl Action.on s.ledger ∧ (s.runAll as).closed = false := by
  induction as generalizing s with
  | nil => exact ⟨rfl, isOpen⟩
  | cons a as ih =>
    rw [List.forall_mem_cons] at counts
    obtain ⟨ledger, stays⟩ := Action.run_ledger isOpen counts.1
    have later := ih stays counts.2
    rwa [ledger] at later

/-- Part of a history that leaves the store open leaves it so. -/
theorem runAll_open {before after : List Action} (isOpen : s.closed = false)
    (counts : ∀ a ∈ as, a.Counts) (split : as = before ++ after) :
    (s.runAll before).closed = false ∧ ∀ a ∈ after, a.Counts := by
  subst split
  exact ⟨(runAll_ledger isOpen fun a mem => counts a (List.mem_append_left _ mem)).2,
    fun a mem => counts a (List.mem_append_right _ mem)⟩

/-- **What a counter is at** after a history. -/
theorem value_counted_runAll (isOpen : s.closed = false) (counts : ∀ a ∈ as, a.Counts)
    (name : String) :
    ((s.runAll as).ledger.counted name).value =
      min ((s.ledger.counted name).value + s.raised name as) Count.greatest := by
  induction as generalizing s with
  | nil =>
    have := (s.ledger.counted name).value_lt
    show (s.ledger.counted name).value = min (_ + 0) _
    rw [Count.greatest]
    omega
  | cons a as ih =>
    rw [List.forall_mem_cons] at counts
    obtain ⟨ledger, stays⟩ := Action.run_ledger isOpen counts.1
    show (((a.run s).runAll as).ledger.counted name).value = _
    rw [ih stays counts.2, ledger, Action.on, raised]
    split
    · rw [Action.value_counted_turn]
      omega
    · omega

/-- **Which counters there are** after a history. -/
theorem contains_runAll (isOpen : s.closed = false) (counts : ∀ a ∈ as, a.Counts)
    (name : String) :
    (s.runAll as).ledger.counters.contains name = true ↔
      s.touched name as ∨ s.ledger.counters.contains name = true := by
  induction as generalizing s with
  | nil => simp [touched]
  | cons a as ih =>
    rw [List.forall_mem_cons] at counts
    obtain ⟨ledger, stays⟩ := Action.run_ledger isOpen counts.1
    show ((a.run s).runAll as).ledger.counters.contains name = true ↔ _
    rw [ih stays counts.2, ledger, Action.on, touched]
    split
    · next accepted =>
      rw [Action.contains_turn accepted]
      tauto
    · next declined => tauto

/-! ## Reordering

An update changes places with any other action. So all updates can be moved behind the
others, where their own order does not matter. -/

/-- Counting first does not change what an action does. -/
theorem Action.on_increment (a : Action) (l : Ledger) (name : String) (amount : Count) :
    a.on (l.increment name amount) = (a.on l).increment name amount := by
  have accepted : a.accepted (l.increment name amount) = a.accepted l := by cases a <;> rfl
  rw [Action.on, Action.on, accepted]
  split
  · cases a with
    | commit b => exact l.apply_increment b name amount
    | update name' amount' => exact l.increment_right_comm name name' amount amount'
    | bootstrap manifest genesis =>
      rw [Action.turn, Action.turn]
      cases readManifest manifest with
      | error e => rfl
      | ok seeds => exact l.seed_increment seeds genesis name amount
    | _ => rfl
  · rfl

/-- Updates may come last. -/
theorem foldl_on_eq (as : List Action) (l : Ledger) :
    as.foldl Action.on l =
      (as.filter (·.isUpdate)).foldl Action.on
        ((as.filter (!·.isUpdate)).foldl Action.on l) := by
  induction as generalizing l with
  | nil => rfl
  | cons a as ih =>
    rw [List.foldl_cons, ih]
    cases a with
    | update name amount =>
      have later : (as.filter (!·.isUpdate)).foldl Action.on (l.increment name amount) =
          ((as.filter (!·.isUpdate)).foldl Action.on l).increment name amount :=
        List.foldl_hom (fun l : Ledger => l.increment name amount) fun l a =>
          a.on_increment l name amount
      exact congrArg ((as.filter (·.isUpdate)).foldl Action.on) later
    | _ => rfl

/-- **Updates may be reordered** among each other and among all other actions. -/
theorem runAll_of_reordered (isOpen : s.closed = false) (counts : ∀ a ∈ as, a.Counts)
    (perm : bs.Perm as) (others : bs.filter (!·.isUpdate) = as.filter (!·.isUpdate)) :
    (s.runAll bs).ledger = (s.runAll as).ledger := by
  have counts' : ∀ b ∈ bs, b.Counts := fun b mem => counts b (perm.mem_iff.mp mem)
  rw [(runAll_ledger isOpen counts').1, (runAll_ledger isOpen counts).1, foldl_on_eq bs,
    foldl_on_eq as, others]
  refine (perm.filter _).foldl_eq' ?_ _
  intro a update_a b _ l
  cases a with
  | update name amount => exact b.on_increment l name amount
  | _ => cases (List.mem_filter.mp update_a).2

/-! ## Counters -/

/-- What counters are after a history of an open store. -/
structure Saturates (s : Store) (as : List Action) : Prop where
  value : ∀ name, ((s.runAll as).ledger.counted name).value =
    min ((s.ledger.counted name).value + s.raised name as) Count.greatest
  /-- An update answers the new value. -/
  answers : ∀ before name amount after, as = before ++ .update name amount :: after →
    ((s.runAll before).update name amount).1 =
      .ok ((s.runAll (before ++ [.update name amount])).ledger.counted name)
  grows : ∀ before after, as = before ++ after → ∀ name,
    ((s.runAll before).ledger.counted name).value ≤ ((s.runAll as).ledger.counted name).value
  /-- Updates may come in any order, between any of the other actions. -/
  reorders : ∀ bs, bs.Perm as → bs.filter (!·.isUpdate) = as.filter (!·.isUpdate) →
    (s.runAll bs).ledger = (s.runAll as).ledger
  /-- A report is that of the ledger, as the store is still open. -/
  reads : (s.runAll as).read = .ok (s.runAll as).ledger
  report : ∀ name, (s.runAll as).ledger.report.find? name =
    if s.touched name as ∨ s.ledger.counters.contains name = true ∨
        name ∈ Counter.all.map Counter.name then
      some ((s.runAll as).ledger.counted name)
    else none
  untouched : ∀ name, ¬s.touched name as → s.ledger.counters.contains name = false →
    (s.runAll as).ledger.counted name = 0
  /-- What counts was taken over; what was not was refused. -/
  answer : ∀ before a after, as = before ++ a :: after → a.Answer (s.runAll before)

/-- **Counters are sums that stay at the greatest count.** After updates, commits and
manifests of an open store, in any number and order, a counter is at what it was at and all
that was added by those that were taken over, but at most at the greatest count. An update
answers the new value, no counter ever falls, updates may be reordered, and a report shows
every counter that was named, and the well-known ones in any case. -/
theorem counters_saturate (isOpen : s.closed = false) (counts : ∀ a ∈ as, a.Counts) :
    s.Saturates as where
  value := value_counted_runAll isOpen counts
  answers before name amount after split := by
    rw [runAll_concat, Action.run, update_eq (runAll_open isOpen counts split).1]
  grows before after split name := by
    obtain ⟨stays, counts'⟩ := runAll_open isOpen counts split
    have := ((s.runAll before).ledger.counted name).value_lt
    rw [split, runAll_append, value_counted_runAll stays counts', Count.greatest]
    omega
  reorders bs := runAll_of_reordered isOpen counts
  reads := read_of_open (runAll_ledger isOpen counts).2
  report name := by
    rw [Ledger.find?_report]
    simp only [contains_runAll isOpen counts, or_assoc]
  untouched name idle missing := by
    refine Ledger.counted_of_not_contains (Bool.eq_false_iff.mpr fun there => ?_)
    rcases (contains_runAll isOpen counts name).mp there with named | there
    · exact idle named
    · rw [missing] at there
      cases there
  answer before a after split := by
    obtain ⟨stays, counts'⟩ := runAll_open isOpen counts split
    exact Action.answer stays (counts' a List.mem_cons_self)

/-- A manifest, an update up to the greatest count, a batch that names a counter twice, and
the same batch once more, which is refused. -/
def mixedUse : List Action :=
  [.bootstrap (.ok repeating) ⟨0, "genesis"⟩,
    .update Counter.seenAccounts.name (.ofNat (Count.greatest - 1)),
    .commit { block := ⟨1, "a"⟩, counts := [("seen", 1), ("seen", 2)] },
    .commit { block := ⟨1, "a"⟩, counts := [("seen", 1), ("seen", 2)] }]

/-- The two holdings and the update are more than the greatest count. -/
theorem saturates_mixedUse :
    (scratch.closed = false ∧ ∀ a ∈ mixedUse, a.Counts) ∧
    scratch.Saturates mixedUse ∧
    (scratch.runAll mixedUse).ledger.counted Counter.seenAccounts.name = .ofNat Count.greatest ∧
    (scratch.runAll mixedUse).ledger.counted "seen" = 3 := by
  have counts : ∀ a ∈ mixedUse, a.Counts := by
    intro a mem
    simp only [mixedUse, List.mem_cons, List.not_mem_nil, or_false] at mem
    rcases mem with rfl | rfl | rfl | rfl <;> trivial
  exact ⟨⟨rfl, counts⟩, counters_saturate rfl counts, by decide +kernel⟩

end Store

end BalanceAudit
