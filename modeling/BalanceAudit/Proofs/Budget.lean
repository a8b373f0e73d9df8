import BalanceAudit.Proofs.Glance
import BalanceAudit.Proofs.Outward

/-!
# The budget of retries

A block is asked for again while it is missing, and a few times while the calls for it
fail. Which answer is the last one follows from the answers alone.

- `Reply.Decides`: the answer after which nobody asks again; `Reply.Pending`: answers
  without one.
- `Auditor.Hears`: the answers that a fetch hears, with a pause after each of them.
- `Auditor.fetchFrom_concludes`: **a fetch goes on until an answer decides**, or the run
  has ended.
- `Auditor.fetchBlock_heard`, `Auditor.syncFrom_heard`: what a fetch returns was the last
  answer, and an error that ends a whole run was the last answer for its own block.
- `Node.Streams`: a node whose answers for one block are a sequence.
- `Auditor.fetches_within_budget`: all of it together.
-/

namespace BalanceAudit

/-! ## Answers

Answers are told apart by what a fetch does next: it goes on behind a missing block and
behind a transient failure within the budget, and ends with everything else. -/

/-- What is said when a block is asked for. -/
abbrev Reply := Except FetchError (Option Block)

namespace Reply

variable {r : Nat} {l before : List Reply} {x : Reply}

/-- Whether it is an error that may pass. -/
def isTransient : Reply → Bool
  | .error (.transient _) => true
  | _ => false

/-- How many errors that may pass there are. -/
def failures (l : List Reply) : Nat := l.countP isTransient

/-- With `r` retries, and after the other answers, this one is the last: it is a block,
or an error that does not pass, or the error after which no retry is left. -/
def Decides (r : Nat) (before : List Reply) : Reply → Prop
  | .ok (some _) => True
  | .ok none => False
  | .error (.transient _) => failures before = r
  | .error _ => True

instance (r : Nat) (before : List Reply) : DecidablePred (Decides r before)
  | .ok (some _) => isTrue trivial
  | .ok none => isFalse id
  | .error (.transient _) => inferInstanceAs (Decidable (failures before = r))
  | .error (.notFound _) => isTrue trivial
  | .error (.recording _) => isTrue trivial

/-- None of the answers is the last. -/
def Pending (r : Nat) (l : List Reply) : Prop :=
  ∀ before x, before ++ [x] <+: l → ¬Decides r before x

/-- What a fetch makes of its last answer. -/
def verdict (index : Int) : Reply → Except (Stop SyncError) Block
  | .ok (some b) => .ok b
  | .ok none => .error .idle
  | .error cause => .error (.failed (.fetch index cause))

theorem failures_concat (l : List Reply) (x : Reply) :
    failures (l ++ [x]) = failures l + if x.isTransient then 1 else 0 := by
  rw [failures, List.countP_append, List.countP_singleton, failures]

theorem pending_nil : Pending r [] := by
  intro before x first
  exact absurd (List.prefix_nil.mp first) (by simp)

theorem pending_concat : Pending r (l ++ [x]) ↔ Pending r l ∧ ¬Decides r l x := by
  constructor
  · intro pending
    exact ⟨fun before y first => pending before y (first.trans (List.prefix_append l [x])),
      pending l x List.prefix_rfl⟩
  · rintro ⟨pending, undecided⟩ before y first
    -- The answer is the new one or an earlier one.
    rcases List.prefix_concat_iff.mp first with same | first
    · obtain ⟨rfl, rfl⟩ := List.append_inj' same rfl |>.imp_right fun h => List.singleton_inj.mp h
      exact undecided
    · exact pending before y first

/-- Without a last answer the budget is not exceeded. The induction is on the answers,
one more at the end. -/
theorem Pending.failures_le (pending : Pending r l) : failures l ≤ r := by
  induction l using List.reverseRecOn with
  | nil => exact Nat.zero_le r
  | append_singleton l x ih =>
    obtain ⟨earlier, undecided⟩ := pending_concat.mp pending
    have le := ih earlier
    rw [failures_concat]
    split
    · next transient =>
      have left : failures l ≠ r := by
        unfold isTransient at transient
        split at transient
        · exact undecided
        · cases transient
      omega
    · exact le

end Reply

theorem Step.eval_verdict {S ε α : Type} (r : Except (Stop ε) α) (s : S) :
    (MonadExcept.ofExcept r : Step S ε α).eval s = (r, s) := by
  cases r <;> rfl

namespace Auditor

open Reply (failures Decides Pending)

variable {σ : Type} {a : Auditor σ} {index : Int} {s t u v : Session σ} {l : List Reply}
  {x : Reply} {b : Block}

/-! ## Hearing answers

By induction on the fuel: a fetch that goes on has heard one more pending answer, and has
paused behind it. -/

/-- A call for a block. -/
abbrev askBlock (a : Auditor σ) (index : Int) : Step (Session σ) SyncError Reply :=
  Step.ask (a.node.block index)

/-- For how long a fetch that goes on pauses first: longer after every error. -/
def pauseMs (a : Auditor σ) (before : List Reply) : Reply → Nat
  | .ok _ => a.settings.tipPollMs
  | .error _ => a.settings.retryBackoffMs * (failures before + 1)

/-- A fetch that began in `s` has heard answers and has paused after each of them. In
`t` it is about to ask again. -/
inductive Hears (a : Auditor σ) (index : Int) (s : Session σ) : List Reply → Session σ → Prop where
  | start : Hears a index s [] s
  | again {l : List Reply} {x : Reply} {t u v : Session σ} (h : Hears a index s l t)
      (running : t.isOver = false) (heard : (a.askBlock index).eval t = (.ok x, u))
      (paused : (a.pause (a.pauseMs l x) : Step (Session σ) SyncError Unit).eval u = (.ok (), v)) :
      Hears a index s (l ++ [x]) v

/-- How a fetch ends that has heard answers of which none is the last: the next one is,
or there is none, or the run ends in the pause after it. -/
inductive Concludes (a : Auditor σ) (index : Int) (l : List Reply) (t : Session σ) :
    Except (Stop SyncError) Block × Session σ → Prop where
  | decided {x : Reply} {u : Session σ} (running : t.isOver = false)
      (heard : (a.askBlock index).eval t = (.ok x, u))
      (decides : Decides a.settings.maxFetchRetries l x) :
      Concludes a index l t (x.verdict index, u)
  | quit (quit : t.isOver = true) : Concludes a index l t (.error .idle, t)
  | unanswered {stop : Stop SyncError} {u : Session σ} (running : t.isOver = false)
      (silent : (a.askBlock index).eval t = (.error stop, u)) :
      Concludes a index l t (.error stop, u)
  | unpaused {x : Reply} {stop : Stop SyncError} {u v : Session σ} (running : t.isOver = false)
      (heard : (a.askBlock index).eval t = (.ok x, u))
      (undecided : ¬Decides a.settings.maxFetchRetries l x)
      (ended : (a.pause (a.pauseMs l x) : Step (Session σ) SyncError Unit).eval u =
        (.error stop, v)) :
      Concludes a index l t (.error stop, v)

/-- One round of a fetch, whose attempts are the errors heard so far. -/
theorem fetchFrom_succ (pending : Pending a.settings.maxFetchRetries l) (fuel : Nat) :
    a.fetchFrom index (fuel + 1) (failures l) = (do
      proceed
      let x ← a.askBlock index
      if Decides a.settings.maxFetchRetries l x then MonadExcept.ofExcept (x.verdict index)
      else
        a.pause (a.pauseMs l x)
        a.fetchFrom index fuel (failures (l ++ [x]))) := by
  rw [fetchFrom]
  refine bind_congr fun _ => bind_congr fun x => ?_
  rw [Reply.failures_concat]
  match x with
  | .ok (some b) =>
    have last : Decides a.settings.maxFetchRetries l (.ok (some b)) := trivial
    rw [if_pos last]
    rfl
  | .ok none =>
    have more : ¬Decides a.settings.maxFetchRetries l (.ok none) := id
    rw [if_neg more]
    rfl
  | .error (.transient reason) =>
    have le := pending.failures_le
    -- Retries are left unless there were as many errors as retries; never were there more.
    by_cases last : Decides a.settings.maxFetchRetries l (.error (.transient reason))
    · have spent : failures l = a.settings.maxFetchRetries := last
      rw [if_pos last]
      exact if_neg (by omega)
    · have left : failures l ≠ a.settings.maxFetchRetries := last
      rw [if_neg last]
      exact if_pos (by omega)
  | .error (.notFound what) =>
    have last : Decides a.settings.maxFetchRetries l (.error (.notFound what)) := trivial
    rw [if_pos last]
    rfl
  | .error (.recording reason) =>
    have last : Decides a.settings.maxFetchRetries l (.error (.recording reason)) := trivial
    rw [if_pos last]
    rfl

/-- **A fetch goes on until an answer decides**, or the run has ended; or else it has
heard as many answers as it has fuel. The induction is on the fuel. -/
theorem fetchFrom_concludes (a : Auditor σ) (index : Int) (fuel : Nat) :
    ∀ {l : List Reply} {t : Session σ},
    a.Hears index s l t → Pending a.settings.maxFetchRetries l →
    ∃ l' t', a.Hears index s l' t' ∧ Pending a.settings.maxFetchRetries l' ∧
      (a.Concludes index l' t' ((a.fetchFrom index fuel (failures l)).eval t) ∨
        l'.length = l.length + fuel ∧
          (a.fetchFrom index fuel (failures l)).eval t = (.error .idle, t')) := by
  induction fuel with
  | zero => exact fun {l t} hears pending => ⟨l, t, hears, pending, .inr ⟨rfl, rfl⟩⟩
  | succ fuel ih =>
    intro l t hears pending
    rw [fetchFrom_succ pending, Step.eval_bind, proceed, Step.eval_bind, Step.eval_get]
    dsimp only
    -- A run that is over, a silent node, a last answer, a pause that ends the run: each of
    -- them is one way to conclude. Else the next round has heard one answer more.
    cases quit : t.isOver with
    | true => exact ⟨l, t, hears, pending, .inl (.quit quit)⟩
    | false =>
      rw [if_neg Bool.false_ne_true, Step.eval_pure]
      dsimp only
      rw [Step.eval_bind]
      rcases heard : (a.askBlock index).eval t with ⟨stop | x, u⟩
      · exact ⟨l, t, hears, pending, .inl (.unanswered quit heard)⟩
      dsimp only
      by_cases decides : Decides a.settings.maxFetchRetries l x
      · rw [if_pos decides]
        refine ⟨l, t, hears, pending, .inl ?_⟩
        rw [Step.eval_verdict]
        exact .decided quit heard decides
      · rw [if_neg decides, Step.eval_bind]
        rcases paused : (a.pause (a.pauseMs l x) : Step (Session σ) SyncError Unit).eval u with
          ⟨stop | _, v⟩
        · exact ⟨l, t, hears, pending, .inl (.unpaused quit heard decides paused)⟩
        · obtain ⟨l', t', hears', pending', ends⟩ :=
            ih (hears.again quit heard paused) (Reply.pending_concat.mpr ⟨pending, decides⟩)
          refine ⟨l', t', hears', pending', ends.imp_right fun ⟨length, ends⟩ => ⟨?_, ends⟩⟩
          rw [length, List.length_append, List.length_singleton]
          omega

/-! ## What a fetch returns -/

/-- A fetch that began in `s` has heard answers of which none was the last, and then the
last one. -/
def Heard (a : Auditor σ) (index : Int) (s : Session σ) (l : List Reply) (x : Reply)
    (t : Session σ) : Prop :=
  ∃ u, a.Hears index s l u ∧ Pending a.settings.maxFetchRetries l ∧ u.isOver = false ∧
    (a.askBlock index).eval u = (.ok x, t) ∧ Decides a.settings.maxFetchRetries l x

theorem askBlock_stopsWith (a : Auditor σ) (index : Int) :
    Step.StopsWith (· = .idle) (a.askBlock index) := by
  intro s
  unfold Step.Ends
  rw [Step.eval_ask]
  split
  · next eq => split at eq <;> cases eq; trivial
  · next eq => split at eq <;> cases eq; rfl

/-- **A block that is fetched was the last answer, and so was an error.** -/
theorem fetchBlock_heard (a : Auditor σ) (index : Int) (s : Session σ) :
    (a.fetchBlock index).Ends s (fun b t => ∃ l, a.Heard index s l (.ok (some b)) t)
      (fun stop t => stop = .idle ∨
        ∃ l cause, a.Heard index s l (.error cause) t ∧ stop = .failed (.fetch index cause)) := by
  obtain ⟨l, u, hears, pending, ends⟩ := a.fetchFrom_concludes index
    (s := s) (s.world.clock.patienceMs + 1) .start Reply.pending_nil
  show Step.Ends (a.fetchFrom index (s.world.clock.patienceMs + 1) (failures [])) s _ _
  unfold Step.Ends
  rcases ends with concludes | ⟨_, ends⟩
  · generalize (a.fetchFrom index (s.world.clock.patienceMs + 1) (failures [])).eval s = o
      at concludes
    -- Five ways to conclude: a decision, an end of the run, a call that is never answered, or a
    -- pause that is not over.
    cases concludes with
    | @decided x t running heard decides =>
      have last : a.Heard index s l x t := ⟨u, hears, pending, running, heard, decides⟩
      match x with
      | .ok (some b) => exact ⟨l, last⟩
      | .ok none => exact absurd decides id
      | .error cause => exact .inr ⟨l, cause, last, rfl⟩
    | quit => exact .inl rfl
    | unanswered running silent => exact .inl ((a.askBlock_stopsWith index u).of_error silent)
    | @unpaused x stop t _ _ _ _ ended =>
      exact .inl ((a.pause_stopsWith (p := (· = .idle)) rfl (a.pauseMs l x) t).of_error ended)
  · rw [ends]
    exact .inl rfl

/-- The cause is not that a block could not be fetched. -/
def Fetched (stop : Stop SyncError) : Prop := ∀ i cause, stop ≠ .failed (.fetch i cause)

/-- Whoever applies a block has fetched it, and meets an error of a fetch only there. -/
theorem applyBlock_heard (a : Auditor σ) (workers : List (Worker σ)) (index : Int)
    (s : Session σ) : (a.applyBlock workers index).Ends s
      (fun _ _ => ∃ b l t, a.Heard index s l (.ok (some b)) t)
      (fun stop t => ∀ i cause, stop = .failed (.fetch i cause) →
        i = index ∧ ∃ l, a.Heard index s l (.error cause) t) := by
  -- Behind the fetch no error is one of fetching.
  have staged : ∀ {α : Type} (id : BlockId) (x : Step (Session σ) WorkerError α),
      Step.StopsWith Fetched (Step.mapError (.worker id) x) := by
    intro α id x u
    rw [Step.ends_mapError]
    refine (Step.Ends.any x u).mono (fun _ _ h => h) fun stop _ _ => ?_
    cases stop <;> exact fun _ _ => nofun
  have stored : ∀ batch, Step.StopsWith Fetched
      (Step.commit .store batch : Step (Session σ) SyncError Unit) := by
    intro batch u
    refine Step.ends_commit (fun _ => trivial) fun stop _ _ => ?_
    cases stop <;> exact nofun
  unfold applyBlock
  rw [Step.ends_bind]
  refine (a.fetchBlock_heard index s).mono (fun b t heard => ?_) ?_
  · obtain ⟨l, heard⟩ := heard
    refine Step.Ends.mono (Q := fun _ _ => True) (E := fun stop _ => Fetched stop) ?_
      (fun _ _ _ => ⟨b, l, t, heard⟩) fun stop _ fetched i cause eq => absurd eq (fetched i cause)
    exact ((staged b.id _).bind fun batch => (stored batch).bind fun _ =>
      (Step.StopsWith.modify _).bind fun _ => staged b.id _) t
  · rintro stop t (rfl | ⟨l, cause, heard, rfl⟩) i other eq
    · cases eq
    · cases eq
      exact ⟨rfl, l, heard⟩

/-! ## A whole run

The block of a run that fails is the first one whose fetch did not return it, and its
answers are those of that fetch. -/

theorem canceledBefore_fetched (a : Auditor σ) (next : Int) :
    Step.StopsWith Fetched (a.canceledBefore next) :=
  a.awaitEnd_stopsWith.bind fun _ => Step.StopsWith.get.bind fun _ =>
    .ite (.throw fun _ _ => nofun) (.throw fun _ _ => nofun)

/-- In a run that began in `s` with block `first`, the turn of a block begins: all
blocks before it were applied. -/
inductive Turn (a : Auditor σ) (workers : List (Worker σ)) (s : Session σ) (first : Int) :
    Int → Session σ → Prop where
  | start : Turn a workers s first first s
  | next {index second : Int} {u v : Session σ} (turn : Turn a workers s first index u)
      (applied : (a.applyBlock workers index).eval u = (.ok (), v))
      (advance : Index.next? index = some second) : Turn a workers s first second v

/-- **An error that ends the run** was the last answer in the turn of its own block. -/
theorem syncFrom_heard {workers : List (Worker σ)} {first : Int} (last : Option Int)
    (fuel : Nat) : ∀ {next : Int} {u : Session σ}, a.Turn workers s first next u →
      (a.syncFrom workers last fuel next).Ends u (fun _ _ => True)
        (fun stop t => ∀ i cause, stop = .failed (.fetch i cause) →
          ∃ v l, a.Turn workers s first i v ∧ a.Heard i v l (.error cause) t) := by
  induction fuel with
  | zero =>
    intro next u turn i cause eq
    cases eq
  | succ fuel ih =>
    intro next u turn
    unfold syncFrom
    split
    · trivial
    rw [Step.ends_bind, Step.ends_attempt]
    refine ((a.applyBlock_heard workers next u).and (Step.Ends.self _ u)).mono ?_ ?_
    · rintro _ v ⟨_, applied⟩
      rw [Step.ends_bind, Step.ends_within]
      -- The next block has its turn, if it has an index.
      refine ⟨fun second advance => ih (turn.next applied advance), fun _ i cause eq => ?_⟩
      cases eq
    · rintro stop v ⟨heard, _⟩
      cases stop with
      | idle =>
        refine (a.canceledBefore_fetched next v).mono (fun _ _ h => h) ?_
        exact fun stop _ fetched i cause eq => absurd eq (fetched i cause)
      | failed e =>
        intro i cause eq
        obtain ⟨rfl, l, heard⟩ := heard i cause eq
        exact ⟨u, l, turn, heard⟩
      | overflow =>
        intro i cause eq
        cases eq

end Auditor

/-! ## Sequences of answers

A node that answers from a sequence knows how often it was asked. So the answers that are
heard are the first ones of the sequence, and the waits between them add up. -/

/-- The first `n` answers of a sequence. -/
def Reply.firsts (f : Nat → Reply) (n : Nat) : List Reply := (List.range n).map f

/-- The answer number `n`, counted from zero, is the last one. -/
def Reply.Last (r : Nat) (f : Nat → Reply) (n : Nat) : Prop :=
  Reply.Pending r (Reply.firsts f n) ∧ Reply.Decides r (Reply.firsts f n) (f n)

/-- The answers of a node for one block are a sequence, whatever else it is asked for,
and nobody intervenes. In a state with `answered k` it has given `k` of them. -/
structure Node.Streams {σ : Type} (n : Node σ) (index : Int) (f : Nat → Reply)
    (answered : Nat → σ → Prop) : Prop where
  block : ∀ k v, answered k v →
    (n.block index v).1 = .replied (f k) ∧ answered (k + 1) (n.block index v).2
  balance : ∀ k v h at?, answered k v →
    (n.balance h at? v).1.signal = none ∧ answered k (n.balance h at? v).2

namespace Reply

variable {r m n : Nat} {f : Nat → Reply}

theorem firsts_succ (f : Nat → Reply) (n : Nat) : firsts f (n + 1) = firsts f n ++ [f n] := by
  rw [firsts, List.range_succ, List.map_append, List.map_singleton, firsts]

theorem Pending.firsts (pending : Pending r (firsts f n)) (le : m ≤ n) :
    Pending r (firsts f m) := by
  induction n, le using Nat.le_induction with
  | base => exact pending
  | succ n _ ih =>
    rw [firsts_succ, pending_concat] at pending
    exact ih pending.1

/-- There is one last answer at most. -/
theorem Last.le (last : Last r f n) (pending : Pending r (Reply.firsts f m)) : m ≤ n := by
  -- Behind the last answer the answers are not pending any more.
  by_contra more
  have beyond := pending.firsts (m := n + 1) (by omega)
  rw [firsts_succ, pending_concat] at beyond
  exact beyond.2 last.2

end Reply

namespace Auditor

open Reply (failures Decides Pending)

variable {σ : Type} {a : Auditor σ} {index : Int} {s t u v : Session σ} {l : List Reply}
  {x : Reply} {f : Nat → Reply} {answered : Nat → σ → Prop} {n : Nat}

/-- For how long a fetch pauses after the first `n` answers of a sequence. -/
def waitedMs (a : Auditor σ) (f : Nat → Reply) : Nat → Nat
  | 0 => 0
  | n + 1 => a.waitedMs f n + max (a.pauseMs (Reply.firsts f n) (f n)) 1

theorem le_waitedMs (a : Auditor σ) (f : Nat → Reply) (n : Nat) : n ≤ a.waitedMs f n := by
  induction n with
  | zero => exact Nat.zero_le _
  | succ n ih =>
    rw [waitedMs]
    omega

theorem waitedMs_mono (a : Auditor σ) (f : Nat → Reply) : Monotone (a.waitedMs f) :=
  monotone_nat_of_le_succ fun _ => Nat.le_add_right _ _

/-- A pause takes its time. It ends a run only if the operator gives up or a check has
met an error, or if somebody intervened in a sweep. -/
theorem pause_elapses {ε : Type} (stands : a.Stands s) (ms : Nat) :
    (a.pause ms : Step (Session σ) ε Unit).Ends s
      (fun _ t => max ms 1 < s.world.clock.patienceMs ∧ t.isOver = false ∧
        a.Glances (s.elapse (max ms 1)) t)
      (fun stop t => stop = .idle ∧ (s.world.clock.patienceMs ≤ max ms 1 ∨
        t.sweepers.failure.isSome = true ∨
        t.world.isCanceled = true ∧ a.Glances (s.elapse (max ms 1)) t)) := by
  unfold pause
  rw [Step.ends_bind, Step.ends_get]
  -- The operator gives up during the pause, or there is time for all of it.
  by_cases late : s.world.clock.patienceMs ≤ max ms 1
  · rw [if_pos late, Step.ends_bind]
    unfold awaitEnd
    rw [Step.ends_bind, Step.ends_get]
    split
    · exact ⟨rfl, .inl late⟩
    · rw [Step.ends_bind]
      refine (wait_accounts stands _).mono (fun _ t _ => ?_) fun _ _ h => h.elim
      rw [Step.ends_bind, Step.ends_get]
      split <;> exact ⟨rfl, .inl late⟩
  · rw [if_neg late, Step.ends_bind]
    refine (wait_accounts stands _).mono (fun _ t waited => ?_) fun _ _ h => h.elim
    unfold proceed
    rw [Step.ends_bind, Step.ends_get]
    obtain ⟨e, failed, _⟩ | ⟨calm, glances⟩ := waited.outcome
    · have quit : t.isOver = true := by
        rw [Session.isOver, failed]
        exact Bool.or_true _
      rw [if_pos quit]
      exact ⟨rfl, .inr (.inl (by rw [failed]; rfl))⟩
    · by_cases quit : t.isOver = true
      · rw [if_pos quit]
        rw [Session.isOver, calm] at quit
        exact ⟨rfl, .inr (.inr ⟨by simpa using quit, glances⟩)⟩
      · rw [if_neg quit]
        exact ⟨by omega, Bool.eq_false_iff.mpr quit, glances⟩

/-- A fetch that began in `s` has heard the first `n` answers of a sequence, and the run
goes on. -/
structure Listens (a : Auditor σ) (f : Nat → Reply) (answered : Nat → σ → Prop) (s : Session σ)
    (n : Nat) (t : Session σ) : Prop where
  node : answered n t.world.node
  isOpen : t.store.closed = false
  running : t.isOver = false
  patience : t.world.clock.patienceMs + a.waitedMs f n = s.world.clock.patienceMs

/-- Sweeps neither use up answers nor cancel the run. -/
theorem Glances.streams {k : Nat} (streams : a.node.Streams index f answered)
    (glances : a.Glances s t) (start : answered k s.world.node)
    (running : s.world.isCanceled = false) :
    answered k t.world.node ∧ t.world.isCanceled = false := by
  refine glances.keeps (P := fun t => answered k t.world.node ∧ t.world.isCanceled = false)
    (fun t u glance h => ?_) ⟨start, running⟩
  cases glance with
  | lookup holding at? =>
    obtain ⟨calm, kept⟩ := streams.balance k t.world.node holding at? h.1
    unfold World.call
    dsimp only
    rw [calm]
    exact ⟨kept, h.2⟩
  | _ => exact h

namespace Listens

/-- The next answer. -/
theorem ask (streams : a.node.Streams index f answered) (listens : a.Listens f answered s n t) :
    ∃ u, (a.askBlock index).eval t = (.ok (f n), u) ∧ answered (n + 1) u.world.node ∧
      u.store.closed = false ∧ u.isOver = false ∧ u.world.clock = t.world.clock := by
  obtain ⟨replied, next⟩ := streams.block n t.world.node listens.node
  have call : t.world.call (a.node.block index) =
      (some (f n), { t.world with node := (a.node.block index t.world.node).2 }) := by
    unfold World.call
    dsimp only
    rw [replied]
    rfl
  refine ⟨{ t with world.node := (a.node.block index t.world.node).2 }, ?_, next, listens.isOpen,
    listens.running, rfl⟩
  rw [Step.eval_ask, call]

/-- The pause after it. -/
theorem pause (streams : a.node.Streams index f answered) (listens : a.Listens f answered s n t)
    (node : answered (n + 1) u.world.node) (isOpen : u.store.closed = false)
    (running : u.isOver = false) (clock : u.world.clock = t.world.clock) :
    (a.pause (a.pauseMs (Reply.firsts f n) (f n)) : Step (Session σ) SyncError Unit).Ends u
      (fun _ v => a.Listens f answered s (n + 1) v)
      (fun stop v => stop = .idle ∧ (s.world.clock.patienceMs ≤ a.waitedMs f (n + 1) ∨
        v.sweepers.failure.isSome = true)) := by
  have patience := listens.patience
  rw [← clock] at patience
  obtain ⟨going, calm⟩ := Bool.or_eq_false_iff.mp running
  have stands : a.Stands u := ⟨isOpen, .inr ⟨by simpa using calm, .refl⟩⟩
  -- A pause that goes on used up its time; one that does not found the patience gone or a sweep
  -- failed.
  refine (pause_elapses stands _).mono ?_ ?_
  · rintro _ v ⟨enough, running, glances⟩
    obtain ⟨node, _⟩ := glances.streams streams node going
    refine ⟨node, glances.isOpen isOpen, running, ?_⟩
    have left : v.world.clock.patienceMs =
        u.world.clock.patienceMs - max (a.pauseMs (Reply.firsts f n) (f n)) 1 := by
      rw [glances.clock]
      rfl
    rw [waitedMs]
    omega
  · rintro stop v ⟨rfl, late | failed | ⟨canceled, glances⟩⟩
    · refine ⟨rfl, .inl ?_⟩
      rw [waitedMs]
      omega
    · exact ⟨rfl, .inr failed⟩
    · rw [(glances.streams streams node going).2] at canceled
      cases canceled

end Listens

/-- What a fetch hears of a sequence is how it begins. The induction is on the answers. -/
theorem Hears.listens (streams : a.node.Streams index f answered)
    (start : a.Listens f answered s 0 s) (hears : a.Hears index s l t) :
    l = Reply.firsts f l.length ∧ a.Listens f answered s l.length t := by
  induction hears with
  | start => exact ⟨rfl, start⟩
  | @again l x t u v _ _ heard paused ih =>
    obtain ⟨same, listens⟩ := ih
    obtain ⟨u', heard', node, isOpen, running, clock⟩ := listens.ask streams
    rw [heard] at heard'
    cases heard'
    have next := listens.pause streams node isOpen running clock
    rw [← same] at next
    rw [List.length_append, List.length_singleton, Reply.firsts_succ, ← same]
    exact ⟨rfl, next.of_ok paused⟩

/-- **The last answer of a sequence is what a fetch returns**, when it has heard that one
and no more, unless the run ends before. A sequence without a last answer is listened to
for good. -/
theorem fetchBlock_of_streams (streams : a.node.Streams index f answered)
    (start : answered 0 s.world.node) (isOpen : s.store.closed = false)
    (running : s.isOver = false) :
    (∀ n, Reply.Last a.settings.maxFetchRetries f n → ∃ t,
      (a.fetchBlock index).eval s = ((f n).verdict index, t) ∧ answered (n + 1) t.world.node ∨
      (a.fetchBlock index).eval s = (.error .idle, t) ∧
        (s.world.clock.patienceMs ≤ a.waitedMs f n ∨ t.sweepers.failure.isSome = true)) ∧
    ((∀ n, ¬Reply.Last a.settings.maxFetchRetries f n) →
      ((a.fetchBlock index).eval s).1 = .error .idle) := by
  have begins : a.Listens f answered s 0 s := ⟨start, isOpen, running, rfl⟩
  obtain ⟨l, u, hears, pending, ends⟩ := a.fetchFrom_concludes index
    (s := s) (s.world.clock.patienceMs + 1) .start Reply.pending_nil
  obtain ⟨same, listens⟩ := hears.listens streams begins
  obtain ⟨v, heard', node, isOpen', running', clock⟩ := listens.ask streams
  have fetch : (a.fetchBlock index).eval s =
      (a.fetchFrom index (s.world.clock.patienceMs + 1) (failures [])).eval s := rfl
  rw [same] at pending
  rcases ends with concludes | ⟨length, _⟩
  · rw [fetch]
    generalize (a.fetchFrom index (s.world.clock.patienceMs + 1) (failures [])).eval s = o
      at concludes
    -- The node answers, and the run was not over, so that only two ways to conclude are left.
    cases concludes with
    | @decided x t _ heard decides =>
      rw [heard'] at heard
      cases heard
      have last : Reply.Last a.settings.maxFetchRetries f l.length :=
        ⟨pending, by rwa [← same]⟩
      refine ⟨fun n last' => ⟨v, .inl ?_⟩, fun none => absurd last (none _)⟩
      obtain rfl : l.length = n := Nat.le_antisymm (last'.le pending) (last.le last'.1)
      exact ⟨rfl, node⟩
    | quit quit =>
      rw [listens.running] at quit
      cases quit
    | unanswered _ silent =>
      rw [heard'] at silent
      cases silent
    | @unpaused x stop t w _ heard undecided ended =>
      rw [heard'] at heard
      cases heard
      have next := listens.pause streams node isOpen' running' clock
      rw [← same] at next
      obtain ⟨rfl, reason⟩ := next.of_error ended
      refine ⟨fun n last => ⟨w, .inr ⟨rfl, reason.imp_left fun late => ?_⟩⟩, fun _ => rfl⟩
      have more : Pending a.settings.maxFetchRetries (Reply.firsts f (l.length + 1)) := by
        rw [Reply.firsts_succ, Reply.pending_concat, ← same]
        exact ⟨same ▸ pending, undecided⟩
      exact late.trans (a.waitedMs_mono f (last.le more))
  · -- Every pause takes a millisecond at least, so that the fuel is not used up.
    have patience := listens.patience
    have le := a.le_waitedMs f l.length
    rw [List.length_nil] at length
    omega

/-- **Blocks are fetched within the budget.** Whatever a fetch returns was the last answer
that it heard, and none before it was. Of a sequence it returns the last answer as soon as
it has heard it, unless the operator gives up or a sweep meets an error before; without
one it never returns. A run that applies one block after the other has the whole budget
for each of them: the error that ends it was the last answer of those heard since the
turn of its block began. -/
theorem fetches_within_budget (a : Auditor σ) :
    (∀ index s, (a.fetchBlock index).Ends s
      (fun b t => ∃ l, a.Heard index s l (.ok (some b)) t)
      (fun stop t => stop = .idle ∨
        ∃ l cause, a.Heard index s l (.error cause) t ∧ stop = .failed (.fetch index cause))) ∧
    (∀ index (s : Session σ) f answered, a.node.Streams index f answered →
      answered 0 s.world.node → s.store.closed = false → s.isOver = false →
      (∀ n, Reply.Last a.settings.maxFetchRetries f n → ∃ t,
        (a.fetchBlock index).eval s = ((f n).verdict index, t) ∧ answered (n + 1) t.world.node ∨
        (a.fetchBlock index).eval s = (.error .idle, t) ∧
          (s.world.clock.patienceMs ≤ a.waitedMs f n ∨
            s.sweepers.asleep ≠ 0 ∧ t.sweepers.failure.isSome = true)) ∧
      ((∀ n, ¬Reply.Last a.settings.maxFetchRetries f n) →
        ((a.fetchBlock index).eval s).1 = .error .idle)) ∧
    (∀ workers index s t, (a.applyBlock workers index).eval s = (.ok (), t) →
      ∃ b l u, a.Heard index s l (.ok (some b)) u) ∧
    (∀ workers first last s index cause t,
      (a.sync workers first last).eval s = (.error (.failed (.fetch index cause)), t) →
      ∃ u l, a.Turn workers s first index u ∧ a.Heard index u l (.error cause) t) := by
  refine ⟨a.fetchBlock_heard, ?_, ?_, ?_⟩
  · intro index s f answered streams start isOpen running
    obtain ⟨returns, never⟩ := fetchBlock_of_streams streams start isOpen running
    refine ⟨fun n last => ?_, never⟩
    obtain ⟨t, returned | ⟨idle, late | failed⟩⟩ := returns n last
    · exact ⟨t, .inl returned⟩
    · exact ⟨t, .inr ⟨idle, .inl late⟩⟩
    · refine ⟨t, .inr ⟨idle, .inr ⟨fun still => ?_, failed⟩⟩⟩
      -- Where no worker sleeps there are no sweeps.
      have same := ((a.fetchBlock_outward index s still).of_error idle).2.sweepers
      rw [same] at failed
      rw [Session.isOver, failed, Bool.or_true] at running
      cases running
  · exact fun workers index s t applied => (a.applyBlock_heard workers index s).of_ok applied
  · intro workers first last s index cause t ended
    exact (syncFrom_heard last (Index.count + 1) .start).of_error ended index cause rfl

/-- Two calls fail and two find nothing before the block comes. One retry is too few, and
two are enough. -/
theorem fetches_within_budget_alternating :
    let b : Block := ⟨⟨7, "b"⟩, ⟨6, "a"⟩, []⟩
    let f : Nat → Reply := fun k => [.error (.transient "first"), .ok none, .ok none,
      .error (.transient "second")].getD k (.ok (some b))
    let n : Node Nat := ⟨fun k => (.silent, k), fun _ k => (.replied (f k), k + 1),
      fun _ _ k => (.silent, k)⟩
    let s : Session Nat := { world := { node := 0 }, store := .scratch }
    n.Streams 7 f (fun k v => v = k) ∧
      (∃ t, ((⟨n, { maxFetchRetries := 1 }⟩ : Auditor Nat).fetchBlock 7).eval s =
        (.error (.failed (.fetch 7 (.transient "second"))), t) ∧ t.world.node = 4) ∧
      ∃ t, ((⟨n, { maxFetchRetries := 2 }⟩ : Auditor Nat).fetchBlock 7).eval s = (.ok b, t) ∧
        t.world.node = 5 := by
  intro b f n s
  have streams : n.Streams 7 f (fun k v => v = k) :=
    ⟨fun k v same => ⟨by rw [same], by rw [same]⟩, fun k v _ _ same => ⟨rfl, same⟩⟩
  -- The second error is the one that one retry does not cover.
  have pending : ∀ r, 0 ≠ r → Pending r (Reply.firsts f 3) := by
    intro r some_left
    have first : Pending r ([] ++ [f 0]) := Reply.pending_concat.mpr ⟨Reply.pending_nil, some_left⟩
    exact Reply.pending_concat.mpr ⟨Reply.pending_concat.mpr ⟨first, id⟩, id⟩
  have fails : Reply.Last 1 f 3 := ⟨pending 1 (by decide), rfl⟩
  have retried : ¬Decides 2 (Reply.firsts f 3) (f 3) := by decide
  have comes : Reply.Last 2 f 4 :=
    ⟨Reply.pending_concat.mpr ⟨pending 2 (by decide), retried⟩, trivial⟩
  refine ⟨streams, ?_, ?_⟩
  · obtain ⟨t, returned | ⟨_, late | awake⟩⟩ := ((fetches_within_budget
      ⟨n, { maxFetchRetries := 1 }⟩).2.1 7 s f _ streams rfl rfl rfl).1 3 fails
    · exact ⟨t, returned⟩
    · exact absurd late (by decide)
    · exact absurd rfl awake.1
  · obtain ⟨t, returned | ⟨_, late | awake⟩⟩ := ((fetches_within_budget
      ⟨n, { maxFetchRetries := 2 }⟩).2.1 7 s f _ streams rfl rfl rfl).1 4 comes
    · exact ⟨t, returned⟩
    · exact absurd late (by decide)
    · exact absurd rfl awake.1

end Auditor

end BalanceAudit
