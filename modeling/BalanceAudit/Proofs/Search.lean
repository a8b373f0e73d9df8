import BalanceAudit.Search
import BalanceAudit.Proofs.Chain.TwoBlocks
import BalanceAudit.Proofs.Pipeline
import BalanceAudit.Proofs.Window

/-!
# What a search finds

- `Chain.Answer`: what a search should say, window by window.
- `Auditor.eval_searchWindow`: the replay of one window on a slot of its own, and
  `Auditor.searchWindow_ends`: what it says.
- `Auditor.searchFrom_ends`: the windows before it as well.
- `Auditor.findMissing_answers`: the whole search, and where it overflows instead.
-/

namespace BalanceAudit

variable {σ ε α : Type}

namespace Chain

/-- What a search for a holding should say from a window on: the first unexplained
block of the latest window that has one, or that none has. -/
inductive Answer (c : Chain) (h : Holding) (step genesis : Int) :
    SearchWindow → Except LocalizeError BlockId → Prop where
  | found {w : SearchWindow} {b : Block} :
      c.FirstUnexplained h w.first w.last b → Answer c h step genesis w (.ok b.id)
  | earlier {w w' : SearchWindow} {r : Except LocalizeError BlockId} :
      c.Explained h (c.segment w.first w.last) → w.preceding? step genesis = some w' →
      Answer c h step genesis w' r → Answer c h step genesis w r
  | exhausted {w : SearchWindow} :
      c.Explained h (c.segment w.first w.last) → w.preceding? step genesis = none →
      Answer c h step genesis w (.error (.exhausted w))

/-- A range is explained, or it has a first unexplained block. -/
theorem explained_or_firstUnexplained (c : Chain) (h : Holding) (first last : Int) :
    c.Explained h (c.segment first last) ∨ ∃ b, c.FirstUnexplained h first last b := by
  have gen : ∀ bs : List Block, c.Explained h bs ∨ ∃ before b after,
      bs = before ++ b :: after ∧ c.Explained h before ∧ c.Unexplained h before b := by
    intro bs
    induction bs using List.reverseRecOn with
    | nil =>
      left
      intro before b after split
      cases before <;> cases split
    | append_singleton bs b ih =>
      rcases ih with all | ⟨before, x, after, split, all, unexplained⟩
      · by_cases unexplained : c.Unexplained h bs b
        · exact .inr ⟨bs, b, [], rfl, all, unexplained⟩
        · exact .inl (Explained.concat_iff.mpr ⟨all, unexplained⟩)
      · refine .inr ⟨before, x, after ++ [b], ?_, all, unexplained⟩
        rw [split, List.append_assoc]
        rfl
  rcases gen (c.segment first last) with all | ⟨before, b, after, fault⟩
  · exact .inl all
  · exact .inr ⟨b, before, after, fault⟩

theorem FirstUnexplained.unique {c : Chain} {h : Holding} {first last : Int} {b b' : Block}
    (fault : c.FirstUnexplained h first last b) (fault' : c.FirstUnexplained h first last b') :
    b = b' := by
  obtain ⟨before, after, split, all, unexplained⟩ := fault
  obtain ⟨before', after', split', all', unexplained'⟩ := fault'
  rw [split] at split'
  rcases List.append_eq_append_iff.mp split' with ⟨more, longer, rest⟩ | ⟨more, longer, rest⟩
  · cases more with
    | nil =>
      cases rest
      rfl
    | cons x more =>
      obtain ⟨rfl, _⟩ := List.cons.inj rest
      exact absurd unexplained (all' before b more longer)
  · cases more with
    | nil =>
      cases rest
      rfl
    | cons x more =>
      obtain ⟨rfl, _⟩ := List.cons.inj rest
      exact absurd unexplained' (all before' b' more longer)

/-- There is an answer for every window. The induction is on the distance to
genesis. -/
theorem Answer.exists {c : Chain} {h : Holding} {step genesis : Int} (pos : 0 < step) :
    ∀ (n : Nat) (w : SearchWindow), w.Regular step genesis → (w.first - genesis).toNat < n →
      ∃ r, Answer c h step genesis w r := by
  intro n
  induction n with
  | zero =>
    intro w _ near
    omega
  | succ n ih =>
    intro w regular near
    rcases c.explained_or_firstUnexplained h w.first w.last with all | ⟨b, fault⟩
    · have before := SearchWindow.preceding?_eq regular pos
      split at before
      · next later =>
        have further := SearchWindow.Regular.before_first_lt (w := w) pos later
        obtain ⟨r, answer⟩ := ih _ (regular.before_regular pos later)
          (by have := (regular.before_regular pos later).genesis_le; omega)
        exact ⟨r, .earlier all before answer⟩
      · exact ⟨_, .exhausted all before⟩
    · exact ⟨_, .found fault⟩

/-- There is one answer only. -/
theorem Answer.unique {c : Chain} {h : Holding} {step genesis : Int} {w : SearchWindow}
    {r r' : Except LocalizeError BlockId} (answer : Answer c h step genesis w r)
    (answer' : Answer c h step genesis w r') : r' = r := by
  -- Both derivations must take the same turn at each window: fault, next window, or end.
  induction answer with
  | found fault =>
    cases answer' with
    | found fault' => rw [fault'.unique fault]
    | earlier all _ _ => exact absurd all fault.not_explained
    | exhausted all _ => exact absurd all fault.not_explained
  | earlier all before _ ih =>
    cases answer' with
    | found fault' => exact absurd all fault'.not_explained
    | earlier _ before' answer' =>
      rw [before] at before'
      cases before'
      exact ih answer'
    | exhausted _ before' =>
      rw [before] at before'
      cases before'
  | exhausted all before =>
    cases answer' with
    | found fault' => exact absurd all fault'.not_explained
    | earlier _ before' _ =>
      rw [before] at before'
      cases before'
    | exhausted _ _ => rfl

theorem Answer.ok_or_exhausted {c : Chain} {h : Holding} {step genesis : Int} {w : SearchWindow}
    {r : Except LocalizeError BlockId} (answer : Answer c h step genesis w r) :
    (∃ id, r = .ok id) ∨ ∃ w', r = .error (.exhausted w') := by
  induction answer with
  | found _ => exact .inl ⟨_, rfl⟩
  | earlier _ _ _ ih => exact ih
  | exhausted _ _ => exact .inr ⟨_, rfl⟩

/-- A search is exhausted in a window that starts at genesis. -/
theorem Answer.first_eq {c : Chain} {h : Holding} {step genesis : Int} {w : SearchWindow}
    {r : Except LocalizeError BlockId} (answer : Answer c h step genesis w r) (pos : 0 < step)
    (regular : w.Regular step genesis) {w' : SearchWindow} (eq : r = .error (.exhausted w')) :
    w'.first = genesis := by
  induction answer with
  | found _ => cases eq
  | earlier _ before _ ih =>
    rw [SearchWindow.preceding?_eq regular pos] at before
    split at before
    · cases before
      exact ih (regular.before_regular pos _) eq
    · cases before
  | exhausted _ before =>
    cases eq
    rw [SearchWindow.preceding?_eq regular pos] at before
    split at before
    · cases before
    · have := regular.genesis_le
      omega

end Chain

/-- Nothing stands in the way of replaying a window. -/
structure Search.Ready (s : Search σ) : Prop where
  running : s.world.cancellation.aborted = false
  sound : s.world.cancellation.Sound
  room : s.scratch.fault = none

/-- An aborted search is halted before its next step. -/
theorem Search.ends_goOn {s : Search σ} {P : Unit → Search σ → Prop}
    {Q : Stop LocalizeError → Search σ → Prop} :
    Search.goOn.Ends s P Q ↔
      if s.world.cancellation.aborted = true then Q (.failed .halted) s else P () s := by
  unfold Search.goOn
  rw [Step.ends_bind, Step.ends_get]
  split <;> rfl

/-- The session in which the replay of a window starts: its store is empty. -/
def Search.session (s : Search σ) (w : SearchWindow) : Session σ :=
  { world := s.world.enter.tell [.searching w], store := .scratch }

/-- What the replay of a window says that came to `r`, with the block of the first active
failure in it. An overflow outweighs an abort, and an abort everything else. -/
def SearchWindow.finding (w : SearchWindow) (aborted : Bool) (r : Except (Stop PipelineError) Unit)
    (blamed : Option BlockId) : Except (Stop LocalizeError) (Option BlockId) :=
  match r, aborted, blamed with
  | .error (.overflow what), _, _ => .error (.overflow what)
  | _, true, _ => .error (.failed .halted)
  | .ok (), false, _ => .ok none
  | .error (.failed _), false, some b => .ok (some b)
  | .error (.failed cause), false, none => .error (.failed (.notFound w cause))
  | .error .idle, false, _ => .error .idle

namespace Auditor

variable {a : Auditor σ} {c : Chain} {h : Holding} {w : SearchWindow} {s : Search σ}

/-- A search checks every change of its holding. -/
theorem strict_watchful {settings : Settings} (lookup : settings.lookup = true) (h : Holding) :
    (settings.strict h).Watchful :=
  ⟨rfl, Nat.one_ne_zero, rfl, fun _ => rfl, lookup, rfl⟩

/-- It checks no other ones. -/
theorem strict_watches (a : Auditor σ) (h h' : Holding) :
    Auditor.Watches { a with settings := a.settings.strict h } h' ↔ h' = h := by
  show decide (h = h') = true ↔ h' = h
  rw [decide_eq_true_eq, eq_comm]

/-! ## Scratch stores

The store of a window is the last slot, and is gone again behind it. -/

/-- Closing and releasing the slot that was taken last: its store is one that can be
closed. -/
theorem close?_last {scratch : Scratch} {slots : List Scratch.Slot} {store : Store}
    (last : scratch.slots = slots ++ [⟨store, true, true, true⟩]) (isOpen : store.closed = false)
    (unwritten : store.persistent = false) :
    scratch.close? slots.length = some (.ok (), { scratch with
      slots := slots ++ [⟨store.closeNow, false, false, false⟩],
      released := scratch.released + 1 }) := by
  have closes : store.close = (.ok (), store.closeNow) := by
    rw [Store.close, Store.flush, if_neg (by rw [isOpen]; exact Bool.false_ne_true),
      if_neg (by rw [unwritten]; exact Bool.false_ne_true)]
    rfl
  have found : scratch.slots[slots.length]? = some ⟨store, true, true, true⟩ := by
    rw [last]
    simp
  have replaced : scratch.setStore slots.length store.closeNow =
      { scratch with slots := slots ++ [⟨store.closeNow, true, true, true⟩] } := by
    rw [Scratch.setStore, List.modify_eq_set_getElem?, found, last]
    simp
  have released : (scratch.setStore slots.length store.closeNow).release slots.length =
      { scratch with
        slots := slots ++ [⟨store.closeNow, false, false, false⟩],
        released := scratch.released + 1 } := by
    rw [replaced, Scratch.release]
    simp [Scratch.Slot.clear, Store.closeNow]
  -- Going once more changes nothing.
  have again : ((scratch.setStore slots.length store.closeNow).release slots.length).release
      slots.length = (scratch.setStore slots.length store.closeNow).release slots.length := by
    rw [released, Scratch.release]
    simp [Scratch.Slot.clear]
  rw [Scratch.close?, found, ← released, ← again]
  simp [closes]

/-- The scratch stores after a slot was taken. -/
def taken (scratch : Scratch) : Scratch :=
  { scratch with
    slots := scratch.slots ++ [⟨.scratch, true, true, true⟩]
    peak := max scratch.peak (scratch.heldCount + 1) }

theorem eval_provision (world : World σ) (scratch : Scratch) :
    (Search.provision : Step (Search σ) LocalizeError Nat).eval ⟨world, scratch⟩ =
      (scratch.provision.1.mapError fun e => .failed (.store e), ⟨world, scratch.provision.2⟩) := by
  unfold Search.provision
  simp [Step.eval_bind]

/-- The scratch root cannot hold another slot. -/
theorem eval_provision_of_fault {world : World σ} {scratch : Scratch} {fault : FileFault}
    (full : scratch.fault = some fault) :
    Search.provision.eval ⟨world, scratch⟩ =
      (.error (.failed (.store (.io fault))), ⟨world, scratch⟩) := by
  rw [eval_provision, Scratch.provision, full]
  rfl

theorem eval_provision_of_room {world : World σ} {scratch : Scratch}
    (room : scratch.fault = none) :
    Search.provision.eval ⟨world, scratch⟩ =
      (.ok scratch.slots.length, ⟨world, taken scratch⟩) := by
  rw [eval_provision, Scratch.provision, room]
  simp [Except.mapError, taken, Scratch.heldCount, room]

/-- A session on the slot that was taken last starts with an empty store. -/
theorem eval_runSession {scratch : Scratch} {slots : List Scratch.Slot}
    (last : scratch.slots = slots ++ [⟨.scratch, true, true, true⟩]) (world : World σ)
    (x : Step (Session σ) ε α) {r : Except (Stop ε) α} {u : Session σ}
    (ran : x.eval { world, store := .scratch } = (r, u)) :
    (Search.runSession slots.length x).eval ⟨world, scratch⟩ = (.ok (r, u.recorder),
      ⟨u.world, { scratch with slots := slots ++ [⟨u.store, true, true, true⟩] }⟩) := by
  have found : scratch.slots[slots.length]? = some ⟨.scratch, true, true, true⟩ := by
    rw [last]
    simp
  have store : (scratch.store? slots.length).getD .scratch = .scratch := by
    rw [Scratch.store?, found]
    rfl
  have replaced : scratch.setStore slots.length u.store =
      { scratch with slots := slots ++ [⟨u.store, true, true, true⟩] } := by
    rw [Scratch.setStore, List.modify_eq_set_getElem?, found, last]
    simp
  unfold Search.runSession
  rw [Step.eval_bind, Step.eval_get]
  dsimp only
  rw [store, ran]
  dsimp only
  rw [replaced]
  rfl

theorem eval_release {scratch : Scratch} {slots : List Scratch.Slot} {store : Store}
    (last : scratch.slots = slots ++ [⟨store, true, true, true⟩]) (isOpen : store.closed = false)
    (unwritten : store.persistent = false) (world : World σ) :
    (Search.release slots.length : Step (Search σ) LocalizeError Unit).eval ⟨world, scratch⟩ =
      (.ok (), ⟨world, { scratch with
        slots := slots ++ [⟨store.closeNow, false, false, false⟩]
        released := scratch.released + 1 }⟩) := by
  unfold Search.release
  rw [Step.eval_bind, Step.eval_get]
  dsimp only
  rw [close?_last last isOpen unwritten]
  rfl

/-- The search after the slot of a replay was released, which ended in `u`. -/
def released (s : Search σ) (u : Session σ) : Search σ :=
  ⟨u.world, { taken s.scratch with
    slots := s.scratch.slots ++ [⟨u.store.closeNow, false, false, false⟩]
    released := s.scratch.released + 1 }⟩

/-- **The replay of a window** on the slot that it took, which is released whatever the
run came to. -/
theorem eval_searchWindow (running : s.world.cancellation.aborted = false)
    (room : s.scratch.fault = none) {r : Except (Stop PipelineError) Unit} {u : Session σ}
    (ran : (a.runPipeline w.first (some w.last)).eval (s.session w) = (r, u))
    (isOpen : u.store.closed = false) (unwritten : u.store.persistent = false) :
    (a.searchWindow w).eval s =
      (w.finding u.world.cancellation.aborted r u.recorder.activeBlock?, released s u) := by
  have slots : (taken s.scratch).slots = s.scratch.slots ++ [⟨.scratch, true, true, true⟩] := rfl
  refine Step.Ends.eval_eq ?_
  unfold searchWindow
  rw [Step.ends_bind, Search.ends_goOn, running, if_neg Bool.false_ne_true, Step.ends_bind]
  show Step.Ends (Search.provision >>= _) ⟨s.world.enter, s.scratch⟩ _ _
  rw [Step.ends_bind]
  refine Step.ends_of_ok (eval_provision_of_room room) ?_
  rw [Step.ends_bind]
  show Step.Ends (Search.runSession _ _ >>= _) ⟨(s.session w).world, taken s.scratch⟩ _ _
  rw [Step.ends_bind]
  refine Step.ends_of_ok (eval_runSession slots _ _ ran) ?_
  rw [Step.ends_bind]
  refine Step.ends_of_ok (eval_release rfl isOpen unwritten _) ?_
  -- Only now the replay is judged, by the world that it left.
  generalize aborted : u.world.cancellation.aborted = quit
  have here : (released s u).world.cancellation.aborted = quit := aborted
  generalize u.recorder.activeBlock? = blamed
  match r with
  | .error (.overflow what) => rfl
  | .ok () =>
    rw [Step.ends_bind, Search.ends_goOn]
    show if (released s u).world.cancellation.aborted = true then _ else _
    rw [here]
    cases quit <;> rfl
  | .error .idle =>
    rw [Step.ends_bind, Search.ends_goOn]
    show if (released s u).world.cancellation.aborted = true then _ else _
    rw [here]
    cases quit <;> rfl
  | .error (.failed cause) =>
    rw [Step.ends_bind, Search.ends_goOn]
    show if (released s u).world.cancellation.aborted = true then _ else _
    rw [here]
    cases quit <;> cases blamed <;> rfl

/-! ## Windows

A window's run halts at the first block that its operations do not explain, or ends with all
of them explained. -/

/-- **The replay of a window** names its first unexplained block, or finds that
there is none. Only a window without one that ends at the greatest index overflows, in
front of the block behind it. -/
theorem searchWindow_ends (lookup : a.settings.lookup = true) (recites : a.node.Recites c)
    (linked : c.Linked w.first w.last) (exact_ : c.ExactSums w.first w.last)
    (low : Index.least ≤ w.first) (high : w.last ≤ Index.greatest) (ready : s.Ready) :
    (Auditor.searchWindow { a with settings := a.settings.strict h } w).Ends s
      (fun r t => t.Ready ∧
        (r = none ∧ w.last < Index.greatest ∧ c.Explained h (c.segment w.first w.last) ∨
          ∃ b, r = some b.id ∧ c.FirstUnexplained h w.first w.last b))
      (fun stop _ => w.last = Index.greatest ∧ c.Explained h (c.segment w.first w.last) ∧
        stop = .overflow .next) := by
  obtain ⟨running, aborted, sound, made⟩ := World.enter_fresh ready.running ready.sound
  have fresh : (s.session w).Fresh := ⟨rfl, rfl, rfl, rfl, rfl, rfl, running⟩
  rcases ran : (runPipeline { a with settings := a.settings.strict h } w.first (some w.last)).eval
    (s.session w) with ⟨result, u⟩
  have outcome := (runPipeline_ends (a := { a with settings := a.settings.strict h })
    (strict_watchful lookup h) recites fresh linked exact_ low high w.first_le_last).outcome ran
  have mode : Store.scratch.SameMode u.store := by
    rcases outcome with ⟨_, _, _, fin⟩ | ⟨_, _, ⟨_, _, _, stopped⟩ | ⟨_, _, fin⟩⟩
    · exact fin.after.mode
    · exact stopped.after.mode
    · exact fin.after.mode
  -- A window that canceled its own token only leaves the search as ready as before.
  have ready' : (s.session w).After u →
      u.world.cancellation.aborted = false ∧ (released s u).Ready := by
    intro after
    have running' : u.world.cancellation.aborted = false := after.aborted.trans aborted
    exact ⟨running', running', after.sound sound made made, ready.room⟩
  unfold Step.Ends
  rw [eval_searchWindow ready.running ready.room ran mode.closed mode.persistent]
  rcases outcome with
    ⟨_, rfl, small, fin⟩ | ⟨_, rfl, ⟨b, cause, rfl, stopped⟩ | ⟨same, rfl, fin⟩⟩
  · obtain ⟨running', ready'⟩ := ready' fin.after
    rw [running']
    refine ⟨ready', .inl ⟨rfl, small, ?_⟩⟩
    exact Chain.explained_of_faultless (strict_watches a h) linked fin.clean
  · obtain ⟨running', ready'⟩ := ready' stopped.after
    obtain ⟨f, block, kind, recorder⟩ := stopped.recorder
    have blamed : u.recorder.activeBlock? = some b.id := by
      rw [recorder, Recorder.activeBlock?, ← block]
      show f.cause? = _
      rw [Failure.cause?, kind]
    rw [running', blamed]
    refine ⟨ready', .inr ⟨b, rfl, ?_⟩⟩
    exact stopped.fault.firstUnexplained (strict_watches a h) linked
  · exact ⟨same, Chain.explained_of_faultless (strict_watches a h) linked fin.clean, rfl⟩

/-! ## The search

By induction on the windows that are left in front; the last of them starts at genesis. -/

/-- **The search says what it should**, one window after the other. The induction
is on the fuel, of which there is more than blocks in front of the window. -/
theorem searchFrom_ends {step genesis tip observed : Int} (spans : c.Spans genesis tip)
    (lookup : a.settings.lookup = true) (recites : a.node.Recites c) (pos : 0 < step)
    (le : observed ≤ tip)
    (exact_ : ∀ first, genesis ≤ first → first ≤ observed → c.ExactSums first observed) :
    ∀ (fuel : Nat) (w : SearchWindow) (s : Search σ), s.Ready → w.Regular step genesis →
      w.last ≤ observed → (w.first - genesis).toNat < fuel →
      (Auditor.searchFrom { a with settings := a.settings.strict h } step genesis fuel w).Ends s
        (fun id _ => c.Answer h step genesis w (.ok id) ∧
          (w.last < Index.greatest ∨ ¬c.Explained h (c.segment w.first w.last)))
        (fun stop _ =>
          (∃ w', stop = .failed (.exhausted w') ∧
            c.Answer h step genesis w (.error (.exhausted w')) ∧ w.last < Index.greatest) ∨
          w.last = Index.greatest ∧ c.Explained h (c.segment w.first w.last) ∧
            stop = .overflow .next) := by
  intro fuel
  induction fuel with
  | zero =>
    intro w s _ _ _ enough
    omega
  | succ fuel ih =>
    intro w s ready regular last_le enough
    have ordered := w.first_le_last
    have genesis_le := regular.genesis_le
    have high := spans.high
    unfold searchFrom
    rw [Step.ends_bind]
    -- The window's replay starts at its first block, so exact sums and links are those of the
    -- window.
    refine (searchWindow_ends lookup recites (spans.linked.sub genesis_le (by omega))
      ((exact_ w.first genesis_le (by omega)).sub last_le) (by have := spans.low; omega)
      (by omega) ready).mono ?_ fun _ _ h => .inr h
    rintro _ t ⟨ready', ⟨rfl, small, explained⟩ | ⟨b, rfl, fault⟩⟩
    · have before := SearchWindow.preceding?_eq regular pos
      dsimp only
      split at before
      · next later =>
        have regular' := regular.before_regular pos later
        have further := SearchWindow.Regular.before_first_lt (w := w) pos later
        have last : (SearchWindow.Regular.before w step genesis pos later).last = w.first := rfl
        rw [before]
        refine (ih _ t ready' regular' (by omega)
          (by have := regular'.genesis_le; omega)).mono ?_ ?_
        · rintro id _ ⟨answer, _⟩
          exact ⟨.earlier explained before answer, .inl small⟩
        -- The earlier window ends before the largest index: no overflow comes from it.
        · rintro _ _ (⟨w', rfl, answer, _⟩ | ⟨same, _⟩)
          · exact .inl ⟨w', rfl, .earlier explained before answer, small⟩
          · omega
      · rw [before]
        exact .inl ⟨w, rfl, .exhausted explained before, small⟩
    · exact ⟨.found fault, .inr fault.not_explained⟩

section Whole

variable {genesis tip observed step : Int} {settings : Settings} {s : Search Unit}

/-- The search starts with the window that ends where the failure was seen. -/
theorem findMissing_ends (spans : c.Spans genesis tip) (lookup : settings.lookup = true)
    (h : Holding) (ge : genesis ≤ observed) (le : observed ≤ tip) (pos : 0 < step)
    (exact_ : ∀ first, genesis ≤ first → first ≤ observed → c.ExactSums first observed)
    (ready : s.Ready) :
    ∃ w, SearchWindow.initial observed step genesis = .ok w ∧ w.last = observed ∧
      w.Regular step genesis ∧
      ((⟨c.node, settings⟩ : Auditor Unit).findMissing h observed step genesis).Ends s
        (fun id _ => c.Answer h step genesis w (.ok id) ∧
          (observed < Index.greatest ∨ ¬c.Explained h (c.segment w.first w.last)))
        (fun stop _ =>
          (∃ w', stop = .failed (.exhausted w') ∧
            c.Answer h step genesis w (.error (.exhausted w')) ∧ observed < Index.greatest) ∨
          observed = Index.greatest ∧ c.Explained h (c.segment w.first w.last) ∧
            stop = .overflow .next) := by
  have high := spans.high
  obtain ⟨w, initial, last, regular⟩ :=
    SearchWindow.initial_eq pos spans.low (by omega : observed ≤ Index.greatest) ge
  have ordered := w.first_le_last
  have search := searchFrom_ends (a := ⟨c.node, settings⟩) (h := h) spans lookup c.recites pos le
    exact_ ((observed - genesis).toNat + 1) w s ready regular last.le (by omega)
  refine ⟨w, initial, last, regular, ?_⟩
  unfold findMissing
  rw [initial]
  rw [last] at search
  rw [last]
  exact search

/-- What a search names is the answer of the windows. -/
theorem answer_of_findMissing (spans : c.Spans genesis tip) (lookup : settings.lookup = true)
    (ge : genesis ≤ observed) (le : observed ≤ tip) (pos : 0 < step)
    (exact_ : ∀ first, genesis ≤ first → first ≤ observed → c.ExactSums first observed)
    (ready : s.Ready) {id : BlockId}
    (named : (((⟨c.node, settings⟩ : Auditor Unit).findMissing h observed step genesis).eval s).1 =
      .ok id) :
    ∃ w, SearchWindow.initial observed step genesis = .ok w ∧
      c.Answer h step genesis w (.ok id) := by
  obtain ⟨w, initial, _, _, search⟩ := findMissing_ends spans lookup h ge le pos exact_ ready
  unfold Step.Ends at search
  rcases outcome : ((⟨c.node, settings⟩ : Auditor Unit).findMissing h observed step genesis).eval s
    with ⟨_ | id', t⟩
  · rw [outcome] at named
    cases named
  · rw [outcome] at named search
    cases named
    exact ⟨w, initial, search.1⟩

/-- A search gives the answer of its windows, unless it starts at the greatest index
with a window that explains every balance: then it overflows in front of the block behind. -/
theorem findMissing_cases (spans : c.Spans genesis tip) (lookup : settings.lookup = true)
    (ge : genesis ≤ observed) (le : observed ≤ tip) (pos : 0 < step)
    (exact_ : ∀ first, genesis ≤ first → first ≤ observed → c.ExactSums first observed)
    (ready : s.Ready) {w : SearchWindow} {r : Except LocalizeError BlockId}
    (initial : SearchWindow.initial observed step genesis = .ok w)
    (answer : c.Answer h step genesis w r) :
    let result := (((⟨c.node, settings⟩ : Auditor Unit).findMissing h observed step genesis).eval
      s).1
    result = r.mapError .failed ∧
        (observed < Index.greatest ∨ ¬c.Explained h (c.segment w.first w.last)) ∨
      result = .error (.overflow .next) ∧
        observed = Index.greatest ∧ c.Explained h (c.segment w.first w.last) := by
  intro result
  obtain ⟨w', initial', _, _, search⟩ := findMissing_ends spans lookup h ge le pos exact_ ready
  -- The search starts from this window, and there is one answer only.
  rw [initial] at initial'
  cases initial'
  rcases outcome : ((⟨c.node, settings⟩ : Auditor Unit).findMissing h observed step genesis).eval s
    with ⟨stop | id, t⟩
  · rcases search.outcome outcome with
      ⟨_, impossible, _⟩ | ⟨_, same, ⟨w', rfl, answer', small⟩ | ⟨top, explained, rfl⟩⟩
    · cases impossible
    · cases same
      obtain rfl := answer'.unique answer
      exact .inl ⟨congrArg Prod.fst outcome, .inl small⟩
    · cases same
      exact .inr ⟨congrArg Prod.fst outcome, top, explained⟩
  · rcases search.outcome outcome with ⟨_, same, answer', condition⟩ | ⟨_, impossible, _⟩
    · cases same
      obtain rfl := answer'.unique answer
      exact .inl ⟨congrArg Prod.fst outcome, condition⟩
    · cases impossible

/-- An answer is never an overflow, so that this is told by the condition. -/
theorem findMissing_eq_iff (spans : c.Spans genesis tip) (lookup : settings.lookup = true)
    (ge : genesis ≤ observed) (le : observed ≤ tip) (pos : 0 < step)
    (exact_ : ∀ first, genesis ≤ first → first ≤ observed → c.ExactSums first observed)
    (ready : s.Ready) {w : SearchWindow} {r : Except LocalizeError BlockId}
    (initial : SearchWindow.initial observed step genesis = .ok w)
    (answer : c.Answer h step genesis w r) :
    (((⟨c.node, settings⟩ : Auditor Unit).findMissing h observed step genesis).eval s).1 =
        r.mapError .failed ↔
      observed < Index.greatest ∨ ¬c.Explained h (c.segment w.first w.last) := by
  rcases findMissing_cases spans lookup ge le pos exact_ ready initial answer with
    ⟨result, condition⟩ | ⟨result, top, explained⟩
  · exact ⟨fun _ => condition, fun _ => result⟩
  · constructor
    · intro answered
      rw [result] at answered
      rcases answer.ok_or_exhausted with ⟨id, rfl⟩ | ⟨w', rfl⟩ <;> cases answered
    · rintro (small | unexplained)
      · omega
      · exact absurd explained unexplained

/-- **A search says what the windows of the chain say.** The answer is unique, and an
exhausted search has got to genesis. Only a search that starts at the greatest index with
a window that explains every balance does not give it: there the index behind the window
overflows. -/
theorem findMissing_answers (spans : c.Spans genesis tip) (lookup : settings.lookup = true)
    (h : Holding) (ge : genesis ≤ observed) (le : observed ≤ tip) (pos : 0 < step)
    (exact_ : ∀ first, genesis ≤ first → first ≤ observed → c.ExactSums first observed)
    (ready : s.Ready) :
    ∃ w r, SearchWindow.initial observed step genesis = .ok w ∧
      c.Answer h step genesis w r ∧ (∀ r', c.Answer h step genesis w r' → r' = r) ∧
      (∀ w', r = .error (.exhausted w') → w'.first = genesis) ∧
      ((((⟨c.node, settings⟩ : Auditor Unit).findMissing h observed step genesis).eval s).1 =
          r.mapError .failed ↔
        observed < Index.greatest ∨ ¬c.Explained h (c.segment w.first w.last)) ∧
      ((((⟨c.node, settings⟩ : Auditor Unit).findMissing h observed step genesis).eval s).1 =
          .error (.overflow .next) ↔
        observed = Index.greatest ∧ c.Explained h (c.segment w.first w.last)) := by
  have high := spans.high
  obtain ⟨w, initial, _, regular⟩ :=
    SearchWindow.initial_eq pos spans.low (by omega : observed ≤ Index.greatest) ge
  obtain ⟨r, answer⟩ := Chain.Answer.exists (c := c) (h := h) pos _ w regular (Nat.lt_succ_self _)
  have answered := findMissing_eq_iff spans lookup ge le pos exact_ ready initial answer
  refine ⟨w, r, initial, answer, fun _ => answer.unique, fun _ => answer.first_eq pos regular,
    answered, ?_⟩
  -- The second equivalence comes from the same two cases, read from the overflow's side.
  rcases findMissing_cases spans lookup ge le pos exact_ ready initial answer with
    ⟨result, condition⟩ | ⟨result, top, explained⟩
  · constructor
    · intro overflows
      rw [result] at overflows
      rcases answer.ok_or_exhausted with ⟨id, rfl⟩ | ⟨w', rfl⟩ <;> cases overflows
    · rintro ⟨top, explained⟩
      rcases condition with small | unexplained
      · omega
      · exact absurd explained unexplained
  · exact ⟨fun _ => ⟨top, explained⟩, fun _ => result⟩

/-- A search that was not aborted, on a scratch root that can be used. -/
def idle : Search Unit := { world := { node := () } }

theorem idle_ready : idle.Ready := ⟨rfl, fun _ mem => (nomatch mem), rfl⟩

/-- A search on two blocks of which the second one lacks an operation. -/
theorem findMissing_answers_gap :
    ∃ w r, SearchWindow.initial 1 1 0 = .ok w ∧ Chain.gap.Answer .alice 1 0 w r ∧
      (∀ r', Chain.gap.Answer .alice 1 0 w r' → r' = r) ∧
      (∀ w', r = .error (.exhausted w') → w'.first = 0) ∧
      ((((⟨Chain.gap.node, {}⟩ : Auditor Unit).findMissing .alice 1 1 0).eval idle).1 =
          r.mapError .failed ↔
        1 < Index.greatest ∨ ¬Chain.gap.Explained .alice (Chain.gap.segment w.first w.last)) ∧
      ((((⟨Chain.gap.node, {}⟩ : Auditor Unit).findMissing .alice 1 1 0).eval idle).1 =
          .error (.overflow .next) ↔
        1 = Index.greatest ∧ Chain.gap.Explained .alice (Chain.gap.segment w.first w.last)) :=
  findMissing_answers Chain.gap_spans rfl .alice (by decide) (by decide) (by decide)
    (fun first _ _ => Chain.gap_exactSums first 1) idle_ready

/-- At the greatest index a search for nothing does not tell that it is exhausted: it
overflows. -/
theorem findMissing_brim :
    ∃ w, SearchWindow.initial Index.greatest 1 (Index.greatest - 1) = .ok w ∧
      Chain.brim.Answer .alice 1 (Index.greatest - 1) w (.error (.exhausted w)) ∧
      (((⟨Chain.brim.node, {}⟩ : Auditor Unit).findMissing .alice Index.greatest 1
        (Index.greatest - 1)).eval idle).1 = .error (.overflow .next) := by
  obtain ⟨w, initial, last, regular⟩ := SearchWindow.initial_eq Int.one_pos
    Chain.brim_spans.low (le_refl Index.greatest) (by decide)
  have first : w.first = Index.greatest - 1 := by
    rw [regular.reach, last]
    exact max_self _
  have before : w.preceding? 1 (Index.greatest - 1) = none := by
    rw [SearchWindow.preceding?_eq regular Int.one_pos, dif_neg (by omega)]
  have range : Chain.brim.Explained .alice (Chain.brim.segment w.first w.last) := by
    rw [first, last]
    decide +kernel
  exact ⟨w, initial, .exhausted range before, by decide +kernel⟩

end Whole

end Auditor

end BalanceAudit
