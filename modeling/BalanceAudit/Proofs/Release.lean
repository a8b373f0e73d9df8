import BalanceAudit.Proofs.Moves
import BalanceAudit.Proofs.Search

/-!
# What a search takes it gives back

A search replays one window after another, each on a scratch store of its own,
which is released before the next one is taken and before the search ends,
whatever the node does and however the search ends.

- `Replay`, `Auditor.Replayed`: what the replay of one window does to a search.
- `Auditor.Searches`: one replay after another, and how they may end.
- `SearchWindow.Begins`: the first windows of the sequence back to genesis, which are
  the ones a search replays.
- `Auditor.searchWindow_searches`, `Auditor.searchFrom_searches`: **a search is
  halted exactly if it was aborted**, and comes to such replays.
- `Scratch.Released`: what that leaves of the scratch stores.
- `Trace.Within`: no block outside a range was asked for.
- `Auditor.findMissing_releases`: the whole search.
-/

namespace BalanceAudit

variable {σ ε α : Type}

/-! ## Stores of replays

A run on a scratch store neither makes it persistent nor closes it. -/

/-- The store of a replay is open and never written. -/
def Session.OnScratch (s : Session σ) : Prop :=
  s.store.closed = false ∧ s.store.persistent = false

namespace Auditor

variable {a : Auditor σ} {p : Scope} {s t : Session σ}

theorem Move.onScratch (move : a.Move p s t) (h : s.OnScratch) : t.OnScratch :=
  ⟨move.mode.closed.trans h.1, move.mode.persistent.trans h.2⟩

/-- A pipeline is what it does, and then its token is canceled. -/
theorem runPipeline_eval (a : Auditor σ) (first : Int) (last : Option Int)
    (observer : Option (Observer σ)) (s : Session σ) :
    (a.runPipeline first last observer).eval s =
      (((a.runBoth first last observer).eval s).1,
        { ((a.runBoth first last observer).eval s).2 with
          world := ((a.runBoth first last observer).eval s).2.world.cancel }) := by
  unfold runPipeline
  rw [Step.eval_bind, Step.eval_attempt]
  dsimp only
  rw [Step.eval_bind, Step.eval_onWorld]
  dsimp only
  rcases ((a.runBoth first last observer).eval s).1 with _ | _ <;> rfl

/-- What every move of a run keeps, and the cancellation of its token, the whole
pipeline keeps. -/
theorem runPipeline_keeps (first : Int) (last : Option Int) {P : Session σ → Prop}
    {observer : Option (Observer σ)} (reports : p.reports) (waits : p.waits)
    (observes : ∀ b cs, a.Moves p (a.observed observer b cs)) (commits : p.commits)
    (finishes : p.finishes)
    (allowed : ∀ i j, p.asks i → Index.next? i = some j → ¬last.any (· < j) → p.asks j)
    (due : ¬last.any (· < first) → p.asks first)
    (kept : ∀ s t, a.Move p s t → P s → P t)
    (cancel : ∀ s, P s → P { s with world := s.world.cancel })
    (start : P s) : P ((a.runPipeline first last observer).eval s).2 := by
  rw [runPipeline_eval]
  refine cancel _ (Step.Along.keeps ?_ kept start)
  exact a.runBoth_moves reports waits observes commits finishes allowed due

theorem runPipeline_keeps_all {P : Session σ → Prop} (first : Int) (last : Option Int)
    (kept : ∀ s t, a.Move .all s t → P s → P t)
    (cancel : ∀ s, P s → P { s with world := s.world.cancel }) (start : P s) :
    P ((a.runPipeline first last).eval s).2 :=
  runPipeline_keeps (p := .all) first last trivial trivial (a.observer_moves trivial) trivial
    trivial (fun _ _ _ _ _ => trivial) (fun _ => trivial) kept cancel start

end Auditor

/-! ## Replays

A search is told as a list of replays, each with its window and what the run on it came to. -/

/-- A window that was replayed, and what its run came to. -/
structure Replay where
  window : SearchWindow
  result : Except (Stop PipelineError) Unit

/-- A search took a fresh slot, when nobody had aborted, ran a pipeline on it, and
released it. -/
structure Auditor.Replayed (a : Auditor σ) (s : Search σ) (r : Replay) (t : Search σ) : Prop where
  running : s.world.cancellation.aborted = false
  run : ∃ u, (a.runPipeline r.window.first (some r.window.last)).eval (s.session r.window) =
    (r.result, u) ∧ t.world = u.world ∧
      t.scratch.slots = s.scratch.slots ++ [⟨u.store.closeNow, false, false, false⟩]
  released : t.scratch.released = s.scratch.released + 1
  peak : t.scratch.peak = max s.scratch.peak (s.scratch.heldCount + 1)

/-- One replay after another. -/
inductive Auditor.Searches (a : Auditor σ) : Search σ → List Replay → Search σ → Prop where
  | stop {s : Search σ} : Searches a s [] s
  /-- The scratch root cannot hold another slot. -/
  | refused {s : Search σ} (running : s.world.cancellation.aborted = false) :
      Searches a s [] { s with world := s.world.enter }
  | replay {s t u : Search σ} {r : Replay} {rs : List Replay} (first : a.Replayed s r t)
      (rest : Searches a t rs u) : Searches a s (r :: rs) u

/-- The search is halted exactly if it was aborted, unless it overflows. -/
def Search.Halts (stop : Stop LocalizeError) (t : Search σ) : Prop :=
  (∀ what, stop ≠ .overflow what) →
    (stop = .failed .halted ↔ t.world.cancellation.aborted = true)

namespace Auditor

variable {a : Auditor σ} {w : SearchWindow} {s t : Search σ}

/-! ## One window

Each way out of a window gives the store back, or never got one. -/

/-- Whoever aborted, no window is replayed. -/
theorem eval_searchWindow_of_aborted (aborted : s.world.cancellation.aborted = true) :
    (a.searchWindow w).eval s = (.error (.failed .halted), s) := by
  refine Step.Ends.eval_eq ?_
  unfold searchWindow
  rw [Step.ends_bind, Search.ends_goOn, if_pos aborted]

/-- Without a slot there is no replay; only the token of its run was made. -/
theorem eval_searchWindow_of_fault (running : s.world.cancellation.aborted = false)
    {fault : FileFault} (full : s.scratch.fault = some fault) :
    (a.searchWindow w).eval s =
      (.error (.failed (.store (.io fault))), { s with world := s.world.enter }) := by
  refine Step.Ends.eval_eq ?_
  unfold searchWindow
  rw [Step.ends_bind, Search.ends_goOn, running, if_neg Bool.false_ne_true, Step.ends_bind]
  show Step.Ends (Search.provision >>= _) ⟨s.world.enter, s.scratch⟩ _ _
  rw [Step.ends_bind]
  unfold Step.Ends
  rw [eval_provision_of_fault full]

/-- A replay that found something was not aborted, and one that did not halts the search
exactly if it was, unless it overflows. -/
theorem finding_halts (w : SearchWindow) (quit : Bool) (r : Except (Stop PipelineError) Unit)
    (blamed : Option BlockId) :
    match w.finding quit r blamed with
    | .ok _ => quit = false
    | .error stop =>
      (∀ what, stop ≠ .overflow what) → (stop = .failed .halted ↔ quit = true) := by
  cases quit with
  | true =>
    match r with
    | .error (.overflow what) => exact fun other => absurd rfl (other what)
    | .ok () => exact fun _ => ⟨fun _ => rfl, fun _ => rfl⟩
    | .error (.failed _) => exact fun _ => ⟨fun _ => rfl, fun _ => rfl⟩
    | .error .idle => exact fun _ => ⟨fun _ => rfl, fun _ => rfl⟩
  | false =>
    match r, blamed with
    | .error (.overflow what), _ => exact fun other => absurd rfl (other what)
    | .ok (), _ => rfl
    | .error (.failed _), some _ => rfl
    | .error (.failed _), none => exact fun _ => ⟨nofun, nofun⟩
    | .error .idle, _ => exact fun _ => ⟨nofun, nofun⟩

/-- **The replay of a window** halts the search exactly if it was aborted. Otherwise
the window was replayed, or no slot was to be had. -/
theorem searchWindow_searches (a : Auditor σ) (w : SearchWindow) (s : Search σ) :
    (a.searchWindow w).Ends s
      (fun _ t => t.world.cancellation.aborted = false ∧ ∃ r, r.window = w ∧ a.Replayed s r t)
      (fun stop t => Search.Halts stop t ∧ ∃ rs,
        (rs.map (·.window) = [] ∨ rs.map (·.window) = [w]) ∧ a.Searches s rs t) := by
  unfold Step.Ends
  cases aborted : s.world.cancellation.aborted with
  | true =>
    rw [eval_searchWindow_of_aborted aborted]
    exact ⟨fun _ => ⟨fun _ => aborted, fun _ => rfl⟩, [], .inl rfl, .stop⟩
  | false =>
    cases room : s.scratch.fault with
    | some fault =>
      have entered : s.world.enter.cancellation.aborted = false := by
        -- Entering a run of its own does not abort the search.
        show s.world.cancellation.fresh.2.aborted = false
        rw [Cancellation.fresh_of_not_aborted aborted]
        exact aborted
      rw [eval_searchWindow_of_fault aborted room]
      refine ⟨fun _ => ⟨nofun, fun quit => ?_⟩, [], .inl rfl, .refused aborted⟩
      exact absurd (entered.symm.trans quit) Bool.false_ne_true
    | none =>
      rcases ran : (a.runPipeline w.first (some w.last)).eval (s.session w) with ⟨result, u⟩
      have onScratch : u.OnScratch := by
        have kept := runPipeline_keeps_all (a := a) (P := Session.OnScratch) w.first (some w.last)
          (fun _ _ move => move.onScratch) (fun _ h => h) (s := s.session w) ⟨rfl, rfl⟩
        rwa [ran] at kept
      have replayed : a.Replayed s ⟨w, result⟩ (released s u) :=
        ⟨aborted, ⟨u, ran, rfl, rfl⟩, rfl, rfl⟩
      rw [eval_searchWindow aborted room ran onScratch.1 onScratch.2]
      have halts := finding_halts w u.world.cancellation.aborted result u.recorder.activeBlock?
      cases found : w.finding u.world.cancellation.aborted result u.recorder.activeBlock? with
      | ok _ =>
        rw [found] at halts
        exact ⟨halts, _, rfl, replayed⟩
      | error stop =>
        rw [found] at halts
        exact ⟨halts, _, .inr rfl, .replay replayed .stop⟩

end Auditor

/-! ## One window after another

By induction on the fuel. The windows are the first ones of the sequence, however the search
ends. -/

namespace SearchWindow

variable {step genesis observed : Int} {w : SearchWindow} {ws : List SearchWindow}

/-- The first windows of the sequence from `w` on. -/
def Begins (step genesis : Int) (w : SearchWindow) (vs : List SearchWindow) : Prop :=
  ∀ ws, Sequence step genesis w ws → vs <+: ws

namespace Begins

theorem nil : w.Begins step genesis [] := fun _ _ => List.nil_prefix

theorem single : w.Begins step genesis [w] := by
  intro ws sequence
  cases sequence with
  | last _ => exact List.prefix_refl _
  | earlier _ _ => exact List.prefix_append [w] _

theorem cons {w' : SearchWindow} {vs : List SearchWindow} (more : w'.Begins step genesis vs)
    (before : w.preceding? step genesis = some w') : w.Begins step genesis (w :: vs) := by
  intro ws sequence
  cases sequence with
  | last first => cases first.symm.trans before
  | earlier before' rest =>
    cases before'.symm.trans before
    exact (List.prefix_cons_inj w).mpr (more _ rest)

end Begins

end SearchWindow

namespace Auditor

variable {a : Auditor σ} {w : SearchWindow} {s t : Search σ}

/-- **A search is halted exactly if it was aborted**, and replays the first windows of
the sequence. The induction is on the fuel; a search that runs out of it was not
aborted before. -/
theorem searchFrom_searches (a : Auditor σ) (step genesis : Int) (fuel : Nat) {w : SearchWindow}
    {s : Search σ} (starts : fuel = 0 → s.world.cancellation.aborted = false) :
    (a.searchFrom step genesis fuel w).Ends s
      (fun _ t => t.world.cancellation.aborted = false ∧
        ∃ rs, w.Begins step genesis (rs.map (·.window)) ∧ a.Searches s rs t)
      (fun stop t => Search.Halts stop t ∧
        ∃ rs, w.Begins step genesis (rs.map (·.window)) ∧ a.Searches s rs t) := by
  induction fuel generalizing w s with
  | zero =>
    refine ⟨fun _ => ⟨nofun, fun quit => ?_⟩, [], .nil, .stop⟩
    rw [starts rfl] at quit
    cases quit
  | succ fuel ih =>
    unfold searchFrom
    rw [Step.ends_bind]
    refine (a.searchWindow_searches w s).mono ?_ ?_
    · rintro found t ⟨running, r, rfl, replayed⟩
      have here : a.Searches s [r] t := .replay replayed .stop
      cases found with
      | some b => exact ⟨running, [r], .single, here⟩
      | none =>
        dsimp only
        split
        · next earlier before =>
          refine (ih fun _ => running).mono ?_ ?_
          · rintro id u ⟨still, rs, more, searches⟩
            exact ⟨still, r :: rs, more.cons before, .replay replayed searches⟩
          · rintro stop u ⟨halts, rs, more, searches⟩
            exact ⟨halts, r :: rs, more.cons before, .replay replayed searches⟩
        · refine ⟨fun _ => ⟨nofun, fun quit => ?_⟩, [r], .single, here⟩
          exact absurd (running.symm.trans quit) Bool.false_ne_true
    -- Refused scratch space stops the search before the window has a replay.
    · rintro stop t ⟨halts, rs, none | one, searches⟩
      · exact ⟨halts, rs, none ▸ .nil, searches⟩
      · exact ⟨halts, rs, one ▸ .single, searches⟩

end Auditor

/-! ## What replays leave of the scratch stores

Each replay takes one store and gives it back, so as many are released as there were
replays. -/

/-- Another `n` slots were taken, not more than one of them at once, and each was
released: its store is closed and its directory gone. -/
structure Scratch.Released (s t : Scratch) (n : Nat) : Prop where
  slots : ∃ taken, t.slots = s.slots ++ taken ∧ taken.length = n ∧
    ∀ slot ∈ taken, slot.store.closed = true ∧ slot.directory = false ∧ slot.held = false
  released : t.released = s.released + n
  peak : t.peak ≤ max s.peak (s.heldCount + 1)

namespace Scratch.Released

variable {s t u : Scratch} {m n : Nat}

theorem refl (s : Scratch) : Released s s 0 :=
  ⟨⟨[], (List.append_nil _).symm, rfl, nofun⟩, rfl, Nat.le_max_left _ _⟩

/-- Slots that were released are not held. -/
theorem heldCount (h : Released s t n) : t.heldCount = s.heldCount := by
  obtain ⟨taken, slots, _, gone⟩ := h.slots
  have none : taken.countP (·.held) = 0 := by
    rw [List.countP_eq_zero]
    intro slot mem held
    exact absurd ((gone slot mem).2.2.symm.trans held) (by decide)
  rw [Scratch.heldCount, slots, List.countP_append, none]
  rfl

theorem trans (h : Released s t m) (h' : Released t u n) : Released s u (m + n) := by
  obtain ⟨taken, slots, length, gone⟩ := h.slots
  obtain ⟨taken', slots', length', gone'⟩ := h'.slots
  refine ⟨⟨taken ++ taken', ?_, ?_, ?_⟩, ?_, ?_⟩
  · rw [slots', slots, List.append_assoc]
  · rw [List.length_append, length, length']
  · intro slot mem
    rcases List.mem_append.mp mem with mem | mem
    · exact gone slot mem
    · exact gone' slot mem
  · rw [h'.released, h.released, Nat.add_assoc]
  · have peak := h.peak
    have peak' := h'.peak
    rw [h.heldCount] at peak'
    omega

end Scratch.Released

namespace Auditor

variable {a : Auditor σ} {s t : Search σ} {r : Replay} {rs : List Replay}

theorem Replayed.gaveBack (replayed : a.Replayed s r t) :
    Scratch.Released s.scratch t.scratch 1 := by
  obtain ⟨u, _, _, slots⟩ := replayed.run
  refine ⟨⟨_, slots, rfl, ?_⟩, replayed.released, replayed.peak.le⟩
  intro slot mem
  rw [List.mem_singleton.mp mem]
  exact ⟨rfl, rfl, rfl⟩

/-- **Whatever a search took it gave back.** -/
theorem Searches.released (searches : a.Searches s rs t) :
    Scratch.Released s.scratch t.scratch rs.length := by
  induction searches with
  | stop => exact .refl _
  | refused _ => exact .refl _
  | @replay s t u r rs first rest ih =>
    rw [List.length_cons, Nat.add_comm]
    exact first.gaveBack.trans ih

/-- What each replay keeps, and entering a run, the search keeps. -/
theorem Searches.keeps {P : World σ → Prop} (searches : a.Searches s rs t)
    (enter : ∀ w, P w → P w.enter)
    (replay : ∀ s r t, r ∈ rs → a.Replayed s r t → P s.world → P t.world) (start : P s.world) :
    P t.world := by
  induction searches with
  | stop => exact start
  | refused _ => exact enter _ start
  | @replay s t u r rs first rest ih =>
    refine ih (fun s r t mem => replay s r t (List.mem_cons_of_mem _ mem)) ?_
    exact replay s r t List.mem_cons_self first start

end Auditor

/-! ## Which blocks a search asks for

The node keeps a trace of what it is asked. A run asks for indices of its window alone. -/

/-- Every run of blocks that were asked for lies between `low` and `high`. -/
def Trace.Within (low high : Int) (t : Trace) : Prop :=
  ∀ run ∈ t.runs, low ≤ run.1 ∧ run.2 ≤ high

theorem Trace.Within.note {low high index : Int} {t : Trace} (within : t.Within low high)
    (ge : low ≤ index) (le : index ≤ high) (a : Answer (Option Block)) :
    ((t.note index).answered index a).Within low high := by
  show ∀ run ∈ (t.note index).runs, low ≤ run.1 ∧ run.2 ≤ high
  unfold Trace.note
  split
  · exact within
  · split
    · next first last rest runs =>
      have known : ∀ run ∈ (first, last) :: rest, low ≤ run.1 ∧ run.2 ≤ high := runs ▸ within
      obtain ⟨begins, others⟩ := List.forall_mem_cons.mp known
      split
      · exact List.forall_mem_cons.mpr ⟨⟨begins.1, le⟩, others⟩
      · exact List.forall_mem_cons.mpr ⟨⟨ge, le⟩, within⟩
    · exact List.forall_mem_cons.mpr ⟨⟨ge, le⟩, nofun⟩

namespace World

variable {w : World σ}

theorem obey_node (w : World σ) (signal : Signal) : (w.obey signal).node = w.node := by
  cases signal <;> rfl

theorem call_node (w : World σ) (f : σ → Answer α × σ) : (w.call f).2.node = (f w.node).2 := by
  unfold call
  dsimp only
  split
  · exact obey_node _ _
  · rfl

end World

theorem Index.le_of_due {last i : Int} (due : ¬(some last).any (· < i)) : i ≤ last :=
  not_lt.mp fun lt => due (decide_eq_true lt)

namespace Auditor

variable {n : Node σ} {settings : Settings} {low high : Int}

/-- A part of a run that asks for blocks of a range only. -/
theorem Move.within {p : Scope} {s t : Session (σ × Trace)}
    (allowed : ∀ i, p.asks i → low ≤ i ∧ i ≤ high)
    (move : Move ⟨n.traced, settings⟩ p s t) (h : s.world.node.2.Within low high) :
    t.world.node.2.Within low high := by
  cases move with
  | @fetch index asks =>
    show ((s.world.call (n.traced.block index)).2).node.2.Within low high
    rw [World.call_node]
    exact h.note (allowed index asks).1 (allowed index asks).2 _
  | lookup holding at? =>
    show ((s.world.call (n.traced.balance holding at?)).2).node.2.Within low high
    rw [World.call_node]
    exact h
  | giveUp =>
    show (s.world.obey s.world.surrender).node.2.Within low high
    rw [World.obey_node]
    exact h
  | _ => exact h

/-- The replay of a window asks for its blocks only. -/
theorem Replayed.within {s t : Search (σ × Trace)} {r : Replay}
    (replayed : Replayed ⟨n.traced, settings⟩ s r t) (first : low ≤ r.window.first)
    (last : r.window.last ≤ high) (h : s.world.node.2.Within low high) :
    t.world.node.2.Within low high := by
  obtain ⟨u, ran, world, _⟩ := replayed.run
  have kept := runPipeline_keeps (a := ⟨n.traced, settings⟩)
    (p := { Scope.all with asks := fun i => low ≤ i ∧ i ≤ high })
    r.window.first (some r.window.last)
    (P := fun s => s.world.node.2.Within low high) trivial trivial
    (observer_moves _ trivial) trivial trivial
    (fun i j asked next due => ?_) (fun due => ?_) (fun _ _ move => move.within fun _ h => h)
    (fun _ h => h) (s := s.session r.window) h
  · rw [world]
    rwa [ran] at kept
  · obtain ⟨_, rfl⟩ := Index.word?_eq_some_iff.mp next
    exact ⟨by have := asked.1; omega, (Index.le_of_due due).trans last⟩
  · exact ⟨first, (Index.le_of_due due).trans last⟩

end Auditor

/-! ## The whole search

The facts about windows and replays, put together for the search as it is called. -/

theorem SearchWindow.initial_cases {observed genesis : Int} (step : Int)
    (low : Index.least ≤ genesis) (high : observed ≤ Index.greatest) :
    (∃ e, SearchWindow.initial observed step genesis = .error e) ∨
      0 < step ∧ ∃ w, SearchWindow.initial observed step genesis = .ok w ∧ w.last = observed ∧
        w.Regular step genesis := by
  by_cases pos : 0 < step
  · by_cases le : genesis ≤ observed
    · exact .inr ⟨pos, SearchWindow.initial_eq pos low high le⟩
    · left
      unfold SearchWindow.initial SearchWindow.new
      rw [if_neg (by omega), dif_neg (by omega)]
      exact ⟨_, rfl⟩
  · left
    unfold SearchWindow.initial
    rw [if_pos (by omega)]
    exact ⟨_, rfl⟩

namespace Auditor

variable {observed genesis : Int}

/-- The windows of a search: none if the first one would be invalid. -/
def SearchedWindows (observed step genesis : Int) (ws : List SearchWindow) : Prop :=
  match SearchWindow.initial observed step genesis with
  | .ok w => SearchWindow.Sequence step genesis w ws
  | .error _ => ws = []

/-- There are such windows, and all of them lie between genesis and the last block. -/
theorem SearchedWindows.exists (step : Int) (low : Index.least ≤ genesis)
    (high : observed ≤ Index.greatest) :
    ∃ ws, SearchedWindows observed step genesis ws ∧
      ∀ v ∈ ws, genesis ≤ v.first ∧ v.last ≤ observed := by
  unfold SearchedWindows
  rcases SearchWindow.initial_cases step low high with
    ⟨e, invalid⟩ | ⟨pos, w, initial, last, regular⟩
  · rw [invalid]
    exact ⟨[], rfl, nofun⟩
  · rw [initial]
    obtain ⟨ws, sequence, _⟩ := SearchWindow.Sequence.exists pos _ w regular (Nat.lt_succ_self _)
    refine ⟨ws, sequence, fun v mem => ?_⟩
    rw [← last]
    exact sequence.within pos regular v mem

/-- The settings under which a search replays its windows. -/
def strict (a : Auditor σ) (h : Holding) : Auditor σ :=
  { a with settings := a.settings.strict h }

/-- What a search comes to, whatever the node does. A search whose first window is
invalid does nothing. -/
theorem findMissing_searches (a : Auditor σ) (h : Holding) (observed step genesis : Int)
    (s : Search σ) :
    (a.findMissing h observed step genesis).Ends s
      (fun _ t => t.world.cancellation.aborted = false ∧
        ∃ rs, (∀ ws, SearchedWindows observed step genesis ws → rs.map (·.window) <+: ws) ∧
          (a.strict h).Searches s rs t)
      (fun stop t => (Search.Halts stop t ∨
          t = s ∧ ∃ e, SearchWindow.initial observed step genesis = .error e ∧
            stop = .failed (.window e)) ∧
        ∃ rs, (∀ ws, SearchedWindows observed step genesis ws → rs.map (·.window) <+: ws) ∧
          (a.strict h).Searches s rs t) := by
  unfold findMissing SearchedWindows
  cases initial : SearchWindow.initial observed step genesis with
  | error e => exact ⟨.inr ⟨rfl, e, rfl, rfl⟩, [], fun _ _ => List.nil_prefix, .stop⟩
  | ok w =>
    rw [Step.ends_bind, Step.ends_ofExcept_ok]
    have search := (a.strict h).searchFrom_searches step genesis ((observed - genesis).toNat + 1)
      (w := w) (s := s) (by omega)
    exact search.mono (fun _ _ h => h) fun _ _ h => ⟨.inl h.1, h.2⟩

/-- **Every search gives back what it takes**, whatever the node does and however the
search ends. It replays windows of the sequence, the latest first; each replay takes
a slot with an empty store when nobody had aborted, and releases it before the next
one. It asks for no block outside the range. -/
theorem findMissing_releases (n : Node σ) (settings : Settings) (h : Holding)
    {observed step genesis : Int} (low : Index.InRange genesis) (high : Index.InRange observed)
    {s : Search (σ × Trace)} (untraced : s.world.node.2 = {}) :
    ∃ t ws rs, (((⟨n.traced, settings⟩ : Auditor (σ × Trace)).findMissing h observed step
        genesis).eval s).2 = t ∧
      SearchedWindows observed step genesis ws ∧ rs.map (·.window) <+: ws ∧
      (strict ⟨n.traced, settings⟩ h).Searches s rs t ∧
      Scratch.Released s.scratch t.scratch rs.length ∧
      t.world.node.2.Within genesis observed := by
  obtain ⟨ws, windows, within⟩ := SearchedWindows.exists step low.1 high.2
  have ends := findMissing_searches ⟨n.traced, settings⟩ h observed step genesis s
  -- However the search ends, its replays are of the first windows of the fixed order.
  have outcome : ∃ rs, rs.map (·.window) <+: ws ∧
      (strict ⟨n.traced, settings⟩ h).Searches s rs (((⟨n.traced, settings⟩ :
        Auditor (σ × Trace)).findMissing h observed step genesis).eval s).2 := by
    unfold Step.Ends at ends
    rcases eq : ((⟨n.traced, settings⟩ : Auditor (σ × Trace)).findMissing h observed step
      genesis).eval s with ⟨_ | _, t⟩
    all_goals
      rw [eq] at ends
      obtain ⟨_, rs, first, searches⟩ := ends
      exact ⟨rs, first ws windows, searches⟩
  obtain ⟨rs, first, searches⟩ := outcome
  refine ⟨_, ws, rs, rfl, windows, first, searches, searches.released, ?_⟩
  refine searches.keeps (P := fun w => w.node.2.Within genesis observed) (fun _ h => h) ?_ ?_
  · intro s r t mem replayed h
    obtain ⟨first, last⟩ := within _ (first.subset (List.mem_map_of_mem mem))
    exact replayed.within first last h
  · rw [untraced]
    exact nofun

/-- A search of two blocks on a node that aborts while it is asked for the second. -/
theorem findMissing_releases_aborted :
    let n : Node Unit := { Chain.gap.node with
      block := fun i s => ({ (Chain.gap.node.block i s).1 with
        signal := if i = 1 then some .abort else none }, s) }
    let s : Search (Unit × Trace) := { world := { node := ((), {}) } }
    Index.InRange 0 ∧ Index.InRange 1 ∧ s.world.node.2 = {} ∧
      ∃ t ws rs,
        (((⟨n.traced, {}⟩ : Auditor (Unit × Trace)).findMissing .alice 1 1 0).eval s).2 = t ∧
        SearchedWindows 1 1 0 ws ∧ rs.map (·.window) <+: ws ∧
        (strict ⟨n.traced, {}⟩ .alice).Searches s rs t ∧
        Scratch.Released s.scratch t.scratch rs.length ∧
        t.world.node.2.Within 0 1 := by
  intro n s
  exact ⟨by decide, by decide, rfl, findMissing_releases n {} .alice (by decide) (by decide) rfl⟩

end Auditor

end BalanceAudit
