import BalanceAudit.Window
import Mathlib.Order.MinMax

/-!
# The windows of a search

Within the limits of indices the windows of a search follow each other without
gap, the latest first, until genesis.

- `SearchWindow.Regular`: a window that reaches `step` blocks back, but not behind
  genesis.
- `SearchWindow.initial_eq`, `SearchWindow.preceding?_eq`: the first window, and the
  one before a regular window.
- `SearchWindow.Sequence`: a window and those in front of it, as far as they go.
-/

namespace BalanceAudit

namespace SearchWindow

variable {w : SearchWindow} {step genesis observed : Int}

/-- The window reaches `step` blocks back, but not behind genesis. -/
structure Regular (w : SearchWindow) (step genesis : Int) : Prop where
  reach : w.first = max (w.last - step) genesis
  low : Index.least ≤ genesis
  high : w.last ≤ Index.greatest

namespace Regular

theorem genesis_le (regular : w.Regular step genesis) : genesis ≤ w.first := by
  rw [regular.reach]
  exact le_max_right _ _

/-- The window in front of a regular one. -/
def before (w : SearchWindow) (step genesis : Int) (pos : 0 < step) (later : genesis < w.first) :
    SearchWindow :=
  ⟨max (w.first - step) genesis, w.first, by omega⟩

theorem before_regular (regular : w.Regular step genesis) (pos : 0 < step)
    (later : genesis < w.first) : (before w step genesis pos later).Regular step genesis := by
  refine ⟨rfl, regular.low, ?_⟩
  exact w.first_le_last.trans regular.high

theorem before_first_lt (pos : 0 < step) (later : genesis < w.first) :
    (before w step genesis pos later).first < w.first := by
  show max (w.first - step) genesis < w.first
  omega

end Regular

/-- The first window ends where the failure was seen. -/
theorem initial_eq (pos : 0 < step) (low : Index.least ≤ genesis)
    (high : observed ≤ Index.greatest) (le : genesis ≤ observed) :
    ∃ w, initial observed step genesis = .ok w ∧ w.last = observed ∧ w.Regular step genesis := by
  have back : max (Index.back observed step) genesis = max (observed - step) genesis := by
    unfold Index.back
    omega
  have ordered : max (observed - step) genesis ≤ observed := by omega
  refine ⟨⟨_, observed, ordered⟩, ?_, rfl, rfl, low, high⟩
  unfold initial new
  rw [if_neg (by omega), back, dif_pos ordered]

/-- There is a window in front of a regular one unless that reaches genesis. -/
theorem preceding?_eq (regular : w.Regular step genesis) (pos : 0 < step) :
    w.preceding? step genesis =
      if later : genesis < w.first then some (Regular.before w step genesis pos later)
      else none := by
  have ordered := w.first_le_last
  obtain ⟨reach, low, high⟩ := regular
  have first : max (Index.back w.first step) genesis = max (w.first - step) genesis := by
    unfold Index.back
    omega
  -- Only a window cut off at genesis is shorter than the step, and behind that one there is
  -- none.
  have last : genesis < w.first → Index.back w.last step = w.first := by
    intro later
    unfold Index.back
    omega
  unfold preceding?
  simp only [first]
  by_cases later : genesis < w.first
  · rw [dif_pos later]
    simp only [last later]
    rw [dif_pos (by omega)]
    rfl
  · have nothing : ¬max (w.first - step) genesis < Index.back w.last step := by
      unfold Index.back
      omega
    rw [dif_neg later, dif_neg nothing]

/-! ## The sequence of windows

Each window reaches further back than the last, so that the sequence ends at genesis. -/

variable {ws : List SearchWindow}

/-- A window and those in front of it, back to genesis. -/
inductive Sequence (step genesis : Int) : SearchWindow → List SearchWindow → Prop where
  | last {w : SearchWindow} (first : w.preceding? step genesis = none) : Sequence step genesis w [w]
  | earlier {w w' : SearchWindow} {ws : List SearchWindow}
      (before : w.preceding? step genesis = some w') (rest : Sequence step genesis w' ws) :
      Sequence step genesis w (w :: ws)

/-- The windows end at genesis, after fewer of them than there are blocks. -/
theorem Sequence.exists (pos : 0 < step) :
    ∀ (n : Nat) (w : SearchWindow), w.Regular step genesis → (w.first - genesis).toNat < n →
      ∃ ws, Sequence step genesis w ws ∧ ws.length ≤ n := by
  intro n
  induction n with
  | zero =>
    intro w _ near
    omega
  | succ n ih =>
    intro w regular near
    have before := preceding?_eq regular pos
    split at before
    · next later =>
      have further := Regular.before_first_lt (w := w) pos later
      obtain ⟨ws, rest, short⟩ := ih _ (regular.before_regular pos later)
        (by have := (regular.before_regular pos later).genesis_le; omega)
      exact ⟨w :: ws, .earlier before rest, Nat.succ_le_succ short⟩
    · exact ⟨[w], .last before, Nat.succ_le_succ (Nat.zero_le n)⟩

/-- None of the windows goes behind genesis, or beyond the first one. -/
theorem Sequence.within (pos : 0 < step) (sequence : Sequence step genesis w ws)
    (regular : w.Regular step genesis) :
    ∀ v ∈ ws, genesis ≤ v.first ∧ v.last ≤ w.last := by
  induction sequence with
  | @last w _ =>
    intro v mem
    rw [List.mem_singleton.mp mem]
    exact ⟨regular.genesis_le, Int.le_refl _⟩
  | @earlier w w' ws before _ ih =>
    intro v mem
    rcases List.mem_cons.mp mem with rfl | mem
    · exact ⟨regular.genesis_le, Int.le_refl _⟩
    · rw [preceding?_eq regular pos] at before
      split at before
      · next later =>
        cases before
        obtain ⟨low, high⟩ := ih (regular.before_regular pos later) v mem
        exact ⟨low, high.trans w.first_le_last⟩
      · cases before

end SearchWindow

end BalanceAudit
