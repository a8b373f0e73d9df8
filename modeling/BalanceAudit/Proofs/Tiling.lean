import BalanceAudit.Proofs.Index
import BalanceAudit.Proofs.Window
import Mathlib.Algebra.Order.Floor.Ring
import Mathlib.Data.List.Chain
import Mathlib.Data.Rat.Floor
import Mathlib.Tactic.FieldSimp
import Mathlib.Tactic.Linarith

/-!
# The windows of a search tile history

The windows from a failure back to genesis leave no block out, and neighbours have
one block in common.

- `SearchWindow.indices`, `SearchWindow.needed`: the blocks of a window, and how many
  windows a stretch of history takes.
- `SearchWindow.Tiles`: a list of windows, the latest first, that tiles a stretch.
- `SearchWindow.Tiles.single`, `SearchWindow.Tiles.cons`: one window, and one more
  behind those in front of it.
- `SearchWindow.Sequence.tiles`: the windows back to genesis do, by induction on them.
- `SearchWindow.initial_tiles`: **there are such windows for every failure from genesis
  on and every positive step**, up to the limits of indices, and none otherwise.
-/

namespace BalanceAudit

namespace SearchWindow

variable {w : SearchWindow} {step genesis observed : Int} {ws : List SearchWindow}

/-- The blocks of a window. -/
def indices (w : SearchWindow) : List Int := Index.upTo w.first (w.last + 1)

theorem mem_indices {i : Int} : i ∈ w.indices ↔ w.first ≤ i ∧ i ≤ w.last :=
  Index.mem_upTo.trans (and_congr_right' Int.lt_add_one_iff)

/-- How many windows of `step` take one `span` blocks back: one for each begun `step`,
and one if there is nothing to go back. -/
def needed (span step : Int) : Int := max 1 ⌈(span : ℚ) / step⌉

/-- What is within one step takes one window. -/
theorem needed_of_le {span : Int} (pos : 0 < step) (le : span ≤ step) : needed span step = 1 := by
  have positive : (0 : ℚ) < step := by exact_mod_cast pos
  have short : (span : ℚ) / step ≤ 1 := by
    rw [div_le_one positive]
    exact_mod_cast le
  exact max_eq_left (Int.ceil_le.mpr (by exact_mod_cast short))

/-- What is beyond one step takes one window more than the rest does. -/
theorem needed_of_lt {span : Int} (pos : 0 < step) (lt : step < span) :
    needed span step = needed (span - step) step + 1 := by
  have positive : (0 : ℚ) < step := by exact_mod_cast pos
  have rest : (0 : ℚ) < ((span - step : Int) : ℚ) / step :=
    div_pos (by exact_mod_cast Int.sub_pos.mpr lt) positive
  have split : (span : ℚ) / step = ((span - step : Int) : ℚ) / step + 1 := by
    push_cast
    field_simp
    ring
  have begun : 0 < ⌈((span - step : Int) : ℚ) / step⌉ := Int.ceil_pos.mpr rest
  rw [needed, needed, split, Int.ceil_add_one, max_eq_right (by omega), max_eq_right (by omega)]

/-- The earlier window ends where the later one starts, and that is the only block
they have in common. -/
def Abuts (later earlier : SearchWindow) : Prop :=
  later.first = earlier.last ∧ ∀ i, i ∈ later.indices ∧ i ∈ earlier.indices ↔ i = later.first

/-- The block where two windows meet is in both of them, and no other one is. -/
theorem abuts_of_eq {v : SearchWindow} (meets : w.first = v.last) : Abuts w v := by
  refine ⟨meets, fun i => ?_⟩
  have := w.first_le_last
  have := v.first_le_last
  rw [mem_indices, mem_indices]
  omega

/-- The windows, the latest first, tile history from `genesis` to `observed`. -/
structure Tiles (genesis observed step : Int) (ws : List SearchWindow) : Prop where
  /-- The first window ends at the failure. -/
  ends : ∃ w, ws.head? = some w ∧ w.last = observed
  /-- The last window starts at genesis. -/
  starts : ∃ w, ws.getLast? = some w ∧ w.first = genesis
  covers : ∀ i, genesis ≤ i → i ≤ observed → ∃ w ∈ ws, i ∈ w.indices
  abut : ws.IsChain Abuts
  within : ∀ w ∈ ws, genesis ≤ w.first ∧ w.last ≤ observed
  short : ∀ w ∈ ws, (w.indices.length : Int) ≤ step + 1
  proper : genesis ≠ observed → ∀ w ∈ ws, w.first < w.last
  count : (ws.length : Int) = needed (observed - genesis) step

namespace Tiles

/-- A window that reaches `step` blocks back has one block more than that. -/
theorem length_le (pos : 0 < step) (regular : w.Regular step genesis) :
    (w.indices.length : Int) ≤ step + 1 := by
  have := regular.reach
  rw [indices, Index.length_upTo]
  omega

/-- A window that reaches genesis is enough. -/
theorem single (pos : 0 < step) (regular : w.Regular step genesis) (first : w.first = genesis) :
    Tiles genesis w.last step [w] where
  ends := ⟨w, rfl, rfl⟩
  starts := ⟨w, rfl, first⟩
  covers i low high := ⟨w, List.mem_singleton.mpr rfl, mem_indices.mpr ⟨by omega, high⟩⟩
  abut := List.isChain_singleton w
  within := by simp [first]
  short := by simpa using length_le pos regular
  proper := by
    have := w.first_le_last
    simp
    omega
  count := by
    have := regular.reach
    rw [needed_of_le pos (by omega), List.length_singleton, Nat.cast_one]

/-- A window that does not reach genesis is added behind those that tile what is in
front of it. -/
theorem cons (pos : 0 < step) (regular : w.Regular step genesis) (later : genesis < w.first)
    (tiles : Tiles genesis w.first step ws) : Tiles genesis w.last step (w :: ws) where
  ends := ⟨w, rfl, rfl⟩
  starts := by
    obtain ⟨v, last, first⟩ := tiles.starts
    exact ⟨v, by rw [List.getLast?_cons, last, Option.getD_some], first⟩
  covers i low high := by
    by_cases reached : w.first ≤ i
    · exact ⟨w, List.mem_cons_self, mem_indices.mpr ⟨reached, high⟩⟩
    · obtain ⟨v, mem, inside⟩ := tiles.covers i low (by omega)
      exact ⟨v, List.mem_cons_of_mem _ mem, inside⟩
  abut := by
    obtain ⟨v, head, last⟩ := tiles.ends
    refine List.isChain_cons.mpr ⟨?_, tiles.abut⟩
    intro u first
    obtain rfl : v = u := Option.some.inj (head.symm.trans first)
    exact abuts_of_eq last.symm
  within := by
    refine List.forall_mem_cons.mpr ⟨⟨by omega, le_refl _⟩, fun v mem => ?_⟩
    obtain ⟨low, high⟩ := tiles.within v mem
    exact ⟨low, high.trans w.first_le_last⟩
  short := List.forall_mem_cons.mpr ⟨length_le pos regular, tiles.short⟩
  proper _ := by
    have := regular.reach
    exact List.forall_mem_cons.mpr ⟨by omega, tiles.proper (by omega)⟩
  count := by
    -- The window is cut off nowhere, so that it takes one whole step off.
    have := regular.reach
    rw [needed_of_lt pos (by omega), show w.last - genesis - step = w.first - genesis by omega,
      ← tiles.count, List.length_cons, Nat.cast_succ]

end Tiles

/-- **The windows back to genesis tile what they go back over.** The induction is on
the windows; each of them is regular. -/
theorem Sequence.tiles (pos : 0 < step) (sequence : Sequence step genesis w ws)
    (regular : w.Regular step genesis) : Tiles genesis w.last step ws := by
  induction sequence with
  | @last w first =>
    rw [preceding?_eq regular pos] at first
    split at first
    · cases first
    · next reached =>
      have := regular.genesis_le
      exact .single pos regular (by omega)
  | @earlier w w' ws before _ ih =>
    rw [preceding?_eq regular pos] at before
    split at before
    · next later =>
      cases before
      exact .cons pos regular later (ih (regular.before_regular pos later))
    · cases before

/-- **The windows of a search tile history.** From genesis up to a failure they are a
finite sequence, whatever the limits of indices; for a failure behind genesis, or a step
that is not positive, there is none. -/
theorem initial_tiles (low : Index.InRange genesis) (high : Index.InRange observed) :
    (0 < step → genesis ≤ observed → ∃ w, initial observed step genesis = .ok w ∧
      (∃ ws, Sequence step genesis w ws) ∧
      ∀ ws, Sequence step genesis w ws → Tiles genesis observed step ws) ∧
    (0 < step → observed < genesis →
      initial observed step genesis = .error (.reversed genesis observed)) ∧
    (step ≤ 0 → initial observed step genesis = .error (.step step)) := by
  refine ⟨fun pos le => ?_, fun pos behind => ?_, fun none => ?_⟩
  · obtain ⟨w, begins, rfl, regular⟩ := initial_eq pos low.1 high.2 le
    obtain ⟨ws, sequence, _⟩ := Sequence.exists pos _ w regular (Nat.lt_succ_self _)
    exact ⟨w, begins, ⟨ws, sequence⟩, fun _ sequence => sequence.tiles pos regular⟩
  · have start : max (Index.back observed step) genesis = genesis := by
      have := high.1
      simp only [Index.back, Index.least, Index.greatest] at this ⊢
      omega
    rw [initial, if_neg (by omega), start, new, dif_neg (by omega)]
  · rw [initial, if_pos none]

/-- Over all indices, with the greatest step, these are three windows. -/
theorem initial_tiles_limits :
    Index.InRange Index.least ∧ Index.InRange Index.greatest ∧ 0 < Index.greatest ∧
      Index.least ≤ Index.greatest ∧
      ∃ w, initial Index.greatest Index.greatest Index.least = .ok w ∧
        (∃ ws, Sequence Index.greatest Index.least w ws) ∧
        ∀ ws, Sequence Index.greatest Index.least w ws →
          Tiles Index.least Index.greatest Index.greatest ws ∧ ws.length = 3 := by
  refine ⟨by decide, by decide, by decide, by decide, ?_⟩
  obtain ⟨w, begins, some, all⟩ := (@initial_tiles Index.greatest Index.least Index.greatest
    (by decide) (by decide)).1 (by decide) (by decide)
  refine ⟨w, begins, some, fun ws sequence => ⟨all ws sequence, ?_⟩⟩
  have three : needed (Index.greatest - Index.least) Index.greatest = 3 := by
    rw [needed_of_lt (by decide) (by decide), needed_of_lt (by decide) (by decide),
      needed_of_le (by decide) (by decide)]
    rfl
  have := (all ws sequence).count.trans three
  omega

end SearchWindow

end BalanceAudit
