import BalanceAudit.Proofs.Sweep.Interesting

/-!
# Who waited longest

A claim looks at the holdings that are due only. Still it takes the one that was checked
first among all that nobody has claimed: those that are not due were checked later than the
ones that are.

- `Tracked.NoLater`: the order in which holdings were last checked, never at first.
- `Tracked.checked_of_not_due`: what is not due was checked not long ago.
- `Tracker.claim?_noLater`: **a claim takes the one that waited longest of all**.
- `Tracker.Keeps`: no check is forgotten; `Tracker.keeps_track`, `Tracker.keeps_finish`,
  `Tracker.keeps_claim`: so it is whatever is done to the tracked holdings.
-/

namespace BalanceAudit

namespace Tracked

variable {x y z : Tracked} {head frequency i : Int}

/-! ## The order of the last checks

Never checked comes first, then the earlier check. -/

/-- `x` was never checked, or `y` was checked at the same index or a later one. -/
def NoLater (x y : Tracked) : Prop :=
  ∀ i, x.lastChecked = some i → ∃ j, y.lastChecked = some j ∧ i ≤ j

theorem NoLater.refl (x : Tracked) : x.NoLater x := fun i checked => ⟨i, checked, le_refl i⟩

theorem NoLater.trans (first : x.NoLater y) (second : y.NoLater z) : x.NoLater z := by
  intro i checked
  obtain ⟨j, checked', le⟩ := first i checked
  obtain ⟨k, checked'', le'⟩ := second j checked'
  exact ⟨k, checked'', le.trans le'⟩

theorem noLater_of_waitedLonger (longer : x.waitedLonger y = true) : x.NoLater y := by
  unfold waitedLonger at longer
  intro i checked
  rw [checked] at longer
  cases checked' : y.lastChecked with
  | none => simp [checked'] at longer
  | some j =>
    simp only [checked', decide_eq_true_eq] at longer
    exact ⟨j, rfl, le_of_lt longer⟩

theorem noLater_of_not_waitedLonger (longer : ¬x.waitedLonger y = true) : y.NoLater x := by
  unfold waitedLonger at longer
  intro j checked
  rw [checked] at longer
  cases checked' : x.lastChecked with
  | none => simp [checked'] at longer
  | some i =>
    simp only [checked', decide_eq_true_eq, not_lt] at longer
    exact ⟨i, rfl, longer⟩

/-- A check is noted at its index, or at that of a later one. -/
theorem lastChecked_finish (x : Tracked) (i : Int) (status : CheckStatus) :
    ∃ last, (x.finish i status).lastChecked = some last ∧ i ≤ last := by
  refine ⟨_, rfl, ?_⟩
  split
  · exact le_max_right _ _
  · exact le_refl i

theorem noLater_finish (x : Tracked) (i : Int) (status : CheckStatus) :
    x.NoLater (x.finish i status) := by
  intro j checked
  refine ⟨max j i, ?_, le_max_left j i⟩
  rw [finish, checked]

/-! ## What the distance tells

A holding that is not due was checked less than the frequency ago, and one that is due was
not. -/

/-- One that nobody has claimed and that is not due was checked before, less than the
frequency ago. -/
theorem checked_of_not_due (told : x.Told head) (free : x.status ≠ .checking)
    (early : x.isDue? head frequency ≠ some true) :
    ∃ last, x.lastChecked = some last ∧ head - last < max frequency 1 := by
  rw [Ne, isDue?_eq_true_iff] at early
  obtain ⟨last, checked, recent⟩ :
      ∃ last, x.lastChecked = some last ∧ ¬max frequency 1 ≤ head - last := by
    simpa only [told, free, true_and, not_forall, exists_prop, ne_eq, not_false_eq_true] using early
  exact ⟨last, checked, not_le.mp recent⟩

/-- Of two that nobody has claimed, one that is due was checked before one that is not. -/
theorem noLater_of_due (due : x.isDue? head frequency = some true) (told : y.Told head)
    (free : y.status ≠ .checking) (early : y.isDue? head frequency ≠ some true) :
    x.NoLater y := by
  intro i checked
  obtain ⟨j, checked', recent⟩ := checked_of_not_due told free early
  have long := (isDue?_eq_true_iff.mp due).2.2 i checked
  exact ⟨j, checked', by omega⟩

end Tracked

namespace Tracker

variable {t t' t'' : Tracker} {head frequency : Int} {h h' : Holding} {x y : Tracked}

/-! ## Who is claimed

The fold that finds the claim compares distances, and by the two facts above also those that
are not due. -/

/-- The fold over the entries comes to one that none of them precedes. The induction is on
the entries, with any best one to start from. -/
theorem foldl_longer_noLater (es : List (Holding × Tracked)) : ∀ b, ∃ e,
    es.foldl longer (some b) = some e ∧ e.2.NoLater b.2 ∧ ∀ x ∈ es, e.2.NoLater x.2 := by
  induction es with
  | nil => exact fun b => ⟨b, rfl, .refl b.2, nofun⟩
  | cons x es ih =>
    intro b
    rw [List.foldl_cons, longer]
    by_cases longer : x.2.waitedLonger b.2 = true
    · rw [if_pos longer]
      obtain ⟨e, found, first, others⟩ := ih x
      exact ⟨e, found, first.trans (Tracked.noLater_of_waitedLonger longer),
        List.forall_mem_cons.mpr ⟨first, others⟩⟩
    · rw [if_neg longer]
      obtain ⟨e, found, first, others⟩ := ih b
      exact ⟨e, found, first, List.forall_mem_cons.mpr
        ⟨first.trans (Tracked.noLater_of_not_waitedLonger longer), others⟩⟩

/-- None of the holdings that are due was checked before the one that is claimed. -/
theorem claim?_longest (claims : t.claim? head frequency = some (some (h, t'))) :
    t.Told head ∧ ∃ x, t.find? h = some x ∧ x.isDue? head frequency = some true ∧
      t' = t.insert h { x with status := .checking } ∧
      ∀ h' y, t.find? h' = some y → y.isDue? head frequency = some true → x.NoLater y := by
  have told : t.Told head := by
    by_contra far
    rw [claim?_eq_none_iff.mpr far] at claims
    cases claims
  refine ⟨told, ?_⟩
  rw [claim?_of_told told, Option.some.injEq, Option.map_eq_some_iff] at claims
  obtain ⟨⟨h', x⟩, longest, same⟩ := claims
  cases same
  -- The fold starts at the first due entry, so what it keeps is no later than any of them.
  cases entries : t.entries.filter (·.2.isDue? head frequency = some true) with
  | nil =>
    rw [entries] at longest
    cases longest
  | cons b es =>
    rw [entries, List.foldl_cons, longer] at longest
    obtain ⟨e, mem, found⟩ := foldl_longer es b
    obtain ⟨e', found', first, others⟩ := foldl_longer_noLater es b
    cases found.symm.trans longest
    cases found'.symm.trans longest
    rw [← entries, List.mem_filter, decide_eq_true_eq] at mem
    refine ⟨x, Table.find?_eq_some_iff.mpr mem.1, mem.2, rfl, fun k y held due => ?_⟩
    have here : (k, y) ∈ b :: es := by
      rw [← entries, List.mem_filter, decide_eq_true_eq]
      exact ⟨Table.find?_eq_some_iff.mp held, due⟩
    rcases List.mem_cons.mp here with rfl | here
    · exact first
    · exact others _ here

/-- **None of the holdings that nobody has claimed** was checked before the one that is
claimed, whether it is due or not. -/
theorem claim?_noLater (claims : t.claim? head frequency = some (some (h, t')))
    (held : t.find? h = some x) (held' : t.find? h' = some y) (free : y.status ≠ .checking) :
    x.NoLater y := by
  obtain ⟨told, x', found, due, -, longest⟩ := claim?_longest claims
  cases held.symm.trans found
  by_cases due' : y.isDue? head frequency = some true
  · exact longest h' y held' due'
  · exact Tracked.noLater_of_due due (told h' y held') free due'

/-! ## No check is forgotten

Whatever is done to a tracked holding, its last check does not become an earlier one. -/

/-- Whatever was tracked is tracked still, and was checked no earlier. -/
def Keeps (t t' : Tracker) : Prop :=
  ∀ h x, t.find? h = some x → ∃ y, t'.find? h = some y ∧ x.NoLater y

theorem Keeps.refl (t : Tracker) : t.Keeps t := fun _ x held => ⟨x, held, .refl x⟩

theorem Keeps.trans (first : t.Keeps t') (second : t'.Keeps t'') : t.Keeps t'' := by
  intro h x held
  obtain ⟨y, held', le⟩ := first h x held
  obtain ⟨z, held'', le'⟩ := second h y held'
  exact ⟨z, held'', le.trans le'⟩

theorem keeps_track (t : Tracker) (hs : List Holding) : t.Keeps (t.track hs) := by
  intro h x held
  refine ⟨x, ?_, .refl x⟩
  rw [find?_track, held, Option.some_or]

theorem keeps_finish (t : Tracker) (h : Holding) (i : Int) (status : CheckStatus) :
    t.Keeps (t.finish h i status) := by
  intro h' x held
  rw [find?_finish]
  by_cases same : h' = h
  · rw [if_pos same, ← same, held]
    exact ⟨_, rfl, x.noLater_finish i status⟩
  · rw [if_neg same]
    exact ⟨x, held, .refl x⟩

theorem keeps_claim (claims : t.claim? head frequency = some (some (h, t'))) : t.Keeps t' := by
  obtain ⟨-, x, found, -, rfl, -⟩ := claim?_longest claims
  intro h' y held
  rw [Table.find?_insert]
  by_cases same : h' = h
  · subst same
    cases held.symm.trans found
    exact ⟨_, if_pos rfl, .refl _⟩
  · rw [if_neg same]
    exact ⟨y, held, .refl y⟩

end Tracker

end BalanceAudit
