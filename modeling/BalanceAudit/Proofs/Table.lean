import BalanceAudit.Table
import Mathlib.Order.Compare
import Mathlib.Algebra.Order.Ring.Int
import Mathlib.Data.List.Perm.Subperm
import Mathlib.Data.List.TakeWhile

/-!
# What tables hold

Reading a table is looking for an entry, and a write behind all other keys adds
its entry at the end.

- `Table.find?_eq_some_iff`: reading, as membership of an entry.
- `Table.find?_insert`, `Table.find?_ofList`: what writes show to later reads.
- `Table.entries_insert_of_lt`: a write behind all other keys, and what it does
  to `Table.last?` and `Table.atMost?`.
- `Table.ext_find?`: tables that show the same are equal, whatever was written
  in which order; `Table.ofList_of_perm` for the entries of a table.
-/

namespace BalanceAudit

namespace Table

variable {κ ν : Type} [Ord κ]

@[simp] theorem find?_empty (k : κ) : (∅ : Table κ ν).find? k = none := rfl

/-- Only an empty table has no last entry. -/
theorem last?_eq_none_iff {t : Table κ ν} : t.last? = none ↔ t.entries = [] :=
  List.getLast?_eq_none_iff

/-- No entry lies in front of the first one. -/
theorem eq_first?_or_lt {t : Table κ ν} {e first : κ × ν} (mem : e ∈ t.entries)
    (h : t.first? = some first) : e = first ∨ compare first.1 e.1 = .lt := by
  obtain ⟨rest, split⟩ := List.head?_eq_some_iff.mp h
  rw [split, List.mem_cons] at mem
  rcases mem with rfl | mem
  · exact .inl rfl
  · have increasing := t.increasing
    rw [split, List.pairwise_cons] at increasing
    exact .inr (increasing.1 e mem)

/-- No entry lies behind the last one. -/
theorem eq_last?_or_lt {t : Table κ ν} {e last : κ × ν} (mem : e ∈ t.entries)
    (h : t.last? = some last) : e = last ∨ compare e.1 last.1 = .lt := by
  obtain ⟨init, split⟩ := List.getLast?_eq_some_iff.mp h
  rw [split, List.mem_append, List.mem_singleton] at mem
  rcases mem with mem | rfl
  · have increasing := t.increasing
    rw [split, List.pairwise_append] at increasing
    exact .inr (increasing.2.2 e mem last (List.mem_singleton.mpr rfl))
  · exact .inl rfl

/-! ## Reading as membership

Entries are in order of their keys, so that the one found is the only one. -/

/-- What is found is an entry. -/
theorem mem_of_lookup [Std.LawfulEqOrd κ] {k : κ} {v : ν} {l : List (κ × ν)}
    (h : lookup k l = some v) : (k, v) ∈ l := by
  induction l with
  | nil => cases h
  | cons e rest ih =>
    rw [lookup] at h
    split at h
    · cases h
    · next same =>
      cases Std.LawfulEqOrd.eq_of_compare same
      cases h
      exact List.mem_cons_self
    · exact List.mem_cons_of_mem _ (ih h)

variable [Std.TransOrd κ]

/-- An entry is found, as the entries before it have smaller keys. -/
theorem lookup_of_mem {k : κ} {v : ν} {l : List (κ × ν)}
    (increasing : l.Pairwise (fun a b => compare a.1 b.1 = .lt)) (h : (k, v) ∈ l) :
    lookup k l = some v := by
  induction l with
  | nil => cases h
  | cons e rest ih =>
    obtain ⟨head, tail⟩ := List.pairwise_cons.mp increasing
    rw [lookup]
    rcases List.mem_cons.mp h with rfl | h
    · have self : compare k k = .eq := Std.ReflCmp.compare_self
      rw [self]
    · rw [Std.OrientedCmp.gt_of_lt (head _ h)]
      exact ih tail h

/-- A greater key goes behind all others. -/
theorem place_of_lt {k : κ} {v : ν} {l : List (κ × ν)} (h : ∀ e ∈ l, compare e.1 k = .lt) :
    place k v l = l ++ [(k, v)] := by
  induction l with
  | nil => rfl
  | cons e rest ih =>
    rw [place, Std.OrientedCmp.gt_of_lt (h e List.mem_cons_self)]
    exact congrArg (e :: ·) (ih fun e' mem => h e' (List.mem_cons_of_mem _ mem))

/-- A key behind all others gets its entry at the end. -/
theorem entries_insert_of_lt {t : Table κ ν} {k : κ} (v : ν)
    (h : ∀ e ∈ t.entries, compare e.1 k = .lt) :
    (t.insert k v).entries = t.entries ++ [(k, v)] :=
  place_of_lt h

/-- Then it is the last one. -/
theorem last?_insert_of_lt {t : Table κ ν} {k : κ} (v : ν)
    (h : ∀ e ∈ t.entries, compare e.1 k = .lt) : (t.insert k v).last? = some (k, v) := by
  rw [last?, entries_insert_of_lt v h, List.getLast?_concat]

variable [Std.LawfulEqOrd κ]

/-- A key shows a value iff they are an entry. -/
theorem find?_eq_some_iff {t : Table κ ν} {k : κ} {v : ν} :
    t.find? k = some v ↔ (k, v) ∈ t.entries :=
  ⟨mem_of_lookup, lookup_of_mem t.increasing⟩

theorem contains_iff {t : Table κ ν} {k : κ} : t.contains k = true ↔ ∃ v, (k, v) ∈ t.entries := by
  rw [contains, Option.isSome_iff_exists]
  exact exists_congr fun _ => find?_eq_some_iff

/-- A key is there if it is one of the keys in order. -/
theorem contains_iff_mem_keys {t : Table κ ν} {k : κ} : t.contains k = true ↔ k ∈ t.keys := by
  rw [contains_iff, keys, List.mem_map]
  constructor
  · rintro ⟨v, mem⟩
    exact ⟨(k, v), mem, rfl⟩
  · rintro ⟨⟨_, v⟩, mem, rfl⟩
    exact ⟨v, mem⟩

/-! ## Reading what was written -/

/-- What was put in is found, and everything else as before. -/
theorem find?_insert [DecidableEq κ] (t : Table κ ν) (k k' : κ) (v : ν) :
    (t.insert k v).find? k' = if k' = k then some v else t.find? k' := by
  by_cases h : k' = k
  · rw [if_pos h, h, find?_insert_self]
  · rw [if_neg h]
    exact find?_insert_of_ne (fun same => h (Std.LawfulEqOrd.eq_of_compare same)) v

theorem contains_insert [DecidableEq κ] (t : Table κ ν) (k k' : κ) (v : ν) :
    (t.insert k v).contains k' = true ↔ k' = k ∨ t.contains k' = true := by
  rw [contains, find?_insert]
  split
  · next same => exact ⟨fun _ => .inl same, fun _ => rfl⟩
  · next other => exact ⟨.inr, fun h => h.resolve_left other⟩

/-- A key that is not listed is left alone by what is. -/
theorem find?_foldl_insert_of_notMem {l : List (κ × ν)} {k : κ} :
    ∀ (t : Table κ ν), k ∉ l.map (·.1) →
      (l.foldl (fun t e => t.insert e.1 e.2) t).find? k = t.find? k := by
  induction l with
  | nil => intro t _; rfl
  | cons e rest ih =>
    intro t h
    rw [List.map_cons, List.mem_cons, not_or] at h
    rw [List.foldl_cons, ih _ h.2]
    exact find?_insert_of_ne (fun same => h.1 (Std.LawfulEqOrd.eq_of_compare same)) _

/-- Of a list of entries with different keys every one is shown. -/
theorem find?_foldl_insert_of_mem {l : List (κ × ν)} {k : κ} {v : ν} :
    ∀ (t : Table κ ν), (l.map (·.1)).Nodup → (k, v) ∈ l →
      (l.foldl (fun t e => t.insert e.1 e.2) t).find? k = some v := by
  induction l with
  | nil => intro t _ h; cases h
  | cons e rest ih =>
    intro t distinct h
    rw [List.map_cons, List.nodup_cons] at distinct
    rw [List.foldl_cons]
    rcases List.mem_cons.mp h with rfl | h
    · rw [find?_foldl_insert_of_notMem _ distinct.1, find?_insert_self]
    · exact ih _ distinct.2 h

/-- What a list of entries shows comes from the list. -/
theorem mem_of_find?_ofList {l : List (κ × ν)} {k : κ} {v : ν}
    (h : (ofList l).find? k = some v) : (k, v) ∈ l := by
  have gen : ∀ t : Table κ ν, (l.foldl (fun t e => t.insert e.1 e.2) t).find? k = some v →
      t.find? k = some v ∨ (k, v) ∈ l := by
    clear h
    induction l with
    | nil => intro t h; exact .inl h
    | cons e rest ih =>
      intro t h
      rcases ih _ h with h | h
      · rcases mem_place (find?_eq_some_iff.mp h) with here | h
        · exact .inr (here ▸ List.mem_cons_self)
        · exact .inl (find?_eq_some_iff.mpr h)
      · exact .inr (List.mem_cons_of_mem _ h)
  rcases gen empty h with h | h
  · cases h
  · exact h

/-! ## Tables with the same contents

Entries are ordered by their keys, so a table is known by what it shows. -/

omit [Std.LawfulEqOrd κ] in
theorem nodup_entries (t : Table κ ν) : t.entries.Nodup :=
  t.increasing.imp fun {a b} lt => by
    rintro rfl
    have self : compare a.1 a.1 = .eq := Std.ReflCmp.compare_self
    rw [self] at lt
    cases lt

omit [Std.LawfulEqOrd κ] in
/-- There is one increasing order of entries. -/
theorem ext_perm {a b : Table κ ν} (perm : a.entries.Perm b.entries) : a = b := by
  refine ext (perm.eq_of_pairwise ?_ a.increasing b.increasing)
  intro x y _ _ lt gt
  rw [Std.OrientedCmp.gt_of_lt lt] at gt
  cases gt

/-- Tables that show the same are equal. -/
theorem ext_find? {a b : Table κ ν} (same : ∀ k, a.find? k = b.find? k) : a = b :=
  ext_perm <| (List.perm_ext_iff_of_nodup a.nodup_entries b.nodup_entries).mpr fun e => by
    rw [← find?_eq_some_iff, ← find?_eq_some_iff, same]

omit [Std.TransOrd κ] in
theorem nodup_keys (t : Table κ ν) : (t.entries.map (·.1)).Nodup := by
  rw [List.Nodup, List.pairwise_map]
  refine t.increasing.imp fun {a b} lt same => ?_
  have self : compare a.1 a.1 = .eq := Std.ReflCmp.compare_self
  rw [← same, self] at lt
  cases lt

/-- A table that lacks no key of another one has no fewer entries. -/
theorem length_le_of_contains {t t' : Table κ ν}
    (kept : ∀ k, t.contains k = true → t'.contains k = true) :
    t.entries.length ≤ t'.entries.length := by
  have keys : t.keys ⊆ t'.keys := fun k mem =>
    contains_iff_mem_keys.mp (kept k (contains_iff_mem_keys.mpr mem))
  have short := (List.subperm_of_subset t.nodup_keys keys).length_le
  simpa only [Table.keys, List.length_map] using short

/-- The table of the entries of a table, in any order, is that table. -/
theorem ofList_of_perm {t : Table κ ν} {l : List (κ × ν)} (perm : l.Perm t.entries) :
    ofList l = t := by
  refine ext_find? fun k => ?_
  have distinct : (l.map (·.1)).Nodup := (perm.map _).nodup_iff.mpr t.nodup_keys
  cases found : t.find? k with
  | some v =>
    exact find?_foldl_insert_of_mem _ distinct (perm.mem_iff.mpr (find?_eq_some_iff.mp found))
  | none =>
    cases other : (ofList l).find? k with
    | none => rfl
    | some v =>
      rw [find?_eq_some_iff.mpr (perm.mem_iff.mp (mem_of_find?_ofList other))] at found
      cases found

theorem ofList_entries (t : Table κ ν) : ofList t.entries = t := ofList_of_perm (.refl _)

end Table

/-! ## Tables by integers -/

namespace Table

variable {ν : Type}

/-- Integers are compared as usual. -/
theorem compare_int_lt {a b : Int} : compare a b = .lt ↔ a < b := compare_lt_iff_lt

/-- A write behind all other indices is what later indices show. -/
theorem atMost?_insert_of_lt {t : Table Int ν} {k : Int} (v : ν)
    (h : ∀ e ∈ t.entries, e.1 < k) (i : Int) :
    (t.insert k v).atMost? i = if k ≤ i then some (k, v) else t.atMost? i := by
  -- A key above all others is put at the end of the ordered entries.
  have entries := entries_insert_of_lt v fun e mem => compare_int_lt.mpr (h e mem)
  rw [atMost?, entries]
  by_cases le : k ≤ i
  · have all : ∀ e ∈ t.entries ++ [(k, v)], (compare e.1 i != .gt) = true := by
      intro e mem
      have : e.1 ≤ i := by
        rcases List.mem_append.mp mem with mem | mem
        · exact (h e mem).le.trans le
        · rw [List.mem_singleton.mp mem]
          exact le
      simpa [compare_gt_iff_gt] using this
    rw [if_pos le, List.takeWhile_eq_self_iff.mpr all, List.getLast?_concat]
  · have stop : ¬(compare k i != .gt) = true := by
      simpa [compare_gt_iff_gt] using le
    rw [if_neg le, atMost?, List.takeWhile_append]
    split
    · next all =>
      have none_left : [(k, v)].takeWhile (fun e => compare e.1 i != .gt) = [] :=
        List.takeWhile_cons_of_neg stop
      rw [none_left, List.append_nil, (List.takeWhile_prefix _).eq_of_length all]
    · rfl

end Table

end BalanceAudit
