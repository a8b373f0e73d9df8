/-!
# Tables

A table keeps entries in increasing order of their keys, each key once, so two
tables with the same contents are equal.

- `Table`: the entries, with their order as a field.
- `Table.find?`, `Table.insert`, `Table.last?`: reading, writing (a second
  value under a key replaces the first) and the entry with the greatest key.
- `Table.find?_insert_self`, `Table.find?_insert_of_ne`: what a write shows to
  later reads.
-/

namespace BalanceAudit

/-- Entries in increasing order of their keys. -/
structure Table (κ ν : Type) [Ord κ] where
  entries : List (κ × ν)
  increasing : entries.Pairwise (fun a b => compare a.1 b.1 = .lt)

namespace Table

variable {κ ν : Type} [Ord κ]

/-- The table without entries. -/
def empty : Table κ ν := ⟨[], .nil⟩

instance : EmptyCollection (Table κ ν) := ⟨empty⟩

instance : Inhabited (Table κ ν) := ⟨empty⟩

instance [DecidableEq κ] [DecidableEq ν] : DecidableEq (Table κ ν) := fun a b =>
  decidable_of_iff (a.entries = b.entries)
    ⟨fun h => by cases a; cases b; cases h; rfl, fun h => h ▸ rfl⟩

/-- Tables with the same entries are equal. -/
theorem ext {a b : Table κ ν} (h : a.entries = b.entries) : a = b := by
  cases a; cases b; cases h; rfl

/-! ## Reading -/

/-- The value under `k` in an ordered list of entries. -/
def lookup (k : κ) : List (κ × ν) → Option ν
  | [] => none
  | e :: rest =>
    match compare k e.1 with
    | .lt => none
    | .eq => some e.2
    | .gt => lookup k rest

/-- The value under `k`, if there is one. -/
def find? (t : Table κ ν) (k : κ) : Option ν := lookup k t.entries

/-- Whether there is a value under `k`. -/
def contains (t : Table κ ν) (k : κ) : Bool := (t.find? k).isSome

/-- The keys, in increasing order. -/
def keys (t : Table κ ν) : List κ := t.entries.map (·.1)

/-- The values, in increasing order of their keys. -/
def values (t : Table κ ν) : List ν := t.entries.map (·.2)

/-- The entry with the least key. -/
def first? (t : Table κ ν) : Option (κ × ν) := t.entries.head?

/-- The entry with the greatest key. -/
def last? (t : Table κ ν) : Option (κ × ν) := t.entries.getLast?

/-- The entry with the greatest key not above `k`. -/
def atMost? (t : Table κ ν) (k : κ) : Option (κ × ν) :=
  (t.entries.takeWhile (fun e => compare e.1 k != .gt)).getLast?

/-! ## Writing -/

/-- The entries with `v` put under `k`, at its place in the order. -/
def place (k : κ) (v : ν) : List (κ × ν) → List (κ × ν)
  | [] => [(k, v)]
  | e :: rest =>
    match compare k e.1 with
    | .lt => (k, v) :: e :: rest
    | .eq => (k, v) :: rest
    | .gt => e :: place k v rest

theorem mem_place {k : κ} {v : ν} {a : κ × ν} {l : List (κ × ν)}
    (h : a ∈ place k v l) : a = (k, v) ∨ a ∈ l := by
  induction l with
  | nil => simpa [place] using h
  | cons e rest ih =>
    rw [place] at h
    split at h
    · simpa using h
    · rcases List.mem_cons.1 h with h | h
      · exact .inl h
      · exact .inr (List.mem_cons_of_mem _ h)
    · rcases List.mem_cons.1 h with h | h
      · exact .inr (h ▸ List.mem_cons_self)
      · exact (ih h).imp_right (List.mem_cons_of_mem _)

variable [Std.TransOrd κ]

theorem place_increasing {k : κ} {v : ν} {l : List (κ × ν)}
    (h : l.Pairwise (fun a b => compare a.1 b.1 = .lt)) :
    (place k v l).Pairwise (fun a b => compare a.1 b.1 = .lt) := by
  induction l with
  | nil => simp [place]
  | cons e rest ih =>
    have ⟨head, tail⟩ := List.pairwise_cons.1 h
    rw [place]
    split
    · next below =>
      refine List.pairwise_cons.2 ⟨fun a ha => ?_, h⟩
      rcases List.mem_cons.1 ha with rfl | ha
      · exact below
      · exact Std.TransCmp.lt_trans below (head a ha)
    · next same =>
      exact List.pairwise_cons.2
        ⟨fun a ha => Std.TransCmp.lt_of_eq_of_lt same (head a ha), tail⟩
    · next above =>
      refine List.pairwise_cons.2 ⟨fun a ha => ?_, ih tail⟩
      rcases mem_place ha with rfl | ha
      · exact Std.OrientedCmp.lt_of_gt above
      · exact head a ha

/-- The table with `v` under `k`, in the place of an earlier value. -/
def insert (t : Table κ ν) (k : κ) (v : ν) : Table κ ν :=
  ⟨place k v t.entries, place_increasing t.increasing⟩

/-- The table of a list of entries; the last value under a key stays. -/
def ofList (l : List (κ × ν)) : Table κ ν :=
  l.foldl (fun t e => t.insert e.1 e.2) empty

/-! ## Reading what was written -/

theorem lookup_place_self (k : κ) (v : ν) (l : List (κ × ν)) :
    lookup k (place k v l) = some v := by
  induction l with
  | nil => simp [place, lookup, Std.ReflCmp.compare_self]
  | cons e rest ih =>
    rw [place]
    split
    · simp [lookup, Std.ReflCmp.compare_self]
    · simp [lookup, Std.ReflCmp.compare_self]
    · next above => simp [lookup, above, ih]

/-- A key shows the value last written under it. -/
theorem find?_insert_self (t : Table κ ν) (k : κ) (v : ν) :
    (t.insert k v).find? k = some v :=
  lookup_place_self k v t.entries

theorem lookup_place_of_ne {k k' : κ} (hne : compare k' k ≠ .eq) (v : ν) (l : List (κ × ν)) :
    lookup k' (place k v l) = lookup k' l := by
  induction l with
  | nil =>
    rw [place, lookup, lookup]
    split
    · rfl
    · contradiction
    · rfl
  | cons e rest ih =>
    rw [place]
    split
    · next below =>
      rw [lookup]
      split
      · next h => rw [lookup, Std.TransCmp.lt_trans h below]
      · contradiction
      · rfl
    · next same =>
      rw [lookup, lookup, Std.TransCmp.congr_right same]
      split
      · rfl
      · next h => exact absurd (Std.TransCmp.eq_trans h (Std.OrientedCmp.eq_symm same)) hne
      · rfl
    · rw [lookup, lookup]
      split
      · rfl
      · rfl
      · exact ih

/-- A write under one key leaves every other key as it was. -/
theorem find?_insert_of_ne {t : Table κ ν} {k k' : κ} (hne : compare k' k ≠ .eq) (v : ν) :
    (t.insert k v).find? k' = t.find? k' :=
  lookup_place_of_ne hne v t.entries

end Table

end BalanceAudit
