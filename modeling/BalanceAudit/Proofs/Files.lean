import BalanceAudit.Files
import BalanceAudit.Proofs.Table

/-!
# Files that a store leaves

What a store leaves in its directory is what is found there next time, and the
other files are as they were.

- `Files.parts_join`: the parts of a path below another one.
- `Files.disk_setDisk`: a directory that could be opened still can, and has the
  text that was left.
- `Files.read_setDisk`: other files keep their texts.
- `Files.parts_spelling`: the parts of a path can be read off its spelling.
- `Files.Apart`: directories that are in nobody's way; `Files.Apart.disk_setDisk`:
  **a store leaves the place of another one alone**.
-/

namespace BalanceAudit

namespace Files

/-! ## Paths

Files are told apart by the shortest spelling of their paths, and that of the store is
longer than that of any directory above it. -/

theorem parts_join {directory name : String} (some : directory ≠ "") :
    parts (join directory name) = parts directory ++ parts name := by
  unfold parts join
  rw [if_neg some, String.toList_append, String.toList_append]
  show List.filter _ (((directory.toList ++ ['/'] ++ name.toList).splitOn '/').map _) = _
  rw [List.append_assoc, List.singleton_append, List.splitOn_append_cons_self, List.map_append,
    List.filter_append]

/-- The parts of the path of a store's file. -/
theorem parts_storePath (directory : String) :
    parts (storePath directory) = parts directory ++ ["store.json"] := by
  have name : parts "store.json" = ["store.json"] := by decide
  unfold storePath
  by_cases none : directory = ""
  · rw [none]
    decide
  · rw [parts_join none, name]

theorem startsWith_storePath (directory : String) :
    (storePath directory).startsWith "/" = directory.startsWith "/" := by
  rw [Bool.eq_iff_iff, String.startsWith_string_iff, String.startsWith_string_iff]
  unfold storePath join
  by_cases none : directory = ""
  · rw [none, if_pos rfl]
    decide
  · rw [if_neg none, String.toList_append, String.toList_append, List.append_assoc]
    cases chars : directory.toList with
    | nil => exact absurd (String.toList_eq_nil_iff.mp chars) none
    | cons c cs =>
      show ['/'] <+: c :: (cs ++ _) ↔ ['/'] <+: c :: cs
      simp

theorem endsWith_storePath (directory : String) : (storePath directory).endsWith "/" = false := by
  have file : ∃ before, (storePath directory).toList = before ++ "store.json".toList := by
    unfold storePath join
    split
    · exact ⟨[], rfl⟩
    · exact ⟨(directory ++ "/").toList, String.toList_append⟩
  obtain ⟨before, chars⟩ := file
  rw [Bool.eq_false_iff, ne_eq, String.endsWith_eq_endsWith_toSlice,
    String.Slice.endsWith_string_iff, String.copy_toSlice, chars]
  intro slash
  have file := List.suffix_append before "store.json".toList
  have last := List.suffix_of_suffix_length_le slash file (by decide)
  revert last
  decide

/-- The key under which a path of a rooted or an unrooted directory is kept. -/
theorem spelling_storePath (directory : String) :
    spelling (storePath directory) =
      (if directory.startsWith "/" then "/" else "") ++
        "/".intercalate (parts directory ++ ["store.json"]) := by
  unfold spelling
  rw [startsWith_storePath, parts_storePath]

theorem length_intercalate_take (ps : List String) (n : Nat) :
    ("/".intercalate (ps.take n)).length ≤ ("/".intercalate ps).length := by
  by_cases none : ps.take n = []
  · rw [none]
    exact Nat.zero_le _
  · by_cases all : ps.drop n = []
    · rw [List.take_of_length_le (List.drop_eq_nil_iff.mp all)]
    · have parts := String.intercalate_append_of_ne_nil (s := "/") none all
      rw [List.take_append_drop] at parts
      rw [parts, String.length_append, String.length_append]
      omega

theorem length_intercalate_concat (ps : List String) :
    ("/".intercalate ps).length < ("/".intercalate (ps ++ ["store.json"])).length := by
  by_cases none : ps = []
  · rw [none]
    decide
  · rw [String.intercalate_append_of_ne_nil none (List.cons_ne_nil _ _), String.length_append,
      String.length_append]
    have slash : "/".length = 1 := rfl
    omega

/-- The file of a store is none of the directories above it. -/
theorem ne_spelling_storePath (directory : String) (n : Nat) :
    (if directory.startsWith "/" then "/" else "") ++
      "/".intercalate ((parts directory).take n) ≠ spelling (storePath directory) := by
  rw [spelling_storePath]
  intro same
  have lengths := congrArg String.length same
  rw [String.length_append, String.length_append] at lengths
  have := length_intercalate_take (parts directory) n
  have := length_intercalate_concat (parts directory)
  omega

/-! ## Paths and their parts

A path and its spelling have the same parts, so that paths with different parts are
different files. -/

theorem notMem_of_mem_splitOn {sep : Char} {cs p : List Char} (mem : p ∈ cs.splitOn sep) :
    sep ∉ p := by
  induction cs generalizing p with
  | nil =>
    rw [List.splitOn_nil, List.mem_singleton] at mem
    simp [mem]
  | cons c cs ih =>
    rw [List.splitOn_cons_eq_if_modifyHead] at mem
    split at mem
    · rcases List.mem_cons.mp mem with rfl | mem
      · exact List.not_mem_nil
      · exact ih mem
    · next other =>
      cases later : cs.splitOn sep with
      | nil => exact absurd later (List.splitOn_ne_nil _ _)
      | cons first rest =>
        rw [later] at mem ih
        rcases List.mem_cons.mp mem with rfl | mem
        · rintro (_ | ⟨_, here⟩)
          · exact other (beq_self_eq_true _)
          · exact ih List.mem_cons_self here
        · exact ih (List.mem_cons_of_mem _ mem)

/-- A name that can be part of a path. -/
def IsPart (p : String) : Prop := p ≠ "" ∧ p ≠ "." ∧ '/' ∉ p.toList

theorem parts_of_isPart {p : String} (part : IsPart p) : parts p = [p] := by
  obtain ⟨some, dot, slash⟩ := part
  rw [parts, List.splitOn_eq_singleton slash, List.map_singleton, String.ofList_toList,
    List.filter_cons_of_pos (by simp [some, dot]), List.filter_nil]

theorem isPart_of_mem_parts {path p : String} (mem : p ∈ parts path) : IsPart p := by
  obtain ⟨listed, named⟩ := List.mem_filter.mp mem
  obtain ⟨cs, split, rfl⟩ := List.mem_map.mp listed
  have named := of_decide_eq_true named
  refine ⟨named.1, named.2, ?_⟩
  rw [String.toList_ofList]
  exact notMem_of_mem_splitOn split

theorem parts_root (path : String) : parts ("/" ++ path) = parts path := by
  have split := List.splitOn_append_cons_self (a := '/') [] path.toList
  rw [parts, String.toList_append]
  show List.filter _ (List.map _ ([] ++ '/' :: path.toList |>.splitOn '/')) = _
  rw [split]
  rfl

/-- Parts that were put together are found again. -/
theorem parts_intercalate {ps : List String} (clean : ∀ p ∈ ps, IsPart p) :
    parts ("/".intercalate ps) = ps := by
  induction ps with
  | nil => decide
  | cons p ps ih =>
    rw [List.forall_mem_cons] at clean
    cases ps with
    | nil => exact parts_of_isPart clean.1
    | cons q qs =>
      have joined : "/".intercalate (p :: q :: qs) = join p ("/".intercalate (q :: qs)) := by
        rw [join, if_neg clean.1.1, String.intercalate_cons_cons]
      rw [joined, parts_join clean.1.1, parts_of_isPart clean.1, ih clean.2]
      rfl

theorem parts_rooted {ps : List String} (rooted : Prop) [Decidable rooted]
    (clean : ∀ p ∈ ps, IsPart p) :
    parts ((if rooted then "/" else "") ++ "/".intercalate ps) = ps := by
  split
  · rw [parts_root, parts_intercalate clean]
  · rw [String.empty_append, parts_intercalate clean]

theorem parts_spelling (path : String) : parts (spelling path) = parts path :=
  parts_rooted _ fun _ => isPart_of_mem_parts

/-! ## What is left behind

Writing the file of a store changes what is read from that file, and nothing else. -/

variable {f : Files} {directory text : String} {disk d : Disk}

/-- A file that is none of the directories above one and not that itself is no obstacle there. -/
theorem directoryFault?_put_of_ne {other : String} (f : Files) (text : String)
    (differs : ∀ n, (if directory.startsWith "/" then "/" else "") ++
      "/".intercalate ((parts directory).take n) ≠ spelling (storePath other)) :
    (f.put (storePath other) text).directoryFault? directory = f.directoryFault? directory := by
  have same : ∀ n, (f.put (storePath other) text).texts.contains
      ((if directory.startsWith "/" then "/" else "") ++
        "/".intercalate ((parts directory).take n)) =
      f.texts.contains ((if directory.startsWith "/" then "/" else "") ++
        "/".intercalate ((parts directory).take n)) := by
    intro n
    unfold put Table.contains
    rw [Table.find?_insert, if_neg (differs n)]
  have whole := same (parts directory).length
  rw [List.take_length] at whole
  unfold directoryFault?
  simp only [same, whole]

/-- Leaving a file in a directory does not make a file of anything above it. -/
theorem directoryFault?_put (f : Files) (directory text : String) :
    (f.put (storePath directory) text).directoryFault? directory = f.directoryFault? directory :=
  f.directoryFault?_put_of_ne text (ne_spelling_storePath directory)

/-- No file goes. -/
theorem contains_setDisk {path : String} (there : f.texts.contains path = true)
    (directory : String) (d : Disk) : (f.setDisk directory d).texts.contains path = true := by
  unfold setDisk
  split
  · exact (Table.contains_insert _ _ _ _).mpr (.inr there)
  · exact there

theorem writable_disk (placed : f.disk directory = .ok disk) : disk.writable = f.writable := by
  unfold Files.disk at placed
  split at placed
  · cases placed
  · cases placed
    rfl

/-- A directory that could be opened still can, and has the text that was left. -/
theorem disk_setDisk (placed : f.disk directory = .ok disk) (left : d.text? = some text) :
    (f.setDisk directory d).disk directory = .ok ⟨.file text, f.writable⟩ := by
  have fine : f.directoryFault? directory = none := by
    unfold Files.disk at placed
    split at placed
    · cases placed
    · assumption
  have there : (f.put (storePath directory) text).read (storePath directory) = .ok text := by
    unfold read put
    rw [Table.find?_insert_self, endsWith_storePath]
    rfl
  unfold setDisk
  rw [left]
  show (f.put (storePath directory) text).disk directory = _
  unfold Files.disk
  rw [directoryFault?_put, fine, there]
  rfl

/-- A file that was there before the store left its own keeps its text. -/
theorem read_setDisk {path : String} (placed : f.disk directory = .ok ⟨.absent, f.writable⟩)
    (known : f.read path = .ok text) (d : Disk) : (f.setDisk directory d).read path = .ok text := by
  -- A readable file cannot be the store's file: that one was absent when the directory was
  -- opened.
  have other : spelling path ≠ spelling (storePath directory) := by
    intro same
    have absent : f.read (storePath directory) ≠ .ok text := by
      intro there
      unfold Files.disk at placed
      split at placed
      · cases placed
      · rw [there] at placed
        cases placed
    refine absent ?_
    unfold read at known ⊢
    rw [← same, endsWith_storePath]
    split at known
    · split at known
      · cases known
      · cases known
        rfl
    · cases known
  unfold setDisk
  cases d.text? with
  | none => exact known
  | some t =>
    show (f.put (storePath directory) t).read path = _
    unfold read put
    rw [Table.find?_insert, if_neg other]
    exact known

/-! ## Stores of different directories

A store that is written in one directory is neither the file of the other one nor a file in
its way. -/

variable {other : String}

/-- Neither directory is the other one, and the file of the store in `other` is nothing above
`directory`. -/
structure Apart (directory other : String) : Prop where
  parts_ne : parts directory ≠ parts other
  above : ∀ n, (parts directory).take n ≠ parts (storePath other)

theorem Apart.spelling_ne (apart : Apart directory other) :
    spelling (storePath directory) ≠ spelling (storePath other) := by
  intro same
  have parts := congrArg Files.parts same
  rw [parts_spelling, parts_spelling, parts_storePath, parts_storePath] at parts
  exact apart.parts_ne (List.append_cancel_right parts)

theorem Apart.directoryFault?_put (apart : Apart directory other) (f : Files) (text : String) :
    (f.put (storePath other) text).directoryFault? directory = f.directoryFault? directory := by
  refine f.directoryFault?_put_of_ne text fun n same => apart.above n ?_
  have listed := congrArg parts same
  rwa [parts_spelling, parts_rooted _ fun p mem =>
    isPart_of_mem_parts (List.mem_of_mem_take mem)] at listed

/-- What is read at another path stays. -/
theorem read_setDisk_of_ne {path : String} (differs : spelling path ≠ spelling (storePath other))
    (f : Files) (d : Disk) : (f.setDisk other d).read path = f.read path := by
  unfold setDisk
  cases d.text? with
  | none => rfl
  | some text =>
    show (f.put (storePath other) text).read path = _
    unfold read put
    rw [Table.find?_insert, if_neg differs]

/-- **A store leaves the place of another one alone.** -/
theorem Apart.disk_setDisk (apart : Apart directory other) (f : Files) (d : Disk) :
    (f.setDisk other d).disk directory = f.disk directory := by
  have read := read_setDisk_of_ne apart.spelling_ne f d
  unfold Files.disk
  rw [read]
  unfold setDisk
  cases d.text? with
  | none => rfl
  | some text =>
    dsimp only
    rw [apart.directoryFault?_put]
    rfl

/-- It does not matter which of two stores leaves its file first. -/
theorem Apart.setDisk_comm (apart : Apart directory other) (f : Files) (d e : Disk) :
    (f.setDisk other e).setDisk directory d = (f.setDisk directory d).setDisk other e := by
  unfold setDisk
  cases d.text? with
  | none => cases e.text? <;> rfl
  | some text =>
    cases e.text? with
    | none => rfl
    | some text' =>
      have texts : ((f.put (storePath other) text').put (storePath directory) text).texts =
          ((f.put (storePath directory) text).put (storePath other) text').texts := by
        refine Table.ext_find? fun path => ?_
        simp only [put, Table.find?_insert]
        by_cases here : path = spelling (storePath directory)
        · simp [here, apart.spelling_ne]
        · simp [here]
      exact congrArg (fun texts => { f with texts }) texts

end Files

end BalanceAudit
