import BalanceAudit.Proofs.Chain.TwoBlocks
import BalanceAudit.Proofs.Ledger.Tally
import Mathlib.Data.List.Dedup

/-!
# Manifests

A manifest lists balances at genesis, and may list a holding more than once. An open store
without blocks takes it over as a whole; any other store, and any manifest that cannot be
read, changes nothing.

- `Ledger.newcomers`: the listed holdings without a record.
- `Ledger.Seeds`: one ledger is another one and a whole manifest, of which the last entry of
  a holding counts; `Ledger.seeds_seed`: that is what `Ledger.seed` does.
- `Ledger.seed_seed`: doing it again changes nothing.
- `Store.Bootstraps`, `Store.RefusesManifests`: what taking a manifest over comes to, and
  when it is refused.
- `Store.bootstrap_last_wins`: **the last entry wins, once and for all**.
- `Store.bootstrap_scratch_full`: a scratch store is not written, and a counter at the
  greatest count stays there.
-/

namespace BalanceAudit

namespace Ledger

variable {l : Ledger} {seeds : List Seed} {genesis : BlockId} {h : Holding}

/-- The listed holdings that have no record, each once. -/
def newcomers (l : Ledger) (seeds : List Seed) : List Holding :=
  (seeds.map (·.holding)).dedup.filter fun h => !l.balances.contains h

/-- The ledger `l'` is `l` and a whole manifest. The counter stays at the greatest count. -/
structure Seeds (l : Ledger) (seeds : List Seed) (genesis : BlockId) (l' : Ledger) : Prop where
  /-- A listed holding has the value of its last entry. -/
  listed : ∀ before s after, seeds = before ++ s :: after →
    (∀ s' ∈ after, s'.holding ≠ s.holding) →
    l'.balances.find? s.holding = some ⟨s.value, genesis⟩
  others : ∀ h, h ∉ seeds.map (·.holding) → l'.balances.find? h = l.balances.find? h
  blocks : l'.blocks = l.blocks
  seen : (l'.counted Counter.seenAccounts.name).value =
    min ((l.counted Counter.seenAccounts.name).value + (l.newcomers seeds).length) Count.greatest
  counters : ∀ name, name ≠ Counter.seenAccounts.name →
    l'.counters.find? name = l.counters.find? name

/-! ## Balances

A later entry for a holding replaces an earlier one, so the table shows the last entry. -/

theorem balances_foldl_enlist (seeds : List Seed) (genesis : BlockId) : ∀ p : Ledger × Nat,
    (seeds.foldl (enlist genesis) p).1.balances =
      (seeds.map fun s => (s.holding, Balance.mk s.value genesis)).foldl
        (fun t e => t.insert e.1 e.2) p.1.balances := by
  induction seeds with
  | nil => exact fun p => rfl
  | cons s seeds ih => exact fun p => ih (enlist genesis p s)

/-- A holding shows its last entry, or its record if it is not listed. -/
theorem find?_balances_seed (l : Ledger) (seeds : List Seed) (genesis : BlockId) (h : Holding) :
    (l.seed seeds genesis).balances.find? h =
      ((seeds.filter (·.holding = h)).getLast?.map fun s => ⟨s.value, genesis⟩).or
        (l.balances.find? h) := by
  rw [seed_eq, balances_increment, balances_foldl_enlist, Table.find?_foldl_insert,
    List.filter_map, List.getLast?_map, Option.map_map]
  rfl

theorem contains_balances_seed (l : Ledger) (seeds : List Seed) (genesis : BlockId)
    (h : Holding) :
    (l.seed seeds genesis).balances.contains h = true ↔
      h ∈ seeds.map (·.holding) ∨ l.balances.contains h = true := by
  rw [Table.contains, find?_balances_seed, Option.isSome_or, Bool.or_eq_true, Option.isSome_map,
    List.getLast?_isSome, Table.contains]
  refine or_congr_left ?_
  rw [ne_eq, List.filter_eq_nil_iff, List.mem_map]
  simp

/-! ## Counters

Each holding that was not there is counted once, however often the manifest repeats it. -/

theorem counters_foldl_enlist (seeds : List Seed) (genesis : BlockId) : ∀ p : Ledger × Nat,
    (seeds.foldl (enlist genesis) p).1.counters = p.1.counters := by
  induction seeds with
  | nil => exact fun p => rfl
  | cons s seeds ih => exact fun p => ih (enlist genesis p s)

/-- Records are added for the newcomers: the holdings of the new table are those of the old
one and them. -/
theorem holdings_seed_perm (l : Ledger) (seeds : List Seed) (genesis : BlockId) :
    (l.seed seeds genesis).holdings.Perm (l.holdings ++ l.newcomers seeds) := by
  have apart : (l.holdings ++ l.newcomers seeds).Nodup := by
    refine List.nodup_append'.mpr ⟨l.balances.nodup_keys, (List.nodup_dedup _).filter _, ?_⟩
    intro h held new
    have unknown := (List.mem_filter.mp new).2
    rw [Table.contains_iff_mem_keys.mpr held] at unknown
    cases unknown
  refine (List.perm_ext_iff_of_nodup (Table.nodup_keys _) apart).mpr fun h => ?_
  rw [List.mem_append, newcomers, List.mem_filter, List.mem_dedup, holdings,
    ← Table.contains_iff_mem_keys (t := l.balances)]
  refine (Table.contains_iff_mem_keys.symm.trans
    (l.contains_balances_seed seeds genesis h)).trans ?_
  cases l.balances.contains h <;> simp

/-- As many records as are added are counted. -/
theorem foldl_enlist_snd (l : Ledger) (seeds : List Seed) (genesis : BlockId) :
    (seeds.foldl (enlist genesis) (l, 0)).2 = (l.newcomers seeds).length := by
  have added := length_foldl_enlist seeds genesis (l, 0)
  have length := (l.holdings_seed_perm seeds genesis).length_eq
  rw [List.length_append, holdings, holdings, Table.keys, Table.keys, List.length_map,
    List.length_map, seed_eq, balances_increment] at length
  dsimp only at added
  omega

theorem counted_seed (l : Ledger) (seeds : List Seed) (genesis : BlockId) (name : String) :
    (l.seed seeds genesis).counted name =
      if name = Counter.seenAccounts.name then
        l.counted Counter.seenAccounts.name + .ofNat (l.newcomers seeds).length
      else l.counted name := by
  rw [seed_eq, counted_increment, counted_foldl_enlist, counted_foldl_enlist, foldl_enlist_snd]

/-- Only one counter is raised. -/
theorem find?_counters_seed (l : Ledger) (seeds : List Seed) (genesis : BlockId) (name : String) :
    (l.seed seeds genesis).counters.find? name =
      if name = Counter.seenAccounts.name then
        some (l.counted Counter.seenAccounts.name + .ofNat (l.newcomers seeds).length)
      else l.counters.find? name := by
  rw [seed_eq, increment, Table.find?_insert, counters_foldl_enlist, counted_foldl_enlist,
    foldl_enlist_snd]

end Ledger

/-- Adding a number is adding it up to the greatest count. -/
theorem Count.value_add_ofNat (c : Count) (n : Nat) :
    (c + .ofNat n).value = min (c.value + n) Count.greatest := by
  rw [Count.value_add]
  show min (c.value + min n _) _ = _
  omega

@[simp] theorem Count.add_ofNat_zero (c : Count) : c + .ofNat 0 = c := by
  refine Count.ext ?_
  have := c.value_lt
  rw [Count.value_add_ofNat, Count.greatest]
  omega

namespace Ledger

variable {l : Ledger} {seeds : List Seed} {genesis : BlockId}

/-! ## Whole manifests

Seeding twice is seeding once. The balances are replaced by themselves, and the second time
nobody is new. -/

/-- **A manifest is taken over as a whole.** -/
theorem seeds_seed (l : Ledger) (seeds : List Seed) (genesis : BlockId) :
    l.Seeds seeds genesis (l.seed seeds genesis) where
  listed before s after split last := by
    have behind : after.filter (·.holding = s.holding) = [] := by
      rw [List.filter_eq_nil_iff]
      simpa using last
    rw [find?_balances_seed, split, List.filter_append, List.filter_cons_of_pos (by simp), behind,
      List.getLast?_concat]
    rfl
  others h unlisted := by
    have none_ : seeds.filter (·.holding = h) = [] := by
      rw [List.filter_eq_nil_iff]
      intro s mem same
      exact unlisted (List.mem_map.mpr ⟨s, mem, of_decide_eq_true same⟩)
    rw [find?_balances_seed, none_]
    rfl
  blocks := blocks_seed l seeds genesis
  seen := by rw [counted_seed, if_pos rfl, Count.value_add_ofNat]
  counters name other := by rw [find?_counters_seed, if_neg other]

/-- Nobody is new the second time. -/
theorem newcomers_seed (l : Ledger) (seeds : List Seed) (genesis : BlockId) :
    (l.seed seeds genesis).newcomers seeds = [] := by
  rw [newcomers, List.filter_eq_nil_iff]
  intro h listed new
  have known := (l.contains_balances_seed seeds genesis h).mpr (.inl (List.mem_dedup.mp listed))
  rw [known] at new
  cases new

/-- **A manifest that was taken over changes nothing any more.** -/
theorem seed_seed (l : Ledger) (seeds : List Seed) (genesis : BlockId) :
    (l.seed seeds genesis).seed seeds genesis = l.seed seeds genesis := by
  refine Same.eq ⟨fun i => ?_, fun h => ?_, fun name => ?_⟩
  · rw [blocks_seed]
  · rw [find?_balances_seed, find?_balances_seed, ← Option.or_assoc, Option.or_self]
  · rw [find?_counters_seed, newcomers_seed, List.length_nil, Count.add_ofNat_zero, counted_seed,
      find?_counters_seed]
    split
    · rfl
    · rfl

end Ledger

/-! ## Stores

A manifest that is read and meets an unstarted store is seeded and flushed; any other one is
refused, and nothing changes. -/

namespace Store

variable {s : Store} {manifest : Except FileFault String} {seeds : List Seed} {genesis : BlockId}

/-- What taking over a manifest comes to. -/
structure Bootstraps (s : Store) (manifest : Except FileFault String) (seeds : List Seed)
    (genesis : BlockId) : Prop where
  result : (s.bootstrap manifest genesis).1 = .ok seeds.length
  ledger : s.ledger.Seeds seeds genesis (s.bootstrap manifest genesis).2.ledger
  /-- A scratch store is not written. -/
  disk : (s.bootstrap manifest genesis).2.disk =
    if s.persistent = true then ⟨.file (s.bootstrap manifest genesis).2.ledger.toJson.pretty, true⟩
    else s.disk
  reopens : s.persistent = true →
    (s.bootstrap manifest genesis).2.disk.Opens (s.bootstrap manifest genesis).2.ledger
  /-- The same manifest once more leaves the whole store alone, with its file. -/
  again : (s.bootstrap manifest genesis).2.bootstrap manifest genesis =
    (.ok seeds.length, (s.bootstrap manifest genesis).2)

/-- When a manifest is refused; the store stays as it is. -/
structure RefusesManifests (s : Store) (genesis : BlockId) : Prop where
  unreadable : ∀ fault, s.bootstrap (.error fault) genesis = (.error (.io fault), s)
  malformed : ∀ text, Json.parse? text >>= Json.toList? Seed.ofJson? = none →
    s.bootstrap (.ok text) genesis = (.error .malformed, s)
  /-- There is a head. The manifest is read first, and then the store has to be open. -/
  started : ∀ manifest head, s.ledger.head? = some head →
    s.bootstrap manifest genesis =
      (.error (match readManifest manifest with
        | .error e => e
        | .ok _ => if s.closed then .closed else .alreadySyncing head), s)

theorem refusesManifests (s : Store) (genesis : BlockId) : s.RefusesManifests genesis where
  unreadable _ := rfl
  malformed text broken := by
    have unread : readManifest (.ok text) = .error .malformed := by rw [readManifest, broken]
    rw [bootstrap, unread]
  started manifest head found := by
    rw [bootstrap]
    cases readManifest manifest with
    | error e => rfl
    | ok seeds =>
      have refused : (s.read >>= unstarted) =
          .error (if s.closed then .closed else .alreadySyncing head) := by
        rw [Store.read]
        cases s.closed
        · show unstarted s.ledger = _
          rw [unstarted, found]
          rfl
        · rfl
      rw [refused]

/-- The store that a manifest was taken over by, and written, if it is one to be written. -/
def seeded (s : Store) (seeds : List Seed) (genesis : BlockId) : Store :=
  let l := s.ledger.seed seeds genesis
  if s.persistent then { s with ledger := l, disk := ⟨.file l.toJson.pretty, true⟩, unflushed := 0 }
  else { s with ledger := l }

@[simp] theorem seeded_ledger (s : Store) (seeds : List Seed) (genesis : BlockId) :
    (s.seeded seeds genesis).ledger = s.ledger.seed seeds genesis := by
  rw [seeded]; split <;> rfl

@[simp] theorem seeded_closed (s : Store) (seeds : List Seed) (genesis : BlockId) :
    (s.seeded seeds genesis).closed = s.closed := by
  rw [seeded]; split <;> rfl

theorem seeded_disk (s : Store) (seeds : List Seed) (genesis : BlockId) :
    (s.seeded seeds genesis).disk =
      if s.persistent = true then ⟨.file (s.ledger.seed seeds genesis).toJson.pretty, true⟩
      else s.disk := by
  rw [seeded]; split <;> rfl

/-- A store that is written was written, and can be written again. -/
theorem works_seeded (s : Store) (seeds : List Seed) (genesis : BlockId) :
    (s.seeded seeds genesis).persistent = true → (s.seeded seeds genesis).disk.Works := by
  rw [seeded]
  split
  · exact fun _ => ⟨rfl, nofun⟩
  · next scratch => exact fun written => absurd written scratch

theorem seeded_seeded (s : Store) (seeds : List Seed) (genesis : BlockId) :
    (s.seeded seeds genesis).seeded seeds genesis = s.seeded seeds genesis := by
  cases persistent : s.persistent <;> simp [seeded, persistent, Ledger.seed_seed]

/-- An open store without a head takes over the manifest and writes its file. -/
theorem bootstrap_eq_flush (genesis : BlockId) (reads : readManifest manifest = .ok seeds)
    (isOpen : s.closed = false) (fresh : s.ledger.head? = none) :
    s.bootstrap manifest genesis =
      let r := ({ s with ledger := s.ledger.seed seeds genesis } : Store).flush
      (r.1.map fun _ => seeds.length, r.2) := by
  have goes : (s.read >>= unstarted) = .ok () := by
    rw [read_of_open isOpen]
    show unstarted s.ledger = _
    rw [unstarted, fresh]
  rw [bootstrap, reads]
  dsimp only
  rw [goes]
  rcases ({ s with ledger := s.ledger.seed seeds genesis } : Store).flush with ⟨_ | _, t⟩ <;> rfl

/-- If the file can be written, that is all. -/
theorem bootstrap_eq_seeded (genesis : BlockId) (reads : readManifest manifest = .ok seeds)
    (isOpen : s.closed = false) (fresh : s.ledger.blocks.entries = [])
    (works : s.persistent = true → s.disk.Works) :
    s.bootstrap manifest genesis = (.ok seeds.length, s.seeded seeds genesis) := by
  have none_ : s.ledger.head? = none := by
    rw [Ledger.head?, Table.last?, fresh]
    rfl
  rw [bootstrap_eq_flush genesis reads isOpen none_, flush_eq_ite, seeded]
  by_cases persistent : s.persistent = true
  · simp only [if_pos persistent, if_pos (works persistent)]
    rfl
  · simp only [if_neg persistent]
    rfl

theorem bootstraps (within : s.ledger.InLimits) (word : genesis.InLimits)
    (reads : readManifest manifest = .ok seeds) (isOpen : s.closed = false)
    (fresh : s.ledger.blocks.entries = []) (works : s.persistent = true → s.disk.Works) :
    s.Bootstraps manifest seeds genesis := by
  have eq := bootstrap_eq_seeded genesis reads isOpen fresh works
  -- The store is still open and still without blocks, so it takes the manifest over again.
  have again := bootstrap_eq_seeded (s := s.seeded seeds genesis) genesis reads
    (by rw [seeded_closed, isOpen]) (by rw [seeded_ledger, Ledger.blocks_seed, fresh])
    (works_seeded s seeds genesis)
  rw [seeded_seeded] at again
  constructor <;> rw [eq]
  · rw [seeded_ledger]
    exact Ledger.seeds_seed ..
  · rw [seeded_disk, seeded_ledger]
  · intro persistent
    rw [seeded_disk, if_pos persistent, seeded_ledger]
    exact opens_text (within.seed (inLimits_of_readManifest reads) word)
  · exact again

/-- **The last entry wins, once and for all, and only at the start.** A manifest that can be
read is taken over by an open store without blocks: every listed holding gets the value of its
last entry, everything else stays, as many holdings are counted as had no record, a store that
is one to be written is written, and the same manifest once more changes neither the store nor
its file. A store with a head, and a manifest that cannot be read, leave everything alone. -/
theorem bootstrap_last_wins (within : s.ledger.InLimits) (word : genesis.InLimits) :
    (∀ manifest seeds, readManifest manifest = .ok seeds → s.closed = false →
      s.ledger.blocks.entries = [] → (s.persistent = true → s.disk.Works) →
      s.Bootstraps manifest seeds genesis) ∧
    s.RefusesManifests genesis :=
  ⟨fun _ _ => bootstraps within word, refusesManifests s genesis⟩

/-- Somebody's bitcoins. -/
def bitcoin (owner : String) : Holding := ⟨⟨owner, none⟩, ⟨"BTC", 8⟩⟩

/-- A manifest entry for them. -/
def manifestEntry (owner amount : String) : String :=
  "[[[\"" ++ owner ++ "\"],[\"BTC\",8]],\"" ++ amount ++ "\"]"

/-- A manifest that lists one holding twice, and another one in between. -/
def repeating : String :=
  "[" ++ ",".intercalate [manifestEntry "alice" "1", manifestEntry "bob" "2",
    manifestEntry "alice" "3"] ++ "]"

/-- A store that an earlier manifest left, with a balance for one of the two. -/
def begun : Store where
  ledger := ({} : Ledger).seed [⟨bitcoin "alice", .whole 0⟩] ⟨0, "genesis"⟩
  persistent := true

/-- Of three entries the last two count, and one holding is new. -/
theorem bootstrap_repeating :
    (∃ seeds, readManifest (.ok repeating) = .ok seeds ∧ seeds.length = 3 ∧
      (begun.ledger.newcomers seeds).length = 1 ∧
      begun.Bootstraps (.ok repeating) seeds ⟨0, "genesis"⟩) ∧
    begun.RefusesManifests ⟨0, "genesis"⟩ := by
  have word : BlockId.InLimits ⟨0, "genesis"⟩ := by decide
  have within : begun.ledger.InLimits := by
    show (({} : Ledger).seed [⟨bitcoin "alice", .whole 0⟩] ⟨0, "genesis"⟩).InLimits
    exact Ledger.inLimits_empty.seed (by decide) word
  have all := bootstrap_last_wins within word
  refine ⟨?_, all.2⟩
  obtain ⟨seeds, reads, counts⟩ : ∃ seeds, readManifest (.ok repeating) = .ok seeds ∧
      seeds.length = 3 ∧ (begun.ledger.newcomers seeds).length = 1 :=
    ⟨[⟨bitcoin "alice", .whole 1⟩, ⟨bitcoin "bob", .whole 2⟩,
      ⟨bitcoin "alice", .whole 3⟩], by decide +kernel⟩
  exact ⟨seeds, reads, counts.1, counts.2, all.1 _ _ reads rfl rfl fun _ => by decide⟩

/-- A scratch store whose counter is at the greatest count. -/
def brimful : Store where
  ledger := ({} : Ledger).increment Counter.seenAccounts.name (.ofNat Count.greatest)

/-- It takes over a new holding without counting it, and without writing a file. -/
theorem bootstrap_scratch_full :
    brimful.closed = false ∧ brimful.ledger.blocks.entries = [] ∧ brimful.disk.Works ∧
    ∃ seeds, readManifest (.ok ("[" ++ manifestEntry "alice" "1" ++ "]")) = .ok seeds ∧
      (brimful.ledger.newcomers seeds).length = 1 ∧
      let result := brimful.bootstrap (.ok ("[" ++ manifestEntry "alice" "1" ++ "]")) ⟨0, "genesis"⟩
      result.1 = .ok 1 ∧
      result.2.ledger.counted Counter.seenAccounts.name =
        brimful.ledger.counted Counter.seenAccounts.name ∧
      result.2.disk.entry = .absent :=
  ⟨rfl, rfl, by decide, [⟨bitcoin "alice", .whole 1⟩], by decide +kernel⟩

end Store

end BalanceAudit
