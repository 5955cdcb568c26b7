import VgiSymbols.Cache.Counts
import VgiSymbols.Cache.OwnId
import VgiSymbols.State.Lookup

set_option autoImplicit false

/-! # What `cache_status` lists

The listing is put together from the resident modules and the entries that are not resident.
Every resident module has an entry under its id, so each id is listed once (`nodup_status`). Along
a run the ids are those that were inserted, recorded as missing or imported, and they stay
(`status_runOps`).
-/

namespace VgiSymbols

open Unwind

namespace SymbolCache

/-! ## The listing -/

/-- The ids that are listed. -/
def listed (c : SymbolCache) : List String := c.status.map StatusRow.debugId

theorem listed_eq (c : SymbolCache) :
    c.listed = c.resident.keys ++ c.entries.keys.filter fun d => !c.resident.contains d := by
  have hentries : (c.entries.keys.filter fun d => !c.resident.contains d) =
      (c.entries.entries.filter fun e => !c.resident.contains e.1).map Sigma.fst :=
    List.filter_map
  rw [listed, status, List.map_append, List.map_map, List.map_map, hentries]
  rfl

theorem contains_iff {c : SymbolCache} {d : String} :
    c.resident.contains d = true ↔ d ∈ c.resident.keys := by
  rw [LruCache.contains, Option.isSome_iff_exists, LruCache.mem_keys_iff]

theorem mem_entries_iff {c : SymbolCache} {d : String} :
    d ∈ c.entries ↔ ∃ e, c.entries.lookup d = some e := by
  rw [← AList.lookup_isSome, Option.isSome_iff_exists]

/-- Every id with an entry is listed, and no other. -/
theorem mem_listed {c : SymbolCache} (h : Known c) {d : String} : d ∈ c.listed ↔ d ∈ c.entries := by
  have hknown : d ∈ c.resident.keys → d ∈ c.entries := fun hd => by
    obtain ⟨r, hr⟩ := LruCache.mem_keys_iff.mp hd
    exact mem_entries_iff.mpr (h d r hr)
  rw [listed_eq, List.mem_append, List.mem_filter, ← AList.mem_keys, Bool.not_eq_true',
    Bool.eq_false_iff, ne_eq, contains_iff]
  constructor
  · rintro (hd | ⟨hd, -⟩)
    · exact hknown hd
    · exact hd
  · intro hd
    by_cases hresident : d ∈ c.resident.keys
    · exact Or.inl hresident
    · exact Or.inr ⟨hd, hresident⟩

/-- No id is listed twice. -/
theorem nodup_listed (c : SymbolCache) : c.listed.Nodup := by
  rw [listed_eq]
  refine List.nodup_append.mpr ⟨c.resident.keys_nodup, c.entries.keys_nodup.filter _, ?_⟩
  intro d hd d' hd' heq
  rw [← heq, List.mem_filter, contains_iff.mpr hd] at hd'
  cases hd'.2

/-- A row has the bytes of a resident module, or is the row of an entry that is not resident. -/
theorem mem_status {c : SymbolCache} {row : StatusRow} (h : row ∈ c.status) :
    (∃ r, c.resident.peek row.debugId = some r ∧ row.resident = true ∧
      row.bytesResident = r.bytes.toInt64) ∨
    c.resident.peek row.debugId = none ∧ row.resident = false ∧ row.bytesResident = 0 := by
  rcases List.mem_append.mp h with h | h
  · obtain ⟨⟨d, r⟩, he, rfl⟩ := List.mem_map.mp h
    exact Or.inl ⟨r, AList.mem_lookup_iff.mpr he, rfl, rfl⟩
  · obtain ⟨⟨d, e⟩, he, rfl⟩ := List.mem_map.mp h
    have hcold : (!c.resident.contains d) = true := (List.mem_filter.mp he).2
    rw [Bool.not_eq_true', LruCache.contains, Option.isSome_eq_false_iff,
      Option.isNone_iff_eq_none] at hcold
    exact Or.inr ⟨hcold, rfl, rfl⟩

/-! ## The entries after an operation -/

theorem mem_entries_recordMiss {c : SymbolCache} {now : UInt64} {token d : String} :
    d ∈ (c.recordMiss now token).entries ↔ d ∈ c.entries ∨ d = canonicalToken token := by
  rw [← AList.lookup_isSome, lookup_recordMiss, Option.isSome_or, Bool.or_eq_true,
    AList.lookup_isSome]
  split
  · next heq => simp [heq]
  · next hne => simp [hne]

/-- Eviction keeps every entry. -/
theorem Evicted.mem_entries_iff {c c' : SymbolCache} (h : Evicted c c') {d : String} :
    d ∈ c'.entries ↔ d ∈ c.entries := by
  have hsome := congrArg Option.isSome (h.static d)
  rw [Option.isSome_map, Option.isSome_map] at hsome
  rw [← AList.lookup_isSome, ← AList.lookup_isSome, hsome]

theorem mem_entries_insert {c : SymbolCache} {now : UInt64} {m : ParsedModule} {origin : Origin}
    {d : String} : d ∈ (c.insert now m origin).2.entries ↔ d ∈ c.entries ∨ d = m.debugId := by
  rw [(evicted_insert c now m origin).mem_entries_iff, or_comm]
  exact AList.mem_insert _

theorem mem_entries_rehydrate {c : SymbolCache} {manifest : CacheManifest} {d : String} :
    d ∈ (c.rehydrate manifest).entries ↔
      d ∈ c.entries ∨ d ∈ manifest.entries.map ManifestEntry.debugId := by
  unfold rehydrate
  generalize manifest.entries = l
  induction l generalizing c with
  | nil => simp
  | cons e l ih =>
      have hentry : d ∈ (c.rehydrateEntry e).entries ↔ d = e.debugId ∨ d ∈ c.entries :=
        AList.mem_insert _
      rw [List.foldl_cons, ih, hentry, List.map_cons, List.mem_cons, or_comm (a := d = _),
        or_assoc]

/-- The manifest that is exported has the ids of all entries. -/
theorem mem_map_debugId_toManifest {c : SymbolCache} (h : Keyed c) {sources : List SourceSpec}
    {d : String} :
    d ∈ (c.toManifest sources).1.entries.map ManifestEntry.debugId ↔ d ∈ c.entries := by
  have hperm : ((c.toManifest sources).1.entries.map ManifestEntry.debugId).Perm
      ((c.syncEntries.entries.entries.map fun e => e.2).map ManifestEntry.debugId) :=
    (List.perm_insertionSort _ _).map _
  rw [hperm.mem_iff, h.syncEntries.map_debugId, ← AList.mem_keys]
  exact (evicted_toManifest c sources).mem_entries_iff

/-- The listing has each known id once. The row of a resident module has its bytes, and any other
row has none. -/
structure Partition (c : SymbolCache) (known : String → Prop) : Prop where
  nodup : c.listed.Nodup
  listed : ∀ d, d ∈ c.listed ↔ known d
  resident : ∀ row ∈ c.status, ∀ r, c.resident.peek row.debugId = some r →
    row.resident = true ∧ r.module.debugId = row.debugId ∧
      row.bytesResident.toInt = r.module.residentBytes.toNat
  cold : ∀ row ∈ c.status, c.resident.peek row.debugId = none →
    row.resident = false ∧ row.bytesResident = 0

end SymbolCache

namespace SymbolsState

/-! ## Along a run -/

/-- The debug-ids that a lookup of the token inserts or records as missing. -/
def enteredBy (rd : Readers) (w : World) (s : SymbolsState) (token : String) : List String :=
  if s.cache.isResident token || s.cache.isKnownMiss token then []
  else
    match (s.sources.locate rd w.fs token).1 with
    | .panicked => []
    | .returned none => [canonicalToken token]
    | .returned (some located) =>
        match ParsedModule.parse rd located.data located.name s.limits with
        | .ok m => [m.debugId]
        | .error _ => []

/-- The debug-ids that an operation inserts, records as missing or imports. -/
def entered (rd : Readers) (s : SymbolsState) (i : World × Op) : List String :=
  match i.2 with
  | .resolve token _ | .functionName token _ => enteredBy rd i.1 s token
  | .importManifest manifest => manifest.entries.map ManifestEntry.debugId
  | .addSource .. | .dropSource _ | .cacheEvict _ | .restart _ _ => []

theorem mem_entries_lookup {rd : Readers} {w : World} {s : SymbolsState} {token d : String} :
    d ∈ (s.lookup rd w token).2.cache.entries ↔
      d ∈ s.cache.entries ∨ d ∈ enteredBy rd w s token := by
  have h := looked_lookup rd w s token
  have hkept : enteredBy rd w s token = [] →
      (d ∈ s.cache.entries ↔ d ∈ s.cache.entries ∨ d ∈ enteredBy rd w s token) := by
    intro hnone
    rw [hnone]
    exact (or_iff_left List.not_mem_nil).symm
  generalize (s.lookup rd w token).1 = out, (s.lookup rd w token).2 = s' at h ⊢
  generalize s.parseAttempt rd w token = attempt at h
  cases h with
  | hit hr =>
      show d ∈ (s.cache.touch w.now token).entries ↔ _
      rw [SymbolCache.entries_touch]
      apply hkept
      rw [enteredBy, SymbolCache.isResident_eq, hr]
      rfl
  | miss hr hm =>
      apply hkept
      rw [enteredBy, SymbolCache.isKnownMiss_iff.mpr hm, Bool.or_true]
      rfl
  | unwound hr hm hl =>
      apply hkept
      rw [enteredBy, goesOn_of_reached_eq_none hr hm, hl]
      rfl
  | absent hr hm hl =>
      rw [enteredBy, goesOn_of_reached_eq_none hr hm, hl]
      exact SymbolCache.mem_entries_recordMiss.trans (or_congr_right List.mem_singleton.symm)
  | failed hr hm hl hp =>
      apply hkept
      rw [enteredBy, goesOn_of_reached_eq_none hr hm, hl]
      simp only [Bool.false_eq_true, if_false, hp]
  | parsed hr hm hl hp hr' =>
      show d ∈ (SymbolCache.touch _ _ _).entries ↔ _
      rw [SymbolCache.entries_touch, enteredBy, goesOn_of_reached_eq_none hr hm, hl]
      simp only [Bool.false_eq_true, if_false, hp]
      exact SymbolCache.mem_entries_insert.trans (or_congr_right List.mem_singleton.symm)
  | lost hr hm hl hp hr' =>
      rw [enteredBy, goesOn_of_reached_eq_none hr hm, hl]
      simp only [Bool.false_eq_true, if_false, hp]
      exact SymbolCache.mem_entries_insert.trans (or_congr_right List.mem_singleton.symm)

/-- An operation keeps every entry and adds the ids that it enters. -/
theorem mem_entries_step {rd : Readers} {s : SymbolsState} (h : s.cache.Keyed) {i : World × Op}
    {d : String} :
    d ∈ (step rd s i).cache.entries ↔ d ∈ s.cache.entries ∨ d ∈ entered rd s i := by
  obtain ⟨w, op⟩ := i
  cases op with
  | addSource kind path url bucket enabled secret =>
      rw [step, cache_addSource]
      exact (or_iff_left List.not_mem_nil).symm
  | dropSource sourceId =>
      rw [step, cache_dropSource]
      exact (or_iff_left List.not_mem_nil).symm
  | resolve token addr =>
      rw [step_resolve]
      exact mem_entries_lookup
  | functionName token addr =>
      rw [step_functionName]
      exact mem_entries_lookup
  | cacheEvict token =>
      exact (SymbolCache.evicted_evict s.cache token).mem_entries_iff.trans
        (or_iff_left List.not_mem_nil).symm
  | importManifest manifest => exact SymbolCache.mem_entries_rehydrate
  | restart maxBytes maxModules =>
      -- the fresh cache has the entries of the manifest that was exported
      have hfresh : d ∈ ((SymbolCache.new maxBytes maxModules).rehydrate
          (s.cache.toManifest s.sources.sources).1).entries ↔ d ∈ s.cache.entries := by
        rw [SymbolCache.mem_entries_rehydrate, SymbolCache.mem_map_debugId_toManifest h]
        exact or_iff_right (AList.notMem_empty d)
      exact hfresh.trans (or_iff_left List.not_mem_nil).symm

/-- A state with the default caps, whose resident modules were parsed within them. -/
structure Weighed (s : SymbolsState) : Prop where
  limits : s.limits = Limits.default
  bytes : ∀ d r, s.cache.resident.peek d = some r →
    r.bytes = r.module.residentBytes ∧ r.bytes ≤ Limits.default.maxParseBytes

theorem weighed_step {rd : Readers} {s : SymbolsState} {i : World × Op} (h : s.Weighed) :
    (step rd s i).Weighed := by
  refine ⟨limits_step h.limits, fun d r hd => ?_⟩
  rcases peek_step hd with ⟨r₀, hr₀, hmodule, hbytes⟩ | ⟨hbytes, data, name, hp⟩
  · rw [← hmodule, ← hbytes]
    exact h.bytes d r₀ hr₀
  · rw [h.limits] at hp
    exact ⟨hbytes, hbytes ▸ ParsedModule.residentBytes_le_of_parse hp⟩

/-- Every operation imports some manifest, or none. -/
theorem Op.imports_true (op : Op) : op.Imports fun _ => True := by
  cases op <;> trivial

/-- What a run lists at its end. -/
theorem mem_listed_runOps {rd : Readers} {s : SymbolsState} (hkeyed : s.cache.Keyed)
    (hknown : s.cache.Known) (ops : List (World × Op)) {d : String} :
    d ∈ (runOps rd s ops).cache.listed ↔
      d ∈ s.cache.listed ∨ Run.Happens (step rd) (fun s i => d ∈ entered rd s i) s ops := by
  have hend : (runOps rd s ops).cache.Known :=
    Run.invariant_run' (P := fun s : SymbolsState => s.cache.Known)
      (fun _ i h => cache_step SymbolCache.known_invariant h i.2.imports_true) hknown ops
  rw [SymbolCache.mem_listed hknown, SymbolCache.mem_listed hend]
  exact Run.run_iff_happens (J := fun s : SymbolsState => s.cache.Keyed)
    (L := fun s : SymbolsState => d ∈ s.cache.entries)
    (fun _ i h => cache_step SymbolCache.keyed_invariant h i.2.imports_true)
    (fun _ _ h => mem_entries_step h) hkeyed ops

/-- **`cache_status` is a partition.** In every reachable state the debug-ids that were ever
inserted, recorded as missing or imported are listed once each, and an id once listed stays. -/
theorem status_runOps (rd : Readers) (maxBytes : UInt64) (maxModules : Nat)
    (ops : List (World × Op)) :
    (runOps rd (withBudgets maxBytes maxModules) ops).cache.Partition (fun d =>
      Run.Happens (step rd) (fun s i => d ∈ entered rd s i)
        (withBudgets maxBytes maxModules) ops) ∧
    ∀ more, ∀ d ∈ (runOps rd (withBudgets maxBytes maxModules) ops).cache.listed,
      d ∈ (runOps rd (withBudgets maxBytes maxModules) (ops ++ more)).cache.listed := by
  have hkeyed := cache_runOps SymbolCache.keyed_invariant rd maxBytes maxModules
    fun i (_ : i ∈ ops) => i.2.imports_true
  have hknown := cache_runOps SymbolCache.known_invariant rd maxBytes maxModules
    fun i (_ : i ∈ ops) => i.2.imports_true
  have hstored := cache_runOps SymbolCache.stored_invariant rd maxBytes maxModules
    fun i (_ : i ∈ ops) => i.2.imports_true
  have hweighed : (runOps rd (withBudgets maxBytes maxModules) ops).Weighed :=
    Run.invariant_run' (fun _ _ h => weighed_step h) ⟨rfl, fun d r hd => by cases hd⟩ ops
  constructor
  · refine ⟨SymbolCache.nodup_listed _, fun d => ?_, fun row hrow r hr => ?_,
      fun row hrow hnone => ?_⟩
    · rw [mem_listed_runOps (SymbolCache.keyed_invariant.new _ _)
        (SymbolCache.known_invariant.new _ _)]
      exact or_iff_right List.not_mem_nil
    · rcases SymbolCache.mem_status hrow with ⟨r', hr', hresident, hrowBytes⟩ | ⟨hnone, -⟩
      · obtain rfl := Option.some.inj (hr.symm.trans hr')
        obtain ⟨hbytes, hcap⟩ := hweighed.bytes _ r hr
        have hlt : r.bytes.toNat < 2 ^ 63 :=
          lt_of_le_of_lt (UInt64.le_iff_toNat_le.mp hcap) (by decide)
        refine ⟨hresident, hstored _ r hr, ?_⟩
        rw [hrowBytes, toInt_toInt64 hlt, hbytes]
      · cases hr.symm.trans hnone
    · rcases SymbolCache.mem_status hrow with ⟨r, hr, -⟩ | ⟨-, hcold⟩
      · cases hnone.symm.trans hr
      · exact hcold
  · intro more d hd
    rw [runOps, Run.run, List.foldl_append]
    exact (mem_listed_runOps hkeyed hknown more).mpr (Or.inl hd)

end SymbolsState

end VgiSymbols
