import Mathlib.Algebra.BigOperators.Ring.Finset
import VgiSymbols.State.Provenance
import VgiSymbols.State.Status
import VgiSymbols.Worker.Evict
import VgiSymbols.Worker.Session

set_option autoImplicit false

/-! # The listing in a session

`cache_status` shows a resident module with its live stats, and any other by its entry. A resident
module is `Described` by its entry, so its row says the same before and after it is evicted, but
for its bytes, and those are what the eviction returns.

* `evict_settles`: an eviction moves bytes from the listing to the caller, and does nothing else.
* `listing_true`: each row is true of the file it names.
-/

namespace VgiSymbols

namespace SymbolCache

/-! ## Rows -/

/-- A row as it is once its module has left the cache. -/
def StatusRow.cold (row : StatusRow) : StatusRow :=
  { row with bytesResident := 0, resident := false }

/-- The row of a resident module, but for its bytes, is that of what is reported of it. -/
theorem cold_residentRow {c : SymbolCache} (h : Described c) {d : String} {r : Resident}
    (hr : c.resident.peek d = some r) :
    (c.reported d).map (entryRow d) = some (c.residentRow d r).cold := by
  obtain ⟨-, -, e, origin, hd, hstatic⟩ := h d r hr
  simp only [ManifestEntry.static, entryOf, ManifestEntry.mk.injEq] at hstatic
  obtain ⟨-, horigin, hformat, harch, hname, -, -, -, -⟩ := hstatic
  rw [reported, hd, Option.map_some, Option.map_some, live, hr]
  simp [entryRow, residentRow, StatusRow.cold, Resident.stamp, hd, horigin, hformat, harch,
    hname]

/-- The listing, but for the bytes, is what is reported of the ids that are listed. -/
theorem map_cold_status {c : SymbolCache} (h : Described c) :
    c.status.map StatusRow.cold
      = c.listed.filterMap fun d => (c.reported d).map (entryRow d) := by
  have hresident : (c.resident.items.entries.map fun e => (c.residentRow e.1 e.2).cold)
      = c.resident.keys.filterMap fun d => (c.reported d).map (entryRow d) := by
    show _ = (c.resident.items.entries.map Sigma.fst).filterMap _
    rw [List.filterMap_map, ← List.filterMap_eq_map]
    refine List.filterMap_congr fun e he => ?_
    exact (cold_residentRow h (AList.mem_lookup_iff.mpr he)).symm
  have hcold : ((c.entries.entries.filter fun e => !c.resident.contains e.1).map
        fun e => (entryRow e.1 e.2).cold)
      = (c.entries.keys.filter fun d => !c.resident.contains d).filterMap
          fun d => (c.reported d).map (entryRow d) := by
    show _ = ((c.entries.entries.map Sigma.fst).filter _).filterMap _
    rw [List.filter_map, List.filterMap_map, ← List.filterMap_eq_map]
    refine List.filterMap_congr fun e he => ?_
    obtain ⟨he, hnot⟩ := List.mem_filter.mp he
    have hpeek : c.resident.peek e.1 = none := by
      rw [Bool.not_eq_true', LruCache.contains, Option.isSome_eq_false_iff,
        Option.isNone_iff_eq_none] at hnot
      exact hnot
    have hlookup : c.entries.lookup e.1 = some e.2 := AList.mem_lookup_iff.mpr he
    show _ = (c.reported e.1).map (entryRow e.1)
    rw [reported, hlookup, Option.map_some, Option.map_some, live, hpeek]
    rfl
  rw [status, List.map_append, List.map_map, List.map_map, listed_eq, List.filterMap_append,
    ← hresident, ← hcold]
  rfl

/-! ## Bytes -/

/-- The sum of the column of bytes. -/
def listedBytes (c : SymbolCache) : Int := (c.status.map fun row => row.bytesResident.toInt).sum

/-- It is that of the resident modules, if that fits the column. -/
theorem listedBytes_eq {c : SymbolCache} (h : c.totalBytes < 2 ^ 63) :
    c.listedBytes = c.totalBytes := by
  have hresident : (c.resident.items.entries.map fun e => e.2.bytes.toInt64.toInt)
      = (c.resident.items.entries.map fun e => e.2.bytes.toNat).map Nat.cast := by
    rw [List.map_map]
    refine List.map_congr_left fun e he => ?_
    have hle : e.2.bytes.toNat ≤ c.totalBytes :=
      LruCache.le_weight_of_peek (fun r : Resident => r.bytes.toNat)
        (AList.mem_lookup_iff.mpr he)
    exact toInt_toInt64 (hle.trans_lt h)
  have hcold : ∀ l : List (Sigma fun _ : String => ManifestEntry),
      (l.map fun e => (entryRow e.1 e.2).bytesResident.toInt).sum = 0 := by
    intro l
    refine List.sum_eq_zero fun x hx => ?_
    obtain ⟨e, -, rfl⟩ := List.mem_map.mp hx
    rfl
  rw [listedBytes, status, List.map_append, List.sum_append, List.map_map, List.map_map]
  show (c.resident.items.entries.map fun e => e.2.bytes.toInt64.toInt).sum
    + (List.map (fun e => (entryRow e.1 e.2).bytesResident.toInt) _).sum = _
  rw [hcold, hresident, add_zero, ← Nat.cast_list_sum]
  rfl

/-- The bytes that an eviction returns are those that are gone. -/
theorem totalBytes_evict {c : SymbolCache} (h : c.totalBytes < 2 ^ 63) (token : Option String) :
    (c.evict token).2.totalBytes ≤ c.totalBytes ∧
      (c.evict token).1.toInt + (c.evict token).2.totalBytes = c.totalBytes := by
  cases token with
  | none =>
      have hnil : (c.evict none).2.totalBytes = 0 :=
        LruCache.weight_of_keys_eq_nil _ (keys_evictAllLoop c.resident.len 0 c (Nat.le_refl _))
      rw [hnil, (evictsAll_evict h).freed_eq]
      exact ⟨Nat.zero_le _, add_zero _⟩
  | some t =>
      rw [evict]
      split
      · exact ⟨Nat.le_refl _, zero_add _⟩
      · split
        · next d _ r resident hpop =>
            have hweight := LruCache.weight_pop (fun r : Resident => r.bytes.toNat) hpop
            have htotal : c.totalBytes = (resident.weight fun r => r.bytes.toNat)
              + r.bytes.toNat := hweight.symm
            have hbytes : r.bytes.toInt64.toInt = r.bytes.toNat := toInt_toInt64 (by omega)
            show (resident.weight fun r => r.bytes.toNat) ≤ _ ∧
              r.bytes.toInt64.toInt + ((resident.weight fun r => r.bytes.toNat : Nat) : Int) = _
            omega
        · exact ⟨Nat.le_refl _, zero_add _⟩

/-! ## Evictions -/

/-- An eviction only takes modules out of the listing: as a set of rows it is the same but for
the bytes, a module that is still resident has the row it had, and the bytes add up. -/
structure Settles (c : SymbolCache) (freed : Int64) (c' : SymbolCache) : Prop where
  rows : (c'.status.map StatusRow.cold).Perm (c.status.map StatusRow.cold)
  resident : ∀ row ∈ c'.status, row.resident = true → row ∈ c.status
  bytes : freed.toInt + c'.listedBytes = c.listedBytes

theorem residentRow_evicted {c c' : SymbolCache} (he : Evicted c c') (d : String)
    (r : Resident) : c'.residentRow d r = c.residentRow d r := by
  have horigin : (c'.entries.lookup d).bind (·.origin) = (c.entries.lookup d).bind (·.origin) := by
    have h := congrArg (Option.bind · (·.origin)) (he.static d)
    rwa [Option.bind_map, Option.bind_map] at h
  rw [residentRow, horigin]
  rfl

theorem settles_evict {c : SymbolCache} (h : Described c) (hknown : Known c)
    (hbytes : c.totalBytes < 2 ^ 63) (token : Option String) :
    c.Settles (c.evict token).1 (c.evict token).2 where
  rows := by
    have he := evicted_evict c token
    rw [map_cold_status h, map_cold_status (h.evicted he), reported_evict]
    refine List.Perm.filterMap _ ?_
    -- the same ids are listed, each of them once
    refine (List.perm_ext_iff_of_nodup (nodup_listed _) (nodup_listed _)).mpr fun d => ?_
    rw [mem_listed (hknown.evicted he), mem_listed hknown, he.mem_entries_iff]
  resident row hrow hresident := by
    have he := evicted_evict c token
    rw [status] at hrow
    rcases List.mem_append.mp hrow with hrow | hrow
    · obtain ⟨⟨d, r⟩, hd, rfl⟩ := List.mem_map.mp hrow
      have hpeek := he.peek d r (AList.mem_lookup_iff.mpr hd)
      rw [residentRow_evicted he, status]
      exact List.mem_append_left _
        (List.mem_map.mpr ⟨⟨d, r⟩, AList.mem_lookup_iff.mp hpeek, rfl⟩)
    · obtain ⟨⟨d, e⟩, -, rfl⟩ := List.mem_map.mp hrow
      cases hresident
  bytes := by
    obtain ⟨hle, htotal⟩ := totalBytes_evict hbytes token
    rw [listedBytes_eq hbytes, listedBytes_eq (hle.trans_lt hbytes), htotal]

end SymbolCache

namespace Worker

open SymbolsState (Op)

/-- **The books balance.** In every session of the worker, what `cache_evict` returns is missing
from the bytes that `cache_status` lists, and nothing else about the listing changes. -/
theorem evict_settles (vgi : VgiTables) (arrow : Arrow) (rd : Readers) (calls : List (Call vgi))
    (args : vgi.Arguments) :
    let s := (Run.run (step vgi arrow rd) ⟨SymbolsState.new, ∅⟩ calls).state
    s.cache.Settles (CacheEvict.producer vgi.toVgi s args).1
      (CacheEvict.producer vgi.toVgi s args).2.cache := by
  intro s
  obtain ⟨hrun, hops⟩ := session_refines vgi arrow rd ⟨SymbolsState.new, ∅⟩ calls
  have hs : s = SymbolsState.runOps rd SymbolsState.new
    (performed vgi arrow rd ⟨SymbolsState.new, ∅⟩ calls) := hrun
  have hworker : ∀ i ∈ performed vgi arrow rd ⟨SymbolsState.new, ∅⟩ calls,
      i.2.inWorker = true := by
    intro i hi
    have hsession := hops i hi
    cases hop : i.2 with
    | restart maxBytes maxModules =>
        rw [hop] at hsession
        cases hsession
    | addSource | dropSource | resolve | functionName | cacheEvict | importManifest => rfl
  have hdescribed : SymbolCache.Described s.cache := by
    rw [hs]
    exact SymbolsState.cache_runOps_session SymbolCache.described_kept rd
      (SymbolCache.described_new _ _) hops
  have hknown : SymbolCache.Known s.cache := by
    intro d r hr
    obtain ⟨-, -, e, origin, hd, -⟩ := hdescribed d r hr
    exact ⟨e, hd⟩
  have hbytes : s.cache.totalBytes < 2 ^ 63 := by
    rw [hs]
    exact (SymbolsState.inCaps_runOps rd hworker).totalBytes_lt
  exact SymbolCache.settles_evict hdescribed hknown hbytes (vgi.constStr args 0)

/-- **`cache_status` tells the truth.** In every session of the worker each row it lists is a miss,
or a call of the session parsed the file that the row names, and the row says of its module what
`module_info` would have said of that file then. -/
theorem listing_true (vgi : VgiTables) (arrow : Arrow) (rd : Readers) (calls : List (Call vgi)) :
    let s := (Run.run (step vgi arrow rd) ⟨SymbolsState.new, ∅⟩ calls).state
    ∀ row ∈ s.cacheStatus, row.origin = "not_found" ∧ row.resident = false ∨
      Run.Happens (SymbolsState.step rd) (fun t i => ∃ path located m,
          t.Parses rd i path located m ∧ row.TrueOf rd i.1.fs t path) SymbolsState.new
        (performed vgi arrow rd ⟨SymbolsState.new, ∅⟩ calls) := by
  obtain ⟨hrun, hops⟩ := session_refines vgi arrow rd ⟨SymbolsState.new, ∅⟩ calls
  rw [hrun]
  exact SymbolsState.told_runOps rd hops

end Worker

end VgiSymbols
