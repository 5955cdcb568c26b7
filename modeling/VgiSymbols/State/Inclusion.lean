import VgiSymbols.Cache.Recency
import VgiSymbols.State.ParseOnce
import VgiSymbols.State.Transparency

set_option autoImplicit false

/-! # A larger byte budget never hurts

Over fixed sources and unchanged files that share no alias, and with a slot for every module, the
resident ids are a recency stack, and what a call asks of it is a matter of the sources alone
(`keys_stepIn`). So a worker with a larger byte budget always has what one with a smaller budget
has, and parses no file that the other does not parse as well (`larger_budget`).

The slots matter: a module that is dropped for want of one stays in the byte counter, and from
then on the budget is not what it says.
-/

namespace VgiSymbols

open Unwind

variable {rd : Readers} {fs : FileSystem} {sources : List SourceSpec}

/-- The bytes of the module with the debug-id. -/
def moduleBytes (rd : Readers) (fs : FileSystem) (sources : List SourceSpec) (d : String) : Nat :=
  match answerFor rd fs sources d with
  | .module m => m.residentBytes.toNat
  | .notFound | .error _ => 0

/-- The directory `d` with two good images. -/
def StandIn.twoGood : FileSystem :=
  directory "d" [("d/a", 1 :: buildId 0x11), ("d/b", 1 :: buildId 0x22)]

theorem StandIn.disjointAliases_twoGood :
    DisjointAliases readers twoGood [dirSource "src0" "d"] := by
  unfold DisjointAliases
  decide +kernel

theorem StandIn.budgetsHold_twoGood :
    BudgetsHold readers twoGood [dirSource "src0" "d"] 34 2 := by
  decide +kernel

namespace SymbolsState

/-! ## What is asked of the stack -/

/-- What a lookup of the token asks of the stack. -/
def lookupRequest (rd : Readers) (fs : FileSystem) (sources : List SourceSpec) (token : String) :
    Recency.Request String :=
  match answerFor rd fs sources (canonicalToken token) with
  | .module m => .use m.debugId
  | .notFound | .error _ => .none

/-- What an operation asks of the stack. -/
def Op.request (rd : Readers) (fs : FileSystem) (sources : List SourceSpec) :
    Op → Recency.Request String
  | .resolve token _ | .functionName token _ => lookupRequest rd fs sources token
  | .cacheEvict none => .clear
  | .cacheEvict (some token) =>
      match answerFor rd fs sources (canonicalToken token) with
      | .module m => .remove m.debugId
      | .notFound | .error _ => .none
  | _ => .none

/-- The file a lookup of the token parses, with the given ids resident. -/
def parsesFor (rd : Readers) (fs : FileSystem) (sources : List SourceSpec) (keys : List String)
    (token : String) : Option PathBuf :=
  match answerFor rd fs sources (canonicalToken token) with
  | .module m =>
      if m.debugId ∈ keys then none
      else (fileFor rd fs sources (canonicalToken token)).map Prod.fst
  | .notFound => none
  | .error _ => (fileFor rd fs sources (canonicalToken token)).map Prod.fst

/-! ## The invariant -/

/-- The state of a worker whose resident ids are a recency stack: each of them is reached by all
its names, the counter is right, and there is a slot for every module. -/
structure Stacked (rd : Readers) (fs : FileSystem) (sources : List SourceSpec)
    (maxBytes : UInt64) (s : SymbolsState) : Prop where
  consistent : s.Consistent rd fs sources
  named : ∀ d r, s.cache.resident.peek d = some r →
    ∀ k ∈ r.module.identity.aliases, s.cache.aliases.lookup k = some d
  weighs : s.cache.Weighs (moduleBytes rd fs sources)
  accounted : s.cache.Accounted
  maxBytes_eq : s.cache.maxBytes = maxBytes
  slots : (parsedModules rd fs sources).length ≤ s.cache.resident.cap

theorem stacked_registered {maxBytes : UInt64} {maxModules : Nat} (nextId : UInt64)
    (hslots : (parsedModules rd fs sources).length ≤ max maxModules 1) :
    Stacked rd fs sources maxBytes (registered maxBytes maxModules nextId sources) where
  consistent := consistent_registered maxBytes maxModules nextId
  named d r hr := by cases hr
  weighs d r hr := by cases hr
  accounted := SymbolCache.accounted_new maxBytes maxModules
  maxBytes_eq := rfl
  slots := hslots

section Steps

variable (hlist : ListsReturn rd fs sources) (hfs : fs.Unchanged)
  (hdis : DisjointAliases rd fs sources)
include hfs hdis

/-- A served module answers to each of its names. -/
theorem answerFor_of_served {m : ParsedModule} (hm : Served rd fs sources m) {k : String}
    (hk : k ∈ m.identity.aliases) : answerFor rd fs sources k = .module m :=
  (coherent_of_disjointAliases hfs hdis (fun a => a) m hm k hk).symm

theorem answerFor_debugId {m : ParsedModule} (hm : Served rd fs sources m) :
    answerFor rd fs sources m.debugId = .module m :=
  answerFor_of_served hfs hdis hm (Identity.debugIdStr_mem_aliases _)

theorem moduleBytes_debugId {m : ParsedModule} (hm : Served rd fs sources m) :
    moduleBytes rd fs sources m.debugId = m.residentBytes.toNat := by
  rw [moduleBytes, answerFor_debugId hfs hdis hm]

/-- Modules of one debug-id are one. -/
theorem eq_of_debugId {m m' : ParsedModule} (hm : Served rd fs sources m)
    (hm' : Served rd fs sources m') (h : m.debugId = m'.debugId) : m = m' := by
  have heq := answerFor_debugId hfs hdis hm
  rw [h, answerFor_debugId hfs hdis hm'] at heq
  cases heq
  rfl

omit hdis in
theorem mem_parsedModules {m : ParsedModule} (hm : Served rd fs sources m) :
    m ∈ parsedModules rd fs sources := by
  obtain ⟨k, hk⟩ := hm
  obtain ⟨entry, _, _, hf, -⟩ := exists_of_answerFor hfs hk
  exact List.mem_filterMap.mpr ⟨entry.1, mem_firstFiles hf, moduleAt_of_answerFor hfs hf hk⟩

omit hdis in
theorem served_of_mem_parsedModules {m : ParsedModule} (hm : m ∈ parsedModules rd fs sources) :
    Served rd fs sources m := by
  obtain ⟨path, hpath, hm⟩ := List.mem_filterMap.mp hm
  obtain ⟨k, -, hk⟩ := List.mem_filterMap.mp (List.mem_dedup.mp hpath)
  obtain ⟨entry, hf, rfl⟩ := Option.map_eq_some_iff.mp hk
  obtain ⟨data, _, name, hdata, -, -, hname, -⟩ := exists_of_fileFor hfs hf
  rw [moduleAt, hdata, hname] at hm
  cases hp : ParsedModule.parse rd data name Limits.default with
  | error e =>
      simp [hp, Except.toOption] at hm
  | ok m' =>
      obtain rfl : m' = m := by simpa [hp, Except.toOption] using hm
      exact ⟨k, by rw [answerFor_eq hfs hf hdata hname, hp]; rfl⟩

variable {maxBytes : UInt64} {s : SymbolsState}

/-- There is a slot for a module that is not resident, and the counter does not overflow. -/
theorem Stacked.room (h : Stacked rd fs sources maxBytes s)
    (hsize : footprint (parsedModules rd fs sources) < 2 ^ 64) {m : ParsedModule}
    (hm : Served rd fs sources m) (hnew : m.debugId ∉ s.cache.resident.keys) :
    s.cache.resident.len < s.cache.resident.cap ∧
      Recency.weight (moduleBytes rd fs sources) (m.debugId :: s.cache.resident.keys) < 2 ^ 64 := by
  have hnodup : (m.debugId :: s.cache.resident.keys).Nodup :=
    List.nodup_cons.mpr ⟨hnew, s.cache.resident.keys_nodup⟩
  have hsub : m.debugId :: s.cache.resident.keys
      ⊆ (parsedModules rd fs sources).map ParsedModule.debugId := by
    intro d hd
    rcases List.mem_cons.mp hd with rfl | hd
    · exact List.mem_map_of_mem (mem_parsedModules hfs hm)
    · obtain ⟨r, hr⟩ := LruCache.mem_keys_iff.mp hd
      obtain ⟨rfl, hserved⟩ := h.consistent.cache.resident d r hr
      exact List.mem_map_of_mem (mem_parsedModules hfs hserved)
  obtain ⟨l, hperm, hsub⟩ := List.subperm_of_subset hnodup hsub
  constructor
  · have hlen := hsub.length_le
    have hslots := h.slots
    rw [hperm.length_eq, List.length_cons, List.length_map] at hlen
    show s.cache.resident.keys.length < s.cache.resident.cap
    omega
  · have hweights : ((parsedModules rd fs sources).map ParsedModule.debugId).map
        (moduleBytes rd fs sources)
          = (parsedModules rd fs sources).map fun m => m.residentBytes.toNat := by
      rw [List.map_map]
      exact List.map_congr_left fun m hm =>
        moduleBytes_debugId hfs hdis (served_of_mem_parsedModules hfs hm)
    calc Recency.weight (moduleBytes rd fs sources) (m.debugId :: s.cache.resident.keys)
        = (l.map (moduleBytes rd fs sources)).sum := ((hperm.map _).sum_eq).symm
      _ ≤ (((parsedModules rd fs sources).map ParsedModule.debugId).map
            (moduleBytes rd fs sources)).sum :=
          (hsub.map _).sum_le_sum fun _ _ => Nat.zero_le _
      _ = footprint (parsedModules rd fs sources) := by rw [hweights, footprint]
      _ < 2 ^ 64 := hsize

/-- A module that is resident is reached by each token it serves. -/
theorem Stacked.reached_of_mem (h : Stacked rd fs sources maxBytes s) {token : String}
    {m : ParsedModule} (hm : answerFor rd fs sources (canonicalToken token) = .module m)
    (hmem : m.debugId ∈ s.cache.resident.keys) :
    ∃ r, s.cache.aliases.lookup (canonicalToken token) = some m.debugId ∧
      s.cache.resident.peek m.debugId = some r := by
  obtain ⟨r, hr⟩ := LruCache.mem_keys_iff.mp hmem
  obtain ⟨hid, hserved⟩ := h.consistent.cache.resident _ _ hr
  obtain rfl := eq_of_debugId hfs hdis hserved ⟨_, hm⟩ hid
  exact ⟨r, h.named _ _ hr _ (mem_aliases_of_answerFor hfs hm), hr⟩

include hlist

/-- A token that reaches a module is one that it serves. -/
theorem Stacked.answerFor_of_reached (h : Stacked rd fs sources maxBytes s) {token : String}
    {r : Resident} (hr : s.cache.reached token = some r) :
    answerFor rd fs sources (canonicalToken token) = .module r.module := by
  obtain ⟨answer, hout, hanswer⟩ := h.consistent.obs_looked hlist hfs
    (coherent_of_disjointAliases hfs hdis fun a => a) (Looked.hit (w := ⟨fs, 0⟩) hr)
  cases hout
  exact hanswer.symm

/-! ## Lookups -/

omit hfs hdis hlist in
/-- The cache is as it was, up to new aliases. -/
theorem Stacked.kept (h : Stacked rd fs sources maxBytes s) {s' : SymbolsState}
    (hs' : s'.Consistent rd fs sources) (hresident : s'.cache.resident = s.cache.resident)
    (hbytes : s'.cache.residentBytes = s.cache.residentBytes)
    (hmax : s'.cache.maxBytes = s.cache.maxBytes)
    (haliases : ∀ k d, s.cache.aliases.lookup k = some d →
      s'.cache.aliases.lookup k = some d) :
    Stacked rd fs sources maxBytes s' where
  consistent := hs'
  named d r hr k hk := haliases k d (h.named d r (hresident ▸ hr) k hk)
  weighs d r hr := h.weighs d r (hresident ▸ hr)
  accounted := by
    rw [SymbolCache.Accounted, SymbolCache.totalBytes, hresident, hbytes]
    exact h.accounted
  maxBytes_eq := hmax.trans h.maxBytes_eq
  slots := hresident ▸ h.slots

omit hfs hdis hlist in
theorem Stacked.touch (h : Stacked rd fs sources maxBytes s) (now : UInt64) (token : String) :
    Stacked rd fs sources maxBytes (s.touch ⟨fs, now⟩ token) where
  consistent := { h.consistent with cache := h.consistent.cache.touch now token }
  named d r hr k hk := by
    obtain ⟨r₀, hr₀, hm, -⟩ := SymbolCache.exists_of_peek_touch hr
    show (s.cache.touch now token).aliases.lookup k = some d
    rw [SymbolCache.aliases_touch]
    exact h.named d r₀ hr₀ k (hm ▸ hk)
  weighs := h.weighs.touch now token
  accounted := by
    show (s.cache.touch now token).residentBytes.toNat = (s.cache.touch now token).totalBytes
    rw [SymbolCache.residentBytes_touch, SymbolCache.totalBytes_touch]
    exact h.accounted
  maxBytes_eq := (SymbolCache.maxBytes_touch _ _ _).trans h.maxBytes_eq
  slots := by
    show _ ≤ (s.cache.touch now token).resident.cap
    rw [SymbolCache.cap_touch]
    exact h.slots

/-- The module a token lacks is parsed and put on the stack. -/
theorem Stacked.insert (h : Stacked rd fs sources maxBytes s)
    (hsize : footprint (parsedModules rd fs sources) < 2 ^ 64) (now : UInt64) {token : String}
    {located : Located} {reg : SourceRegistry} {m : ParsedModule}
    (hr : s.cache.reached token = none)
    (hl : s.sources.locate rd fs token = (.returned (some located), reg))
    (hm : answerFor rd fs sources (canonicalToken token) = .module m) :
    let s' : SymbolsState :=
      { s with sources := reg, cache := (s.cache.insert now m located.origin).2 }
    Stacked rd fs sources maxBytes s' ∧ m.debugId ∉ s.cache.resident.keys ∧
      s'.cache.resident.keys
        = Recency.step (moduleBytes rd fs sources) maxBytes.toNat s.cache.resident.keys
            (.use m.debugId) := by
  have hserved : Served rd fs sources m := ⟨_, hm⟩
  have hnew : m.debugId ∉ s.cache.resident.keys := by
    intro hmem
    obtain ⟨r, ha, hpeek⟩ := h.reached_of_mem hfs hdis hm hmem
    rw [SymbolCache.reached_eq_some.mpr ⟨_, ha, hpeek⟩] at hr
    cases hr
  obtain ⟨hroom, hcounter⟩ := h.room hfs hdis hsize hserved hnew
  obtain ⟨hkeys, haccounted, hweighs⟩ := SymbolCache.keys_insert h.weighs
    (moduleBytes_debugId hfs hdis hserved).symm h.accounted hnew hroom hcounter now located.origin
  refine ⟨?_, hnew, ?_⟩
  · exact {
      consistent :=
        h.consistent.indexed hlist hl (h.consistent.cache.insert now located.origin hserved)
      named := by
        intro d r hpeek k hk
        show (s.cache.insert now m located.origin).2.aliases.lookup k = some d
        rw [SymbolCache.lookup_aliases_insert]
        by_cases hd : d = m.debugId
        · rw [hd, SymbolCache.peek_insert_self] at hpeek
          cases hpeek
          rw [hd]
          exact if_pos hk
        · have hold := SymbolCache.peek_of_insert_ne hd hpeek
          obtain ⟨rfl, hr'⟩ := h.consistent.cache.resident d r hold
          -- a name that the two share would serve both
          have hk' : k ∉ m.identity.aliases := by
            intro hmem
            have heq := answerFor_of_served hfs hdis hr' hk
            rw [answerFor_of_served hfs hdis hserved hmem] at heq
            cases heq
            exact hd rfl
          rw [if_neg hk']
          exact h.named _ r hold k hk
      weighs := hweighs
      accounted := haccounted
      maxBytes_eq := (SymbolCache.maxBytes_insert _ _ _ _).trans h.maxBytes_eq
      slots := (SymbolCache.cap_insert s.cache now m located.origin) ▸ h.slots }
  · rw [← h.maxBytes_eq]
    exact hkeys

/-- **A lookup** uses the id of the module that serves its token, if there is one. -/
theorem Stacked.looked (h : Stacked rd fs sources maxBytes s)
    (hsize : footprint (parsedModules rd fs sources) < 2 ^ 64) {now : UInt64} {token : String}
    {attempt : Option Located} {out : Unwind Answer} {s' : SymbolsState}
    (hlooked : Looked rd ⟨fs, now⟩ s token attempt out s') :
    Stacked rd fs sources maxBytes s' ∧
      s'.cache.resident.keys
        = Recency.step (moduleBytes rd fs sources) maxBytes.toNat s.cache.resident.keys
            (lookupRequest rd fs sources token) ∧
      (attempt.bind fun _ => s.sources.indexedFile rd fs token)
        = parsesFor rd fs sources s.cache.resident.keys token := by
  have hs' := h.consistent.looked hlist hfs hlooked
  -- the file that was located
  have hpath : ∀ {located : Located} {reg : SourceRegistry},
      s.sources.locate rd fs token = (.returned (some located), reg) →
      s.sources.indexedFile rd fs token
        = (fileFor rd fs sources (canonicalToken token)).map Prod.fst := by
    intro located reg hl
    obtain ⟨entry, hf, hfile⟩ := h.consistent.exists_entry_of_located hl
    rw [hfile, hf, Option.map_some]
  have hnone : fileFor rd fs sources (canonicalToken token) = none →
      lookupRequest rd fs sources token = .none ∧
        parsesFor rd fs sources s.cache.resident.keys token = none := by
    intro hf
    rw [lookupRequest, parsesFor, answerFor_of_fileFor_eq_none hf]
    exact ⟨rfl, rfl⟩
  cases hlooked with
  | hit hr =>
      have hans := h.answerFor_of_reached hlist hfs hdis hr
      obtain ⟨d, ha, hpeek⟩ := SymbolCache.reached_eq_some.mp hr
      obtain ⟨rfl, -⟩ := h.consistent.cache.resident d _ hpeek
      have hmem := LruCache.mem_keys_iff.mpr ⟨_, hpeek⟩
      refine ⟨h.touch now token, ?_, ?_⟩
      · rw [lookupRequest, hans]
        exact SymbolCache.keys_touch ha hpeek now maxBytes.toNat
      · rw [parsesFor, hans]
        exact (if_pos hmem).symm
  | miss hr hm =>
      obtain ⟨hreq, hparse⟩ := hnone (h.consistent.cache.negative _ hm)
      rw [hreq, hparse]
      exact ⟨h, rfl, rfl⟩
  | unwound hr hm hl =>
      rw [h.consistent.locate_eq hlist] at hl
      cases hl
  | absent hr hm hl =>
      obtain ⟨hreq, hparse⟩ := hnone (h.consistent.fileFor_eq_none hfs hl)
      rw [hreq, hparse]
      refine ⟨h.kept hs' rfl rfl rfl fun k d hd => ?_, rfl, rfl⟩
      show (s.cache.recordMiss now token).aliases.lookup k = some d
      rw [SymbolCache.lookup_aliases_recordMiss, hd]
      rfl
  | failed hr hm hl hp =>
      have hans := h.consistent.answerFor_of_located hl
      rw [hp] at hans
      rw [lookupRequest, parsesFor, hans, Option.bind_some, hpath hl]
      exact ⟨h.kept hs' rfl rfl rfl fun _ _ hd => hd, rfl, rfl⟩
  | @parsed sources' located m r hr hm hl hp hr' =>
      have hans := h.consistent.answerFor_of_located hl
      rw [hp] at hans
      obtain ⟨hstacked, hnew, hkeys⟩ := h.insert hlist hfs hdis hsize now hr hl hans
      have hmem : m.debugId ∈ (s.cache.insert now m located.origin).2.resident.keys := by
        obtain ⟨l, hl⟩ := Recency.exists_step_use (moduleBytes rd fs sources) maxBytes.toNat
          s.cache.resident.keys m.debugId
        rw [hkeys, hl]
        exact List.mem_cons_self
      obtain ⟨r, ha, hpeek⟩ := hstacked.reached_of_mem hfs hdis hans hmem
      refine ⟨hstacked.touch now token, ?_, ?_⟩
      · rw [lookupRequest, hans]
        refine (SymbolCache.keys_touch (w := moduleBytes rd fs sources) ha hpeek now 0).trans ?_
        rw [hkeys]
        exact Recency.step_use_again _ _ _ _ _
      · rw [parsesFor, hans, Option.bind_some, hpath hl]
        exact (if_neg hnew).symm
  | lost hr hm hl hp hr' =>
      have hans := h.consistent.answerFor_of_located hl
      rw [hp] at hans
      obtain ⟨hstacked, hnew, hkeys⟩ := h.insert hlist hfs hdis hsize now hr hl hans
      rw [lookupRequest, parsesFor, hans, Option.bind_some, hpath hl]
      exact ⟨hstacked, hkeys, (if_neg hnew).symm⟩

/-! ## Evictions -/

omit hfs hdis hlist in
/-- Modules leave the cache, and the counter follows. -/
theorem Stacked.evicted (h : Stacked rd fs sources maxBytes s) (token : Option String) :
    Stacked rd fs sources maxBytes (s.cacheEvict token).2 := by
  have hevicted := SymbolCache.evicted_evict s.cache token
  exact {
    consistent := { h.consistent with cache := h.consistent.cache.evicted hevicted }
    named := fun d r hr k hk =>
      (congrArg (AList.lookup k) hevicted.aliases).trans
        (h.named d r (hevicted.peek d r hr) k hk)
    weighs := fun d r hr => h.weighs d r (hevicted.peek d r hr)
    accounted := SymbolCache.counts_evict (P := fun n t => n = t)
      (fun n t b hb hnt => by omega) rfl s.cache token h.accounted
    maxBytes_eq := hevicted.maxBytes.trans h.maxBytes_eq
    slots := by
      show _ ≤ (s.cache.evict token).2.resident.cap
      rw [hevicted.cap]
      exact h.slots }

/-- **An eviction** removes the id of the module that serves the token, or all of them. -/
theorem Stacked.keys_evict (h : Stacked rd fs sources maxBytes s) (token : Option String) :
    (s.cacheEvict token).2.cache.resident.keys
      = Recency.step (moduleBytes rd fs sources) maxBytes.toNat s.cache.resident.keys
          ((Op.cacheEvict token).request rd fs sources) := by
  cases token with
  | none => exact SymbolCache.keys_evictAllLoop s.cache.resident.len 0 s.cache (Nat.le_refl _)
  | some token =>
      show (s.cache.evict (some token)).2.resident.keys = _
      -- an id that is not resident cannot be removed
      have hother : s.cache.reached token = none →
          Recency.step (moduleBytes rd fs sources) maxBytes.toNat s.cache.resident.keys
            ((Op.cacheEvict (some token)).request rd fs sources) = s.cache.resident.keys := by
        intro hr
        rw [Op.request]
        cases hans : answerFor rd fs sources (canonicalToken token) with
        | notFound => rfl
        | error kind => rfl
        | module m =>
            refine List.erase_of_not_mem fun hmem => ?_
            obtain ⟨r, ha, hpeek⟩ := h.reached_of_mem hfs hdis hans hmem
            rw [SymbolCache.reached_eq_some.mpr ⟨_, ha, hpeek⟩] at hr
            cases hr
      rw [SymbolCache.evict]
      cases hd : s.cache.resolveDebugId token with
      | none => exact (hother (by rw [SymbolCache.reached, hd]; rfl)).symm
      | some d =>
          simp only
          cases hpop : s.cache.resident.pop d with
          | none =>
              have hpeek : s.cache.resident.peek d = none := Option.map_eq_none_iff.mp hpop
              exact (hother (by rw [SymbolCache.reached, hd, Option.bind_some, hpeek])).symm
          | some e =>
              obtain ⟨r, resident⟩ := e
              obtain ⟨hpeek, -⟩ := LruCache.pop_eq_some hpop
              have hans := h.answerFor_of_reached hlist hfs hdis
                (SymbolCache.reached_eq_some.mpr ⟨d, hd, hpeek⟩)
              obtain ⟨rfl, -⟩ := h.consistent.cache.resident d r hpeek
              rw [Op.request, hans]
              exact LruCache.keys_pop hpop

/-! ## Steps and runs -/

/-- **The step lemma**: what a call does to the stack is a matter of the sources alone. -/
theorem Stacked.stepIn (h : Stacked rd fs sources maxBytes s)
    (hsize : footprint (parsedModules rd fs sources) < 2 ^ 64) {i : UInt64 × Op}
    (hi : i.2.isWork = true) :
    Stacked rd fs sources maxBytes (stepIn rd fs s i) ∧
      (SymbolsState.stepIn rd fs s i).cache.resident.keys
        = Recency.step (moduleBytes rd fs sources) maxBytes.toNat s.cache.resident.keys
            (i.2.request rd fs sources) ∧
      attemptedPath rd fs s i
        = i.2.token?.bind (parsesFor rd fs sources s.cache.resident.keys) := by
  obtain ⟨now, op⟩ := i
  cases op with
  | resolve token addr =>
      have hpath : attemptedPath rd fs s (now, .resolve token addr) = _ := attemptedPath_eq rfl
      rw [hpath, SymbolsState.stepIn, step_resolve]
      exact h.looked hlist hfs hdis hsize (looked_lookup rd ⟨fs, now⟩ s token)
  | functionName token addr =>
      have hpath : attemptedPath rd fs s (now, .functionName token addr) = _ := attemptedPath_eq rfl
      rw [hpath, SymbolsState.stepIn, step_functionName]
      exact h.looked hlist hfs hdis hsize (looked_lookup rd ⟨fs, now⟩ s token)
  | cacheEvict token => exact ⟨h.evicted token, h.keys_evict hlist hfs hdis token, rfl⟩
  | addSource kind path url bucket enabled secret => cases hi
  | dropSource sourceId => cases hi
  | importManifest manifest => cases hi
  | restart maxBytes maxModules => cases hi

end Steps

/-- For a module the file is parsed if its id faults. -/
theorem parsesFor_of_module {keys : List String} {token : String} {m : ParsedModule}
    (hans : answerFor rd fs sources (canonicalToken token) = .module m) :
    parsesFor rd fs sources keys token =
      (Recency.fault keys (.use m.debugId)).bind fun _ =>
        (fileFor rd fs sources (canonicalToken token)).map Prod.fst := by
  simp only [parsesFor, hans, Recency.fault]
  by_cases hmem : m.debugId ∈ keys
  · rw [if_pos hmem, if_pos hmem, Option.bind_none]
  · rw [if_neg hmem, if_neg hmem, Option.bind_some]

/-- What is parsed with more ids resident is parsed with fewer. -/
theorem parsesFor_mono {keys keys' : List String} (h : keys ⊆ keys') {token : String}
    {path : PathBuf} (hp : parsesFor rd fs sources keys' token = some path) :
    parsesFor rd fs sources keys token = some path := by
  cases hans : answerFor rd fs sources (canonicalToken token) with
  | notFound => simp [parsesFor, hans] at hp
  | error kind => simpa [parsesFor, hans] using hp
  | module m =>
      rw [parsesFor_of_module hans] at hp ⊢
      obtain ⟨d, hfault, hpath⟩ := Option.bind_eq_some_iff.mp hp
      exact Option.bind_eq_some_iff.mpr ⟨d, Recency.fault_mono h hfault, hpath⟩

/-- **A larger byte budget never hurts.** Over fixed sources and unchanged files that share no
alias, with a slot for every module, the worker with the larger budget has resident at least what
the other has, in the same order of use, and parses a part of what the other parses. -/
theorem larger_budget (hlist : ListsReturn rd fs sources) (hfs : fs.Unchanged)
    (hdis : DisjointAliases rd fs sources)
    (hsize : footprint (parsedModules rd fs sources) < 2 ^ 64) {maxBytes maxBytes' : UInt64}
    (hle : maxBytes ≤ maxBytes') {maxModules maxModules' : Nat}
    (hslots : (parsedModules rd fs sources).length ≤ max maxModules 1)
    (hslots' : (parsedModules rd fs sources).length ≤ max maxModules' 1) (nextId : UInt64)
    {ops : List (UInt64 × Op)} (hops : ∀ i ∈ ops, i.2.isWork = true) :
    (runIn rd fs (registered maxBytes maxModules nextId sources) ops).cache.resident.keys
        <+: (runIn rd fs (registered maxBytes' maxModules' nextId sources)
          ops).cache.resident.keys ∧
      List.Sublist (attempts rd fs (registered maxBytes' maxModules' nextId sources) ops)
        (attempts rd fs (registered maxBytes maxModules nextId sources) ops) := by
  have hbudgets : maxBytes.toNat ≤ maxBytes'.toNat := UInt64.le_iff_toNat_le.mp hle
  have hstep : ∀ (s s' : SymbolsState) (i : UInt64 × Op),
      (Stacked rd fs sources maxBytes s ∧ Stacked rd fs sources maxBytes' s' ∧
        s.cache.resident.keys <+: s'.cache.resident.keys) → i.2.isWork = true →
      (∀ path, attemptedPath rd fs s' i = some path → attemptedPath rd fs s i = some path) ∧
        Stacked rd fs sources maxBytes (stepIn rd fs s i) ∧
        Stacked rd fs sources maxBytes' (stepIn rd fs s' i) ∧
        (stepIn rd fs s i).cache.resident.keys <+: (stepIn rd fs s' i).cache.resident.keys := by
    rintro s s' i ⟨h, h', hpre⟩ hi
    obtain ⟨hnext, hkeys, hparse⟩ := h.stepIn hlist hfs hdis hsize hi
    obtain ⟨hnext', hkeys', hparse'⟩ := h'.stepIn hlist hfs hdis hsize hi
    refine ⟨fun path hpath => ?_, hnext, hnext', ?_⟩
    · rw [hparse'] at hpath
      obtain ⟨token, htoken, hpath⟩ := Option.bind_eq_some_iff.mp hpath
      rw [hparse, htoken]
      exact parsesFor_mono hpre.subset hpath
    · rw [hkeys, hkeys']
      exact Recency.step_mono _ hbudgets hpre _
  obtain ⟨hparsed, -, -, hkeys⟩ := Run.emitted_sublist hstep
    ⟨stacked_registered nextId hslots, stacked_registered nextId hslots', List.prefix_refl []⟩ hops
  exact ⟨hkeys, hparsed⟩

/-- Two images of 17 bytes, one of which a budget of 20 bytes holds. -/
theorem larger_budget_twoGood :
    let sources := [StandIn.dirSource "src0" "d"]
    let ops : List (UInt64 × Op) :=
      [(0, .resolve (StandIn.token 0x11) 4), (1, .functionName (StandIn.token 0x22) 4),
        (2, .cacheEvict (some "absent")), (3, .resolve (StandIn.token 0x11) 4)]
    (runIn StandIn.readers StandIn.twoGood (registered 20 2 1 sources)
          ops).cache.resident.keys
        <+: (runIn StandIn.readers StandIn.twoGood (registered 40 2 1 sources)
          ops).cache.resident.keys ∧
      List.Sublist (attempts StandIn.readers StandIn.twoGood (registered 40 2 1 sources) ops)
        (attempts StandIn.readers StandIn.twoGood (registered 20 2 1 sources) ops) :=
  larger_budget (listsReturn_of_total StandIn.readers_total _)
    (StandIn.directory_unchanged _ _) StandIn.disjointAliases_twoGood
    (Nat.lt_of_le_of_lt StandIn.budgetsHold_twoGood.bytes (by decide)) (by decide)
    StandIn.budgetsHold_twoGood.modules StandIn.budgetsHold_twoGood.modules 1 (by decide)

end SymbolsState

end VgiSymbols
