import VgiSymbols.State.Lookup

set_option autoImplicit false

/-! # Runs over fixed sources and unchanged files

`answerFor` is the resolver without a cache: the first listed file that answers to a token is
read and parsed. `Consistent` is the invariant that ties a state to it: what is resident was
parsed from a first file, every alias comes from one, every miss is one, and the lazy index is
a part of the eager one. It holds along every run that leaves the sources alone
(`Consistent.runIn`).

What a consistent state answers need not be `answerFor`, since files may share aliases. The
result is relative to an observation of answers: when each file looks, through the observation,
like the first file of each of its aliases (`Coherent`), then every lookup does
(`Consistent.obs_looked`).
-/

namespace VgiSymbols

open Unwind

variable {rd : Readers} {fs : FileSystem} {sources : List SourceSpec}

/-! ## The uncached resolver -/

/-- The answer to a canonical token without a cache: the first listed file that answers to it,
read and parsed. -/
def answerFor (rd : Readers) (fs : FileSystem) (sources : List SourceSpec) (k : String) :
    Answer :=
  match (fileFor rd fs sources k).bind (SourceRegistry.readLocated fs k) with
  | none => .notFound
  | some located =>
      .ofParse (ParsedModule.parse rd located.data located.name Limits.default)

/-- The rows an uncached resolver returns. -/
def uncachedResolve (rd : Readers) (fs : FileSystem) (sources : List SourceSpec)
    (token : String) (addr : UInt64) : List ResolvedFrame :=
  (answerFor rd fs sources (canonicalToken token)).frames rd Limits.default addr

/-- The module is the parse of a file that is first for some token. -/
def Served (rd : Readers) (fs : FileSystem) (sources : List SourceSpec) (m : ParsedModule) :
    Prop :=
  ∃ k, answerFor rd fs sources k = .module m

theorem answerFor_of_fileFor_eq_none {k : String} (h : fileFor rd fs sources k = none) :
    answerFor rd fs sources k = .notFound := by
  rw [answerFor, h]
  rfl

/-- What the first file of a token holds, and how it reads. -/
theorem exists_of_fileFor (hfs : fs.Unchanged) {k : String} {entry : PathBuf × Bool}
    (h : fileFor rd fs sources k = some entry) :
    ∃ data identity name, fs.mapFile entry.1 = some data ∧
      probeIdentity rd data = .returned (.ok identity) ∧ k ∈ identity.aliases ∧
      fileName entry.1 = some name ∧
      ∀ k', SourceRegistry.readLocated fs k' entry
        = some ⟨data, name, if entry.2 then .glob (toStringLossy entry.1)
            else .dir (toStringLossy entry.1)⟩ := by
  obtain ⟨row, hrow, hk, rfl⟩ := Table.exists_of_firstMatch h
  obtain ⟨data, identity, name, hdata, hid, ha, hname⟩ := exists_of_row hrow
  refine ⟨data, identity, name, hdata, hid, ha ▸ hk, hname, fun k' => ?_⟩
  rw [SourceRegistry.readLocated, hfs _ _ hdata, hname]
  rfl

/-- The answer to a token is the parse of its first file. -/
theorem answerFor_eq (hfs : fs.Unchanged) {k : String} {entry : PathBuf × Bool} {data : Bytes}
    {name : String} (h : fileFor rd fs sources k = some entry)
    (hdata : fs.mapFile entry.1 = some data) (hname : fileName entry.1 = some name) :
    answerFor rd fs sources k = .ofParse (ParsedModule.parse rd data name Limits.default) := by
  obtain ⟨data', identity, name', hdata', -, -, hname', hread⟩ := exists_of_fileFor hfs h
  rw [hdata] at hdata'
  cases hdata'
  rw [hname] at hname'
  cases hname'
  rw [answerFor, h, Option.bind_some, hread]

/-- What a lookup located leads to the answer of the uncached resolver. -/
theorem answerFor_of_locate {reg reg' : SourceRegistry} (hsync : reg.Synced rd fs)
    {token : String} {located : Located}
    (h : reg.locate rd fs token = (.returned (some located), reg')) :
    answerFor rd fs reg.sources (canonicalToken token) =
      .ofParse (ParsedModule.parse rd located.data located.name Limits.default) := by
  rw [answerFor, SourceRegistry.bind_of_locate hsync h]

theorem fileFor_eq_none_of_absent (hfs : fs.Unchanged) {k : String}
    (h : (fileFor rd fs sources k).bind (SourceRegistry.readLocated fs k) = none) :
    fileFor rd fs sources k = none := by
  cases hf : fileFor rd fs sources k with
  | none => rfl
  | some entry =>
      obtain ⟨data, identity, name, -, -, -, -, hread⟩ := exists_of_fileFor hfs hf
      rw [hf, Option.bind_some, hread] at h
      cases h

theorem fileFor_eq_none_of_notFound (hfs : fs.Unchanged) {k : String}
    (h : answerFor rd fs sources k = .notFound) : fileFor rd fs sources k = none := by
  cases hf : fileFor rd fs sources k with
  | none => rfl
  | some entry =>
      obtain ⟨data, identity, name, hdata, -, -, hname, -⟩ := exists_of_fileFor hfs hf
      rw [answerFor_eq hfs hf hdata hname] at h
      cases hp : ParsedModule.parse rd data name Limits.default <;> rw [hp] at h <;> cases h

/-- A served module is the parse of a first file, whose aliases it has. -/
theorem exists_of_answerFor (hfs : fs.Unchanged) {k : String} {m : ParsedModule}
    (h : answerFor rd fs sources k = .module m) :
    ∃ entry data name, fileFor rd fs sources k = some entry ∧
      fs.mapFile entry.1 = some data ∧ fileName entry.1 = some name ∧
      ParsedModule.parse rd data name Limits.default = .ok m ∧
      probeIdentity rd data = .returned (.ok m.identity) := by
  cases hf : fileFor rd fs sources k with
  | none =>
      rw [answerFor_of_fileFor_eq_none hf] at h
      cases h
  | some entry =>
      obtain ⟨data, identity, name, hdata, -, -, hname, -⟩ := exists_of_fileFor hfs hf
      rw [answerFor_eq hfs hf hdata hname, Answer.ofParse_eq_module] at h
      exact ⟨entry, data, name, rfl, hdata, hname, h, ParsedModule.probeIdentity_of_parse h⟩

theorem mem_aliases_of_answerFor (hfs : fs.Unchanged) {k : String} {m : ParsedModule}
    (h : answerFor rd fs sources k = .module m) : k ∈ m.identity.aliases := by
  obtain ⟨entry, data, name, hf, hdata, -, -, hid⟩ := exists_of_answerFor hfs h
  obtain ⟨row, hrow, hk, rfl⟩ := Table.exists_of_firstMatch hf
  exact aliases_of_row hrow hdata hid ▸ hk

/-- The module of a file, if it parses. -/
def moduleAt (rd : Readers) (fs : FileSystem) (path : PathBuf) : Option ParsedModule := do
  let data ← fs.mapFile path
  let name ← fileName path
  (ParsedModule.parse rd data name Limits.default).toOption

theorem moduleAt_of_answerFor (hfs : fs.Unchanged) {k : String} {entry : PathBuf × Bool}
    {m : ParsedModule} (hf : fileFor rd fs sources k = some entry)
    (hm : answerFor rd fs sources k = .module m) : moduleAt rd fs entry.1 = some m := by
  obtain ⟨entry', data, name, hf', hdata, hname, hp, -⟩ := exists_of_answerFor hfs hm
  rw [hf] at hf'
  cases hf'
  rw [moduleAt, hdata, hname, Option.bind_eq_bind, Option.bind_some, Option.bind_eq_bind,
    Option.bind_some, hp]
  rfl

/-- When every listed file parses, no token is answered by an error. -/
theorem answerFor_ne_error (hfs : fs.Unchanged)
    (h : ∀ row ∈ fileRows rd fs sources, (moduleAt rd fs row.2.1).isSome = true) (k : String)
    (kind : ErrorKind) : answerFor rd fs sources k ≠ .error kind := by
  intro herr
  cases hf : fileFor rd fs sources k with
  | none =>
      rw [answerFor_of_fileFor_eq_none hf] at herr
      cases herr
  | some entry =>
      obtain ⟨data, identity, name, hdata, -, -, hname, -⟩ := exists_of_fileFor hfs hf
      obtain ⟨row, hrow, -, rfl⟩ := Table.exists_of_firstMatch hf
      have hrow' := h row hrow
      rw [answerFor_eq hfs hf hdata hname] at herr
      rw [moduleAt, hdata, hname, Option.bind_eq_bind, Option.bind_some, Option.bind_eq_bind,
        Option.bind_some] at hrow'
      cases hp : ParsedModule.parse rd data name Limits.default with
      | ok m =>
          rw [hp] at herr
          cases herr
      | error e =>
          rw [hp] at hrow'
          cases hrow'

/-! ## Coherent sources -/

/-- Through the observation, every module that is served looks like the answer to each of its
own aliases. -/
def Coherent {β : Type} (rd : Readers) (fs : FileSystem) (sources : List SourceSpec)
    (obs : Answer → β) : Prop :=
  ∀ m, Served rd fs sources m → ∀ k ∈ m.identity.aliases,
    obs (.module m) = obs (answerFor rd fs sources k)

/-- Distinct listed files share no alias. -/
def DisjointAliases (rd : Readers) (fs : FileSystem) (sources : List SourceSpec) : Prop :=
  ∀ row ∈ fileRows rd fs sources, ∀ row' ∈ fileRows rd fs sources,
    row.2.1 ≠ row'.2.1 → ∀ k ∈ row.1, k ∉ row'.1

/-- Files that share no alias are coherent under every observation. -/
theorem coherent_of_disjointAliases {β : Type} (hfs : fs.Unchanged)
    (hdis : DisjointAliases rd fs sources) (obs : Answer → β) :
    Coherent rd fs sources obs := by
  rintro m ⟨k₁, hk₁⟩ k hk
  obtain ⟨entry₁, data, name, hf₁, hdata, hname, -, hid⟩ := exists_of_answerFor hfs hk₁
  obtain ⟨row₁, hrow₁, -, rfl⟩ := Table.exists_of_firstMatch hf₁
  have haliases : k ∈ row₁.1 := aliases_of_row hrow₁ hdata hid ▸ hk
  -- the first file for `k` shares the alias `k` with the file of `m`, so it is that file
  obtain ⟨entry, hf⟩ := Table.firstMatch_isSome hrow₁ haliases
  obtain ⟨row, hrow, hmem, rfl⟩ := Table.exists_of_firstMatch hf
  have hpath : row.2.1 = row₁.2.1 := by
    by_contra hne
    exact hdis row hrow row₁ hrow₁ hne k hmem haliases
  rw [← hk₁, answerFor_eq hfs hf₁ hdata hname,
    answerFor_eq hfs hf (hpath ▸ hdata) (hpath ▸ hname)]

/-! ## Runs -/

/-- A state with the given sources registered, before its first lookup. -/
def SymbolsState.registered (maxBytes : UInt64) (maxModules : Nat) (nextId : UInt64)
    (sources : List SourceSpec) : SymbolsState :=
  { SymbolsState.withBudgets maxBytes maxModules with
    sources := { sources, nextId, index := ∅, indexed := ∅ } }

namespace SymbolsState

/-- `resolve` and `function_name`. -/
def Op.isLookup : Op → Bool
  | .resolve _ _ | .functionName _ _ => true
  | _ => false

/-- The operations that leave the source list alone: lookups, eviction, restarts. -/
def Op.keepsSources : Op → Bool
  | .resolve _ _ | .functionName _ _ | .cacheEvict _ | .restart _ _ => true
  | _ => false

theorem Op.keepsSources_of_isLookup {op : Op} (h : op.isLookup = true) :
    op.keepsSources = true := by
  cases op <;> first | rfl | cases h

/-- A step in an unchanging file system, at a given time. -/
def stepIn (rd : Readers) (fs : FileSystem) (s : SymbolsState) (i : UInt64 × Op) :
    SymbolsState :=
  step rd s (⟨fs, i.1⟩, i.2)

/-- The state after a run in an unchanging file system. -/
def runIn (rd : Readers) (fs : FileSystem) (s : SymbolsState) (ops : List (UInt64 × Op)) :
    SymbolsState :=
  Run.run (stepIn rd fs) s ops

/-- Registering one more source before the first lookup. -/
theorem exists_registered_step (rd : Readers) (maxBytes : UInt64) (maxModules : Nat)
    (nextId : UInt64) (sources : List SourceSpec) {i : World × Op}
    (hi : ∃ kind path url bucket enabled secret,
      i.2 = .addSource kind path url bucket enabled secret) :
    ∃ nextId' sources',
      step rd (registered maxBytes maxModules nextId sources) i
        = registered maxBytes maxModules nextId' sources' := by
  obtain ⟨kind, path, url, bucket, enabled, secret, hi⟩ := hi
  rw [step, hi]
  simp only [addSource, SourceRegistry.add]
  split
  · exact ⟨nextId, sources, rfl⟩
  · exact ⟨_, _, rfl⟩

/-- Registering sources one after the other in a fresh state leads to a registered state. -/
theorem exists_registered (rd : Readers) (maxBytes : UInt64) (maxModules : Nat)
    (ops : List (World × Op))
    (hops : ∀ i ∈ ops, ∃ kind path url bucket enabled secret,
      i.2 = .addSource kind path url bucket enabled secret) :
    ∃ nextId sources,
      runOps rd (withBudgets maxBytes maxModules) ops
        = registered maxBytes maxModules nextId sources := by
  -- For the induction the sources that are already there are arbitrary.
  have key : ∀ nextId sources, ∃ nextId' sources',
      runOps rd (registered maxBytes maxModules nextId sources) ops
        = registered maxBytes maxModules nextId' sources' := by
    induction ops with
    | nil => exact fun nextId sources => ⟨nextId, sources, rfl⟩
    | cons i ops ih =>
        intro nextId sources
        obtain ⟨nextId', sources', hstep⟩ :=
          exists_registered_step rd maxBytes maxModules nextId sources (hops i (by simp))
        obtain ⟨nextId'', sources'', h⟩ := ih (fun j hj => hops j (by simp [hj])) nextId' sources'
        refine ⟨nextId'', sources'', ?_⟩
        rw [runOps, Run.run_cons, hstep]
        exact h
  exact key 0 []

end SymbolsState

/-! ## The invariant -/

/-- The cache agrees with the sources. -/
structure SymbolCache.Consistent (rd : Readers) (fs : FileSystem) (sources : List SourceSpec)
    (c : SymbolCache) : Prop where
  /-- What is known to be missing has no file. -/
  negative : ∀ k ∈ c.negative, fileFor rd fs sources k = none
  /-- What is resident is served, and stored under its debug-id. -/
  resident : ∀ d r, c.resident.peek d = some r →
    r.module.debugId = d ∧ Served rd fs sources r.module
  /-- An alias is a debug-id itself, or comes from a served module. -/
  aliases : ∀ k d, c.aliases.lookup k = some d →
    d = k ∨ ∃ m, Served rd fs sources m ∧ k ∈ m.identity.aliases ∧ m.debugId = d
  /-- An entry has a canonical id; a miss has no file. -/
  entries : ∀ d e, c.entries.lookup d = some e →
    canonicalToken e.debugId = e.debugId ∧
      (e.miss = true → fileFor rd fs sources e.debugId = none)

/-- The state is that of a worker with these sources. -/
structure SymbolsState.Consistent (rd : Readers) (fs : FileSystem) (sources : List SourceSpec)
    (s : SymbolsState) : Prop where
  sources_eq : s.sources.sources = sources
  synced : s.sources.Synced rd fs
  limits_eq : s.limits = Limits.default
  cache : s.cache.Consistent rd fs sources

namespace SymbolCache

theorem consistent_new (maxBytes : UInt64) (maxModules : Nat) :
    (new maxBytes maxModules).Consistent rd fs sources where
  negative k hk := absurd hk (Finset.notMem_empty k)
  resident d r h := by cases h
  aliases k d h := by cases h
  entries d e h := by cases h

theorem Consistent.evicted {c c' : SymbolCache} (hc : c.Consistent rd fs sources)
    (h : Evicted c c') : c'.Consistent rd fs sources where
  negative k hk := hc.negative k (h.negative ▸ hk)
  resident d r hr := hc.resident d r (h.peek d r hr)
  aliases k d hd := hc.aliases k d (h.aliases ▸ hd)
  entries d e' he' := by
    obtain ⟨e, he, hid, hm⟩ := h.entries d e' he'
    rw [hid, hm]
    exact hc.entries d e he

theorem Consistent.touch {c : SymbolCache} (hc : c.Consistent rd fs sources) (now : UInt64)
    (token : String) : (c.touch now token).Consistent rd fs sources where
  negative k hk := hc.negative k (by simpa using hk)
  resident d r hr := by
    obtain ⟨r₀, hr₀, hm, -⟩ := exists_of_peek_touch hr
    rw [← hm]
    exact hc.resident d r₀ hr₀
  aliases k d hd := hc.aliases k d (by simpa using hd)
  entries d e he := hc.entries d e (by simpa using he)

theorem Consistent.recordMiss {c : SymbolCache} (hc : c.Consistent rd fs sources)
    (now : UInt64) {token : String}
    (h : fileFor rd fs sources (canonicalToken token) = none) :
    (c.recordMiss now token).Consistent rd fs sources where
  negative k hk := by
    rcases mem_negative_recordMiss.mp hk with rfl | hk
    · exact h
    · exact hc.negative k hk
  resident d r hr := hc.resident d r hr
  aliases k d hd := by
    -- A miss makes its token an alias of itself, unless it is an alias already.
    rw [lookup_aliases_recordMiss] at hd
    cases hk : c.aliases.lookup k with
    | some d' =>
        rw [hk, Option.some_or] at hd
        cases hd
        exact hc.aliases k d hk
    | none =>
        rw [hk, Option.none_or] at hd
        split at hd
        · next heq => exact Or.inl ((Option.some.inj hd).symm.trans heq.symm)
        · cases hd
  entries d e he := by
    rcases lookup_entries_recordMiss he with hd | ⟨rfl, rfl⟩
    · exact hc.entries d e hd
    · exact ⟨canonicalToken_idem token, fun _ => h⟩

theorem Consistent.insert {c : SymbolCache} (hc : c.Consistent rd fs sources) (now : UInt64)
    {m : ParsedModule} (origin : Origin) (hm : Served rd fs sources m) :
    (c.insert now m origin).2.Consistent rd fs sources where
  negative k hk := by
    rw [negative_insert] at hk
    exact hc.negative k (Finset.mem_of_mem_erase hk)
  resident d r hr := by
    by_cases hd : d = m.debugId
    · rw [hd, peek_insert_self] at hr
      cases hr
      exact ⟨hd.symm, hm⟩
    · exact hc.resident d r (peek_of_insert_ne hd hr)
  aliases k d hd := by
    rw [lookup_aliases_insert] at hd
    split at hd
    · next hk => exact Or.inr ⟨m, hm, hk, Option.some.inj hd⟩
    · exact hc.aliases k d hd
  entries d e' he' := by
    obtain ⟨e, he, hid, hmiss⟩ := entries_insert he'
    rw [hid, hmiss]
    split at he
    · obtain rfl := Option.some.inj he
      exact ⟨Identity.canonicalToken_debugIdStr _, fun h => by cases h⟩
    · exact hc.entries d e he

theorem Consistent.rehydrateEntry {c : SymbolCache} (hc : c.Consistent rd fs sources)
    {e : ManifestEntry} (hid : canonicalToken e.debugId = e.debugId)
    (hmiss : e.miss = true → fileFor rd fs sources e.debugId = none) :
    (c.rehydrateEntry e).Consistent rd fs sources where
  negative k hk := by
    rcases mem_negative_rehydrateEntry.mp hk with ⟨hm, rfl⟩ | hk
    · rw [hid]
      exact hmiss hm
    · exact hc.negative k hk
  resident d r hr := hc.resident d r hr
  aliases k d hd := by
    rw [lookup_aliases_rehydrateEntry, hid] at hd
    split at hd
    · next heq => exact Or.inl ((Option.some.inj hd).symm.trans heq.symm)
    · exact hc.aliases k d hd
  entries d e' he' := by
    rw [lookup_rehydrateEntry] at he'
    split at he'
    · cases he'
      exact ⟨hid, hmiss⟩
    · exact hc.entries d e' he'

/-- A manifest exported by a consistent cache rehydrates a fresh one consistently. -/
theorem Consistent.rehydrate {c : SymbolCache} (hc : c.Consistent rd fs sources)
    (specs : List SourceSpec) (maxBytes : UInt64) (maxModules : Nat) :
    ((new maxBytes maxModules).rehydrate (c.toManifest specs).1).Consistent rd fs sources := by
  refine rehydrate_induction
    (fun c₁ e h₁ (he : canonicalToken e.debugId = e.debugId ∧
      (e.miss = true → fileFor rd fs sources e.debugId = none)) => h₁.rehydrateEntry he.1 he.2)
    (consistent_new _ _) fun e' he' => ?_
  obtain ⟨d, e, he, hid, hm⟩ := entries_toManifest he'
  rw [hid, hm]
  exact hc.entries d e he

end SymbolCache

namespace SymbolsState

theorem consistent_registered (maxBytes : UInt64) (maxModules : Nat) (nextId : UInt64) :
    (registered maxBytes maxModules nextId sources).Consistent rd fs sources where
  sources_eq := rfl
  synced := SourceRegistry.Unindexed.synced ⟨rfl, rfl⟩
  limits_eq := rfl
  cache := SymbolCache.consistent_new _ _

theorem reached_registered (maxBytes : UInt64) (maxModules : Nat) (nextId : UInt64)
    (token : String) :
    (registered maxBytes maxModules nextId sources).cache.reached token = none := rfl

/-- In a fresh state a lookup that comes back has listed every source. -/
theorem listsReturn_of_looked_registered {maxBytes : UInt64} {maxModules : Nat}
    {nextId now : UInt64} {token : String} {attempt : Option Located} {answer : Answer}
    {s' : SymbolsState}
    (h : Looked rd ⟨fs, now⟩ (registered maxBytes maxModules nextId sources) token attempt
      (.returned answer) s') : ListsReturn rd fs sources := by
  have key : ∀ {o : Option Located} {reg : SourceRegistry},
      (registered maxBytes maxModules nextId sources).sources.locate rd fs token
        = (.returned o, reg) → ListsReturn rd fs sources := by
    intro o reg hl s hs hlocal
    refine SourceRegistry.listsReturn_of_locate hl s ?_ hlocal
    exact SourceRegistry.mem_pending_iff.mpr ⟨hs, hlocal, Finset.notMem_empty _⟩
  -- With an empty cache every lookup goes to the sources.
  cases h with
  | hit hr => cases hr
  | miss _ hm => exact absurd hm (Finset.notMem_empty _)
  | absent _ _ hl => exact key hl
  | failed _ _ hl _ => exact key hl
  | parsed _ _ hl _ _ => exact key hl
  | lost _ _ hl _ _ => exact key hl

/-- The located file is the first one that answers to the token, so the answer it leads to is
that of the uncached resolver. -/
theorem Consistent.answerFor_of_located {s : SymbolsState} (hs : s.Consistent rd fs sources)
    {token : String} {located : Located} {reg : SourceRegistry}
    (hl : s.sources.locate rd fs token = (.returned (some located), reg)) :
    answerFor rd fs sources (canonicalToken token) =
      .ofParse (ParsedModule.parse rd located.data located.name s.limits) := by
  have h := answerFor_of_locate hs.synced hl
  rwa [hs.sources_eq, ← hs.limits_eq] at h

/-- Its origin names it. -/
theorem Consistent.exists_entry_of_located {s : SymbolsState} (hs : s.Consistent rd fs sources)
    {token : String} {located : Located} {reg : SourceRegistry}
    (hl : s.sources.locate rd fs token = (.returned (some located), reg)) :
    ∃ entry, fileFor rd fs sources (canonicalToken token) = some entry ∧
      s.sources.indexedFile rd fs token = some entry.1 := by
  have hb := SourceRegistry.bind_of_locate hs.synced hl
  rw [hs.sources_eq] at hb
  obtain ⟨entry, hf, -⟩ := Option.bind_eq_some_iff.mp hb
  refine ⟨entry, hf, ?_⟩
  rw [SourceRegistry.indexedFile_eq hs.synced (SourceRegistry.listsReturn_of_locate hl),
    hs.sources_eq, hf, Option.map_some]

theorem Consistent.fileFor_eq_none (hfs : fs.Unchanged) {s : SymbolsState}
    (hs : s.Consistent rd fs sources) {token : String} {reg : SourceRegistry}
    (hl : s.sources.locate rd fs token = (.returned none, reg)) :
    fileFor rd fs sources (canonicalToken token) = none := by
  have hb := SourceRegistry.bind_of_locate hs.synced hl
  rw [hs.sources_eq] at hb
  exact fileFor_eq_none_of_absent hfs hb

section Steps

variable (hlist : ListsReturn rd fs sources)
include hlist

/-- What `locate` answers in a consistent state. -/
theorem Consistent.locate_eq {s : SymbolsState} (hs : s.Consistent rd fs sources)
    (token : String) :
    s.sources.locate rd fs token =
      (.returned ((fileFor rd fs sources (canonicalToken token)).bind
        (SourceRegistry.readLocated fs (canonicalToken token))),
        (s.sources.ensureIndexed rd fs).2) := by
  have hpending : ListsReturn rd fs s.sources.pending :=
    SourceRegistry.listsReturn_pending (hs.sources_eq ▸ hlist)
  have h := SourceRegistry.locate_eq hs.synced hpending token
  rwa [hs.sources_eq] at h

/-- Indexing keeps a state consistent, whatever consistent cache it is given. -/
theorem Consistent.indexed {s : SymbolsState} (hs : s.Consistent rd fs sources)
    {token : String} {o : Unwind (Option Located)} {reg : SourceRegistry}
    (hl : s.sources.locate rd fs token = (o, reg)) {c : SymbolCache}
    (hc : c.Consistent rd fs sources) :
    ({ s with sources := reg, cache := c } : SymbolsState).Consistent rd fs sources := by
  rw [hs.locate_eq hlist] at hl
  cases hl
  exact {
    sources_eq := (SourceRegistry.sources_ensureIndexed _).trans hs.sources_eq
    synced := SourceRegistry.synced_ensureIndexed hs.synced
      (SourceRegistry.listsReturn_pending (hs.sources_eq ▸ hlist))
    limits_eq := hs.limits_eq
    cache := hc }

variable (hfs : fs.Unchanged)
include hfs

/-- A lookup keeps the state consistent. -/
theorem Consistent.looked {s s' : SymbolsState} (hs : s.Consistent rd fs sources)
    {now : UInt64} {token : String} {attempt : Option Located} {out : Unwind Answer}
    (h : Looked rd ⟨fs, now⟩ s token attempt out s') : s'.Consistent rd fs sources := by
  cases h with
  | hit hr => exact { hs with cache := hs.cache.touch now token }
  | miss hr hm => exact hs
  | unwound hr hm hl => exact hs.indexed hlist hl hs.cache
  | absent hr hm hl =>
      exact hs.indexed hlist hl (hs.cache.recordMiss now (hs.fileFor_eq_none hfs hl))
  | failed hr hm hl hp => exact hs.indexed hlist hl hs.cache
  | parsed hr hm hl hp hr' =>
      have hserved := hs.answerFor_of_located hl
      rw [hp] at hserved
      exact hs.indexed hlist hl ((hs.cache.insert now _ ⟨_, hserved⟩).touch now token)
  | lost hr hm hl hp hr' =>
      have hserved := hs.answerFor_of_located hl
      rw [hp] at hserved
      exact hs.indexed hlist hl (hs.cache.insert now _ ⟨_, hserved⟩)

/-- **Every lookup in a consistent state answers like the uncached resolver**, through an
observation for which the sources are coherent. -/
theorem Consistent.obs_looked {β : Type} {obs : Answer → β}
    (hobs : Coherent rd fs sources obs) {s s' : SymbolsState} (hs : s.Consistent rd fs sources)
    {now : UInt64} {token : String} {attempt : Option Located} {out : Unwind Answer}
    (h : Looked rd ⟨fs, now⟩ s token attempt out s') :
    ∃ answer, out = .returned answer ∧
      obs answer = obs (answerFor rd fs sources (canonicalToken token)) := by
  cases h with
  | hit hr =>
      -- token, alias, debug-id: each link is an alias of a served module
      refine ⟨_, rfl, ?_⟩
      obtain ⟨d, ha, hd⟩ := SymbolCache.reached_eq_some.mp hr
      obtain ⟨rfl, hserved⟩ := hs.cache.resident _ _ hd
      have hself := hobs _ hserved _ (Identity.debugIdStr_mem_aliases _)
      rcases hs.cache.aliases _ _ ha with heq | ⟨m, hm, hk, hid⟩
      · rw [hself, ← heq]
        rfl
      · have h₁ := hobs m hm _ hk
        have h₂ := hobs m hm _ (Identity.debugIdStr_mem_aliases _)
        rw [hself, ← h₁, h₂]
        exact congrArg (fun d => obs (answerFor rd fs sources d)) hid.symm
  | miss hr hm =>
      refine ⟨_, rfl, ?_⟩
      rw [answerFor_of_fileFor_eq_none (hs.cache.negative _ hm)]
  | unwound hr hm hl =>
      rw [hs.locate_eq hlist] at hl
      cases hl
  | absent hr hm hl =>
      refine ⟨_, rfl, ?_⟩
      rw [answerFor_of_fileFor_eq_none (hs.fileFor_eq_none hfs hl)]
  | failed hr hm hl hp =>
      refine ⟨_, rfl, ?_⟩
      rw [hs.answerFor_of_located hl, hp]
      rfl
  | parsed hr hm hl hp hr' =>
      -- The token is an alias of the module parsed for it, so it reaches that module.
      refine ⟨_, rfl, ?_⟩
      have hserved := hs.answerFor_of_located hl
      rw [hp] at hserved
      rw [SymbolCache.reached_insert_of_mem (mem_aliases_of_answerFor hfs hserved)] at hr'
      cases hr'
      rw [hserved]
      rfl
  | lost hr hm hl hp hr' =>
      -- For the same reason the module cannot be out of reach.
      have hserved := hs.answerFor_of_located hl
      rw [hp] at hserved
      rw [SymbolCache.reached_insert_of_mem (mem_aliases_of_answerFor hfs hserved)] at hr'
      cases hr'

theorem Consistent.stepIn {s : SymbolsState} (hs : s.Consistent rd fs sources)
    {i : UInt64 × Op} (hi : i.2.keepsSources = true) :
    (stepIn rd fs s i).Consistent rd fs sources := by
  obtain ⟨now, op⟩ := i
  cases op with
  | resolve token addr =>
      rw [SymbolsState.stepIn, step_resolve]
      exact hs.looked hlist hfs (looked_lookup _ _ _ _)
  | functionName token addr =>
      rw [SymbolsState.stepIn, step_functionName]
      exact hs.looked hlist hfs (looked_lookup _ _ _ _)
  | cacheEvict token =>
      exact { hs with cache := hs.cache.evicted (SymbolCache.evicted_evict _ _) }
  | restart maxBytes maxModules =>
      exact {
        sources_eq := hs.sources_eq
        synced := SourceRegistry.Unindexed.synced ⟨rfl, rfl⟩
        limits_eq := rfl
        cache := hs.cache.rehydrate _ _ _ }
  | addSource kind path url bucket enabled secret => cases hi
  | dropSource sourceId => cases hi
  | importManifest manifest => cases hi

/-- After the first lookup of a module, each of its aliases leads to it. -/
theorem Consistent.exists_reached_of_looked {s s' : SymbolsState}
    (hs : s.Consistent rd fs sources) {now : UInt64} {token : String}
    {attempt : Option Located} {out : Unwind Answer}
    (h : Looked rd ⟨fs, now⟩ s token attempt out s') {m : ParsedModule}
    (hm : answerFor rd fs sources (canonicalToken token) = .module m)
    (hr : s.cache.reached token = none) {k : String} (hk : k ∈ m.identity.aliases) :
    ∃ r, s'.cache.reached k = some r ∧ r.module = m := by
  have hk' : canonicalToken k ∈ m.identity.aliases := by
    rwa [Identity.canonicalToken_of_mem_aliases hk]
  -- The token has a module to serve it and reaches none, so the lookup parsed it.
  cases h with
  | hit hr' => rw [hr] at hr'; cases hr'
  | miss _ hmiss =>
      rw [answerFor_of_fileFor_eq_none (hs.cache.negative _ hmiss)] at hm
      cases hm
  | unwound _ _ hl =>
      rw [hs.locate_eq hlist] at hl
      cases hl
  | absent _ _ hl =>
      rw [answerFor_of_fileFor_eq_none (hs.fileFor_eq_none hfs hl)] at hm
      cases hm
  | failed _ _ hl hp =>
      rw [hs.answerFor_of_located hl, hp] at hm
      cases hm
  | parsed _ _ hl hp _ =>
      rw [hs.answerFor_of_located hl, hp] at hm
      cases hm
      exact SymbolCache.exists_reached_touch (SymbolCache.reached_insert_of_mem hk') _ _
  | lost _ _ hl hp _ =>
      rw [hs.answerFor_of_located hl, hp] at hm
      cases hm
      exact ⟨_, SymbolCache.reached_insert_of_mem hk', rfl⟩

/-- Every run that leaves the sources alone is consistent. -/
theorem Consistent.runIn {s : SymbolsState} (hs : s.Consistent rd fs sources)
    {ops : List (UInt64 × Op)} (hops : ∀ i ∈ ops, i.2.keepsSources = true) :
    (runIn rd fs s ops).Consistent rd fs sources :=
  Run.invariant_run (fun _ _ h hi => h.stepIn hlist hfs hi) hs
    (Run.MeetsAlong.of_forall_mem hops s)

end Steps

end SymbolsState

end VgiSymbols
