import VgiSymbols.Cache.Accounting
import VgiSymbols.Source.Interrupted
import VgiSymbols.State.Consistent
import Mathlib.Algebra.Order.BigOperators.Group.List
import Mathlib.Algebra.Order.Group.Nat

set_option autoImplicit false

/-! # Each file is parsed once, unless it does not parse

`attempts` is the list of the files a run of lookups hands to the parser. When the budgets hold
every module of the sources, a parsed file leaves a resident module and an alias for each of
its tokens, so it is never parsed again. A file that fails to parse leaves nothing, and every
lookup of its tokens parses it once more: `attempts_nodup_iff` says that this is the only way.
-/

namespace VgiSymbols

open Unwind

variable {rd : Readers} {fs : FileSystem} {sources : List SourceSpec}

/-! ## The files that can be located -/

/-- The files that are first for one of their aliases, the only ones a lookup locates. -/
def firstFiles (rd : Readers) (fs : FileSystem) (sources : List SourceSpec) : List PathBuf :=
  (((fileRows rd fs sources).flatMap fun row => row.1).filterMap fun k =>
    (fileFor rd fs sources k).map fun entry => entry.1).dedup

theorem mem_firstFiles {k : String} {entry : PathBuf × Bool}
    (h : fileFor rd fs sources k = some entry) : entry.1 ∈ firstFiles rd fs sources := by
  obtain ⟨row, hrow, hk, -⟩ := Table.exists_of_firstMatch h
  refine List.mem_dedup.mpr (List.mem_filterMap.mpr ⟨k, ?_, by rw [h, Option.map_some]⟩)
  exact List.mem_flatMap.mpr ⟨row, hrow, hk⟩

/-- The modules a run can parse. -/
def parsedModules (rd : Readers) (fs : FileSystem) (sources : List SourceSpec) :
    List ParsedModule :=
  (firstFiles rd fs sources).filterMap (moduleAt rd fs)

/-- What the modules of a list account for. -/
def footprint (modules : List ParsedModule) : Nat :=
  (modules.map fun m => m.residentBytes.toNat).sum

theorem footprint_concat (modules : List ParsedModule) (m : ParsedModule) :
    footprint (modules ++ [m]) = footprint modules + m.residentBytes.toNat := by
  simp [footprint]

/-- The budgets hold every module that can be parsed. -/
structure BudgetsHold (rd : Readers) (fs : FileSystem) (sources : List SourceSpec)
    (maxBytes : UInt64) (maxModules : Nat) : Prop where
  bytes : footprint (parsedModules rd fs sources) ≤ maxBytes.toNat
  modules : (parsedModules rd fs sources).length ≤ max maxModules 1

instance (rd : Readers) (fs : FileSystem) (sources : List SourceSpec) (maxBytes : UInt64)
    (maxModules : Nat) : Decidable (BudgetsHold rd fs sources maxBytes maxModules) :=
  decidable_of_iff (footprint (parsedModules rd fs sources) ≤ maxBytes.toNat ∧
      (parsedModules rd fs sources).length ≤ max maxModules 1)
    ⟨fun h => ⟨h.1, h.2⟩, fun h => ⟨h.bytes, h.modules⟩⟩

/-- Then they hold the modules of any distinct files among those. -/
theorem BudgetsHold.of_subset {maxBytes : UInt64} {maxModules : Nat}
    (h : BudgetsHold rd fs sources maxBytes maxModules) {seen : List PathBuf}
    (hnodup : seen.Nodup) (hseen : seen ⊆ firstFiles rd fs sources) :
    footprint (seen.filterMap (moduleAt rd fs)) ≤ maxBytes.toNat ∧
      (seen.filterMap (moduleAt rd fs)).length ≤ max maxModules 1 := by
  obtain ⟨l, hperm, hsub⟩ := List.subperm_of_subset hnodup hseen
  have hperm' := hperm.filterMap (moduleAt rd fs)
  have hsub' := hsub.filterMap (moduleAt rd fs)
  constructor
  · calc footprint (seen.filterMap (moduleAt rd fs))
        = footprint (l.filterMap (moduleAt rd fs)) := ((hperm'.map _).sum_eq).symm
      _ ≤ footprint (parsedModules rd fs sources) :=
        (hsub'.map _).sum_le_sum fun _ _ => Nat.zero_le _
      _ ≤ maxBytes.toNat := h.bytes
  · rw [← hperm'.length_eq]
    exact hsub'.length_le.trans h.modules

namespace SymbolsState

/-! ## Attempts to parse -/

/-- The file a step hands to the parser, if any. -/
def attemptedPath (rd : Readers) (fs : FileSystem) (s : SymbolsState) (i : UInt64 × Op) :
    Option PathBuf := do
  let token ← i.2.token?
  let _ ← s.parseAttempt rd ⟨fs, i.1⟩ token
  s.sources.indexedFile rd fs token

/-- The files a run hands to the parser, in order. -/
def attempts (rd : Readers) (fs : FileSystem) (s : SymbolsState) (ops : List (UInt64 × Op)) :
    List PathBuf :=
  Run.emitted (stepIn rd fs) (attemptedPath rd fs) s ops

theorem attemptedPath_eq {s : SymbolsState} {i : UInt64 × Op} {token : String}
    (hi : i.2.token? = some token) :
    attemptedPath rd fs s i
      = (s.parseAttempt rd ⟨fs, i.1⟩ token).bind fun _ => s.sources.indexedFile rd fs token := by
  rw [attemptedPath, hi]
  rfl

theorem Op.exists_token_of_isLookup {op : Op} (h : op.isLookup = true) :
    ∃ token, op.token? = some token := by
  cases op <;> first | exact ⟨_, rfl⟩ | cases h

/-! ## Parsed files stay -/

/-- Where a run stands that has parsed the files `seen`: each of them answers to all its tokens,
and the cache holds no more than their modules. -/
structure Once (rd : Readers) (fs : FileSystem) (sources : List SourceSpec) (maxBytes : UInt64)
    (maxModules : Nat) (seen : List PathBuf) (s : SymbolsState) : Prop where
  consistent : s.Consistent rd fs sources
  maxBytes_eq : s.cache.maxBytes = maxBytes
  cap_eq : s.cache.resident.cap = max maxModules 1
  nodup : seen.Nodup
  reached : ∀ path ∈ seen, ∃ k entry m, fileFor rd fs sources k = some entry ∧ entry.1 = path ∧
    answerFor rd fs sources k = .module m ∧
    ∀ k' ∈ m.identity.aliases, ∃ r, s.cache.reached k' = some r
  bytes : s.cache.residentBytes.toNat ≤ footprint (seen.filterMap (moduleAt rd fs))
  len : s.cache.resident.len ≤ (seen.filterMap (moduleAt rd fs)).length

variable {maxBytes : UInt64} {maxModules : Nat} {seen : List PathBuf} {s s' : SymbolsState}

theorem once_registered (nextId : UInt64) :
    Once rd fs sources maxBytes maxModules []
      (registered maxBytes maxModules nextId sources) where
  consistent := consistent_registered _ _ _
  maxBytes_eq := rfl
  cap_eq := rfl
  nodup := List.nodup_nil
  reached _ h := by cases h
  bytes := Nat.le_refl _
  len := Nat.le_refl _

/-- A step that keeps what is reached and adds no module parses nothing. -/
theorem Once.kept (h : Once rd fs sources maxBytes maxModules seen s)
    (hs' : s'.Consistent rd fs sources) (hmax : s'.cache.maxBytes = s.cache.maxBytes)
    (hcap : s'.cache.resident.cap = s.cache.resident.cap)
    (hbytes : s'.cache.residentBytes = s.cache.residentBytes)
    (hlen : s'.cache.resident.len = s.cache.resident.len)
    (hreached : ∀ t r, s.cache.reached t = some r → ∃ r', s'.cache.reached t = some r') :
    Once rd fs sources maxBytes maxModules seen s' where
  consistent := hs'
  maxBytes_eq := hmax.trans h.maxBytes_eq
  cap_eq := hcap.trans h.cap_eq
  nodup := h.nodup
  reached path hpath := by
    obtain ⟨k, entry, m, hf, hentry, hm, hk⟩ := h.reached path hpath
    refine ⟨k, entry, m, hf, hentry, hm, fun k' hk' => ?_⟩
    obtain ⟨r, hr⟩ := hk k' hk'
    exact hreached k' r hr
  bytes := hbytes ▸ h.bytes
  len := hlen ▸ h.len

theorem Once.touch (h : Once rd fs sources maxBytes maxModules seen s) (now : UInt64)
    (token : String) :
    Once rd fs sources maxBytes maxModules seen (s.touch ⟨fs, now⟩ token) :=
  h.kept { h.consistent with cache := h.consistent.cache.touch now token }
    (SymbolCache.maxBytes_touch _ _ _) (SymbolCache.cap_touch _ _ _)
    (SymbolCache.residentBytes_touch _ _ _) (SymbolCache.len_touch _ _ _) fun t r hr => by
      obtain ⟨r', hr', -⟩ := SymbolCache.exists_reached_touch hr now token
      exact ⟨r', hr'⟩

section Steps

variable (hlist : ListsReturn rd fs sources) (hfs : fs.Unchanged)
  (hbudget : BudgetsHold rd fs sources maxBytes maxModules)
include hfs

/-- A token that reaches nothing belongs to no file that was parsed. -/
theorem Once.notMem (h : Once rd fs sources maxBytes maxModules seen s) {token : String}
    {entry : PathBuf × Bool} (hf : fileFor rd fs sources (canonicalToken token) = some entry)
    (hr : s.cache.reached token = none) : entry.1 ∉ seen := by
  intro hmem
  obtain ⟨k, entry', m, hf', hentry, hm, hall⟩ := h.reached _ hmem
  obtain ⟨row, hrow, htoken, rfl⟩ := Table.exists_of_firstMatch hf
  obtain ⟨row', hrow', -, rfl⟩ := Table.exists_of_firstMatch hf'
  -- both rows name one path, so the token is an alias of the module
  have haliases : row.1 = m.identity.aliases := by
    obtain ⟨entry₁, data, name, hf₁, hdata, -, -, hid⟩ := exists_of_answerFor hfs hm
    rw [hf'] at hf₁
    cases hf₁
    rw [aliases_eq_of_path_eq hrow hrow' hentry.symm]
    exact aliases_of_row hrow' hdata hid
  obtain ⟨r, hr'⟩ := hall _ (haliases ▸ htoken)
  rw [SymbolCache.reached, SymbolCache.resolveDebugId, canonicalToken_idem] at hr'
  rw [SymbolCache.reached, SymbolCache.resolveDebugId, hr'] at hr
  cases hr

include hbudget

/-- There is room for the module of a new file, in both budgets. -/
theorem Once.room (h : Once rd fs sources maxBytes maxModules seen s) {k : String}
    {entry : PathBuf × Bool} {m : ParsedModule} (hf : fileFor rd fs sources k = some entry)
    (hm : answerFor rd fs sources k = .module m) (hnew : entry.1 ∉ seen) (now : UInt64)
    (origin : Origin) :
    (seen ++ [entry.1]).Nodup ∧ (s.cache.store now m origin).residentBytes ≤ s.cache.maxBytes ∧
      s.cache.resident.len < s.cache.resident.cap := by
  have hnodup : (seen ++ [entry.1]).Nodup := by
    refine List.nodup_append.mpr ⟨h.nodup, List.nodup_singleton _, fun a ha b hb hab => ?_⟩
    rw [List.mem_singleton.mp hb] at hab
    exact hnew (hab ▸ ha)
  have hsub : seen ++ [entry.1] ⊆ firstFiles rd fs sources := by
    intro path hpath
    rcases List.mem_append.mp hpath with hpath | hpath
    · obtain ⟨k', entry', -, hf', rfl, -⟩ := h.reached path hpath
      exact mem_firstFiles hf'
    · rw [List.mem_singleton.mp hpath]
      exact mem_firstFiles hf
  obtain ⟨hbytes, hlen⟩ := hbudget.of_subset hnodup hsub
  rw [List.filterMap_append, List.filterMap_cons_some (moduleAt_of_answerFor hfs hf hm),
    List.filterMap_nil] at hbytes hlen
  rw [footprint_concat] at hbytes
  rw [List.length_append, List.length_singleton] at hlen
  refine ⟨hnodup, ?_, ?_⟩
  · rw [UInt64.le_iff_toNat_le, h.maxBytes_eq]
    calc (s.cache.store now m origin).residentBytes.toNat
        ≤ s.cache.residentBytes.toNat + m.residentBytes.toNat :=
          SymbolCache.residentBytes_store_le _ _ _ _
      _ ≤ footprint (seen.filterMap (moduleAt rd fs)) + m.residentBytes.toNat :=
          Nat.add_le_add_right h.bytes _
      _ ≤ maxBytes.toNat := hbytes
  · have := h.len
    rw [h.cap_eq]
    omega

/-- Parsing a new file keeps all modules. -/
theorem Once.insert (h : Once rd fs sources maxBytes maxModules seen s) {k : String}
    {entry : PathBuf × Bool} {m : ParsedModule} (hf : fileFor rd fs sources k = some entry)
    (hm : answerFor rd fs sources k = .module m) (hnew : entry.1 ∉ seen) (now : UInt64)
    (origin : Origin) {reg : SourceRegistry}
    (hs' : ({ s with sources := reg, cache := (s.cache.insert now m origin).2 } :
      SymbolsState).Consistent rd fs sources) :
    Once rd fs sources maxBytes maxModules (seen ++ [entry.1])
      { s with sources := reg, cache := (s.cache.insert now m origin).2 } := by
  obtain ⟨hnodup, hwithin, hroom⟩ := h.room hfs hbudget hf hm hnew now origin
  have hmodules : (seen ++ [entry.1]).filterMap (moduleAt rd fs)
      = seen.filterMap (moduleAt rd fs) ++ [m] := by
    rw [List.filterMap_append, List.filterMap_cons_some (moduleAt_of_answerFor hfs hf hm),
      List.filterMap_nil]
  exact {
    consistent := hs'
    maxBytes_eq := (SymbolCache.maxBytes_insert _ _ _ _).trans h.maxBytes_eq
    cap_eq := (SymbolCache.cap_insert _ _ _ _).trans h.cap_eq
    nodup := hnodup
    reached := fun path hpath => by
      rcases List.mem_append.mp hpath with hpath | hpath
      · -- a file parsed before: nothing it is reached by is lost
        obtain ⟨k', entry', m', hf', hentry, hm', hreached⟩ := h.reached path hpath
        refine ⟨k', entry', m', hf', hentry, hm', fun t ht => ?_⟩
        obtain ⟨r, hr⟩ := hreached t ht
        exact SymbolCache.exists_reached_insert hwithin hroom hr
      · refine ⟨k, entry, m, hf, (List.mem_singleton.mp hpath).symm, hm, fun t ht => ?_⟩
        have ht' : canonicalToken t ∈ m.identity.aliases := by
          rwa [Identity.canonicalToken_of_mem_aliases ht]
        exact ⟨_, SymbolCache.reached_insert_of_mem ht'⟩
    bytes := by
      rw [hmodules, footprint_concat]
      show (s.cache.insert now m origin).2.residentBytes.toNat ≤ _
      rw [SymbolCache.insert_eq_store hwithin]
      calc (s.cache.store now m origin).residentBytes.toNat
          ≤ s.cache.residentBytes.toNat + m.residentBytes.toNat :=
            SymbolCache.residentBytes_store_le _ _ _ _
        _ ≤ _ := Nat.add_le_add_right h.bytes _
    len := by
      rw [hmodules, List.length_append, List.length_singleton]
      calc (s.cache.insert now m origin).2.resident.len
          ≤ s.cache.resident.len + 1 := SymbolCache.len_insert_le hwithin
        _ ≤ _ := Nat.add_le_add_right h.len 1 }

include hlist

/-- The file a lookup parses is new, and all its tokens are answered from then on. -/
theorem Once.parsed (h : Once rd fs sources maxBytes maxModules seen s) (now : UInt64)
    {token : String} {located : Located} {reg : SourceRegistry} {m : ParsedModule}
    (hr : s.cache.reached token = none)
    (hl : s.sources.locate rd fs token = (.returned (some located), reg))
    (hp : ParsedModule.parse rd located.data located.name s.limits = .ok m) :
    ∃ path, s.sources.indexedFile rd fs token = some path ∧ path ∉ seen ∧
      Once rd fs sources maxBytes maxModules (seen ++ [path])
        { s with sources := reg, cache := (s.cache.insert now m located.origin).2 } := by
  obtain ⟨entry, hf, hpath⟩ := h.consistent.exists_entry_of_located hl
  have hans : answerFor rd fs sources (canonicalToken token) = .module m := by
    rw [h.consistent.answerFor_of_located hl, hp]
    rfl
  have hnew : entry.1 ∉ seen := h.notMem hfs hf hr
  have hcache := h.consistent.cache.insert now located.origin ⟨_, hans⟩
  exact ⟨entry.1, hpath, hnew, h.insert hfs hbudget hf hans hnew now located.origin
    (h.consistent.indexed hlist hl hcache)⟩

/-- **One lookup**: the file it parses is new, and is parsed for good. -/
theorem Once.looked (hparse : ∀ k kind, answerFor rd fs sources k ≠ .error kind)
    (h : Once rd fs sources maxBytes maxModules seen s) {now : UInt64} {token : String}
    {attempt : Option Located} {out : Unwind Answer}
    (hlooked : Looked rd ⟨fs, now⟩ s token attempt out s') :
    (∀ path, (attempt.bind fun _ => s.sources.indexedFile rd fs token) = some path →
        path ∉ seen) ∧
      Once rd fs sources maxBytes maxModules
        (seen ++ (attempt.bind fun _ => s.sources.indexedFile rd fs token).toList) s' := by
  have hcons := h.consistent.looked hlist hfs hlooked
  have hnone : ∀ {s₁}, Once rd fs sources maxBytes maxModules seen s₁ →
      (∀ path, (none : Option PathBuf) = some path → path ∉ seen) ∧
        Once rd fs sources maxBytes maxModules (seen ++ (none : Option PathBuf).toList) s₁ :=
    fun h₁ => ⟨fun _ hp => (by cases hp), by simpa using h₁⟩
  cases hlooked with
  | hit hr => exact hnone (h.touch now token)
  | miss hr hm => exact hnone h
  | unwound hr hm hl =>
      rw [h.consistent.locate_eq hlist] at hl
      cases hl
  | absent hr hm hl =>
      exact hnone (h.kept hcons rfl rfl rfl rfl fun t r hr' =>
        ⟨r, SymbolCache.reached_recordMiss_of_reached hr' _ _⟩)
  | failed hr hm hl hp =>
      have herr := h.consistent.answerFor_of_located hl
      rw [hp] at herr
      exact absurd herr (hparse _ _)
  | parsed hr hm hl hp hr' =>
      obtain ⟨path, hpath, hnew, honce⟩ := h.parsed hlist hfs hbudget now hr hl hp
      rw [Option.bind_some, hpath]
      exact ⟨fun path' heq => Option.some.inj heq ▸ hnew, honce.touch now token⟩
  | lost hr hm hl hp hr' =>
      obtain ⟨path, hpath, hnew, honce⟩ := h.parsed hlist hfs hbudget now hr hl hp
      rw [Option.bind_some, hpath]
      exact ⟨fun path' heq => Option.some.inj heq ▸ hnew, honce⟩

end Steps

/-- When listing comes back and every token is answered without an error, no run parses a file
twice. -/
theorem attempts_nodup_of_parses (hlist : ListsReturn rd fs sources) (hfs : fs.Unchanged)
    (hbudget : BudgetsHold rd fs sources maxBytes maxModules)
    (hparse : ∀ k kind, answerFor rd fs sources k ≠ .error kind) (nextId : UInt64)
    {ops : List (UInt64 × Op)} (hops : ∀ i ∈ ops, i.2.isLookup = true) :
    (attempts rd fs (registered maxBytes maxModules nextId sources) ops).Nodup := by
  have key : ∀ seen s i, Once rd fs sources maxBytes maxModules seen s →
      i.2.isLookup = true →
      (∀ path, attemptedPath rd fs s i = some path → path ∉ seen) ∧
        Once rd fs sources maxBytes maxModules
          (seen ++ (attemptedPath rd fs s i).toList) (stepIn rd fs s i) := by
    intro seen s i h hi
    obtain ⟨token, htoken⟩ := Op.exists_token_of_isLookup hi
    rw [attemptedPath_eq htoken, stepIn, step_of_token_eq_some (i := (⟨fs, i.1⟩, i.2)) htoken]
    exact h.looked hlist hfs hbudget hparse (looked_lookup rd ⟨fs, i.1⟩ s token)
  have h := Run.nodup_emitted (stepIn rd fs) (attemptedPath rd fs)
    (C := fun i => i.2.isLookup = true)
    (fun seen s i path h hi => (key seen s i h hi).1 path) (fun seen s i h hi =>
      (key seen s i h hi).2) List.nodup_nil (once_registered nextId) hops
  rwa [List.nil_append] at h

/-! ## Sources that cannot be listed -/

/-- While a pending source cannot be listed, a lookup parses nothing, and the source stays
pending. -/
theorem not_listsReturn_looked
    (hids : ((sources.filter SourceSpec.isLocal).map SourceSpec.sourceId).Nodup)
    (hs : s.sources.sources = sources) (h : ¬ ListsReturn rd fs s.sources.pending) {now : UInt64}
    {token : String} {attempt : Option Located} {out : Unwind Answer}
    (hlooked : Looked rd ⟨fs, now⟩ s token attempt out s') :
    attempt = none ∧ s'.sources.sources = sources ∧ ¬ ListsReturn rd fs s'.sources.pending := by
  cases hlooked with
  | hit hr => exact ⟨rfl, hs, h⟩
  | miss hr hm => exact ⟨rfl, hs, h⟩
  | unwound hr hm hl =>
      rw [SourceRegistry.locate_panicked h] at hl
      cases hl
      exact ⟨rfl, (SourceRegistry.sources_ensureIndexed _).trans hs,
        SourceRegistry.not_listsReturn_ensureIndexed (hs.symm ▸ hids) h⟩
  | absent hr hm hl => exact absurd (SourceRegistry.listsReturn_of_locate hl) h
  | failed hr hm hl hp => exact absurd (SourceRegistry.listsReturn_of_locate hl) h
  | parsed hr hm hl hp hr' => exact absurd (SourceRegistry.listsReturn_of_locate hl) h
  | lost hr hm hl hp hr' => exact absurd (SourceRegistry.listsReturn_of_locate hl) h

theorem attempts_nodup_of_not_listsReturn
    (hids : ((sources.filter SourceSpec.isLocal).map SourceSpec.sourceId).Nodup)
    (hlist : ¬ ListsReturn rd fs sources) (nextId : UInt64) {ops : List (UInt64 × Op)}
    (hops : ∀ i ∈ ops, i.2.isLookup = true) :
    (attempts rd fs (registered maxBytes maxModules nextId sources) ops).Nodup := by
  have key : ∀ (s : SymbolsState) (i : UInt64 × Op), s.sources.sources = sources →
      ¬ ListsReturn rd fs s.sources.pending → i.2.isLookup = true →
      attemptedPath rd fs s i = none ∧ (stepIn rd fs s i).sources.sources = sources ∧
        ¬ ListsReturn rd fs (stepIn rd fs s i).sources.pending := by
    intro s i hs h hi
    obtain ⟨token, htoken⟩ := Op.exists_token_of_isLookup hi
    obtain ⟨hnone, hrest⟩ :=
      not_listsReturn_looked hids hs h (looked_lookup rd ⟨fs, i.1⟩ s token)
    rw [attemptedPath_eq htoken, stepIn, step_of_token_eq_some (i := (⟨fs, i.1⟩, i.2)) htoken,
      hnone]
    exact ⟨rfl, hrest⟩
  have hpending : ¬ ListsReturn rd fs
      (registered maxBytes maxModules nextId sources).sources.pending := by
    refine fun h => hlist fun spec hspec hlocal => h spec (List.mem_filter.mpr ⟨hspec, ?_⟩) hlocal
    simp [hlocal, registered]
  have h := Run.nodup_emitted (stepIn rd fs) (attemptedPath rd fs)
    (C := fun i => i.2.isLookup = true)
    (J := fun seen s => seen = [] ∧ s.sources.sources = sources ∧
      ¬ ListsReturn rd fs s.sources.pending)
    (fun seen s i path h hi _ => h.1 ▸ List.not_mem_nil) (fun seen s i h hi => ?_) List.nodup_nil
    ⟨rfl, rfl, hpending⟩ hops
  · rwa [List.nil_append] at h
  · obtain ⟨rfl, hs, hp⟩ := h
    obtain ⟨hnone, hrest⟩ := key s i hs hp hi
    rw [hnone]
    exact ⟨rfl, hrest⟩

/-! ## Files that do not parse -/

/-- A lookup whose first file does not parse hands it to the parser and leaves the cache as it
was. -/
theorem Consistent.looked_of_error (hlist : ListsReturn rd fs sources) (hfs : fs.Unchanged)
    (hs : s.Consistent rd fs sources) {now : UInt64} {token : String} {kind : ErrorKind}
    (herr : answerFor rd fs sources (canonicalToken token) = .error kind)
    (hr : s.cache.reached token = none) {attempt : Option Located} {out : Unwind Answer}
    (hlooked : Looked rd ⟨fs, now⟩ s token attempt out s') :
    ∃ entry, fileFor rd fs sources (canonicalToken token) = some entry ∧
      (attempt.bind fun _ => s.sources.indexedFile rd fs token) = some entry.1 ∧
      s'.cache = s.cache := by
  have habsent : fileFor rd fs sources (canonicalToken token) ≠ none := by
    intro hf
    rw [answerFor_of_fileFor_eq_none hf] at herr
    cases herr
  have hok : ∀ {located : Located} {reg : SourceRegistry} {m : ParsedModule},
      s.sources.locate rd fs token = (.returned (some located), reg) →
      ParsedModule.parse rd located.data located.name s.limits ≠ .ok m := by
    intro located reg m hl hp
    rw [hs.answerFor_of_located hl, hp] at herr
    cases herr
  cases hlooked with
  | hit hr' =>
      rw [hr] at hr'
      cases hr'
  | miss _ hm => exact absurd (hs.cache.negative _ hm) habsent
  | unwound _ _ hl =>
      rw [hs.locate_eq hlist] at hl
      cases hl
  | absent _ _ hl => exact absurd (hs.fileFor_eq_none hfs hl) habsent
  | failed _ _ hl hp =>
      obtain ⟨entry, hf, hpath⟩ := hs.exists_entry_of_located hl
      exact ⟨entry, hf, hpath, rfl⟩
  | parsed _ _ hl hp _ => exact absurd hp (hok hl)
  | lost _ _ hl hp _ => exact absurd hp (hok hl)

/-- Two lookups of such a token parse its file twice. -/
theorem not_nodup_of_error (hlist : ListsReturn rd fs sources) (hfs : fs.Unchanged) {k : String}
    {kind : ErrorKind} (herr : answerFor rd fs sources k = .error kind) (nextId : UInt64) :
    ¬ (attempts rd fs (registered maxBytes maxModules nextId sources)
      [(0, .resolve k 0), (0, .resolve k 0)]).Nodup := by
  have hs₀ : (registered maxBytes maxModules nextId sources).Consistent rd fs sources :=
    consistent_registered maxBytes maxModules nextId
  have hk : canonicalToken k = k := by
    cases hf : fileFor rd fs sources k with
    | none =>
        rw [answerFor_of_fileFor_eq_none hf] at herr
        cases herr
    | some entry =>
        obtain ⟨-, identity, -, -, -, hmem, -⟩ := exists_of_fileFor hfs hf
        exact Identity.canonicalToken_of_mem_aliases hmem
  rw [← hk] at herr
  have h₀ := looked_lookup rd ⟨fs, 0⟩ (registered maxBytes maxModules nextId sources) k
  have hs₁ := hs₀.looked hlist hfs h₀
  obtain ⟨entry, hf, hp₀, hcache⟩ :=
    hs₀.looked_of_error hlist hfs herr (reached_registered _ _ _ _) h₀
  have h₁ := looked_lookup rd ⟨fs, 0⟩
    ((registered maxBytes maxModules nextId sources).lookup rd ⟨fs, 0⟩ k).2 k
  obtain ⟨entry', hf', hp₁, -⟩ :=
    hs₁.looked_of_error hlist hfs herr (hcache ▸ reached_registered _ _ _ _) h₁
  rw [hf] at hf'
  cases hf'
  have htoken : Op.token? (.resolve k 0) = some k := rfl
  rw [attempts, Run.emitted, Run.emitted, Run.emitted, attemptedPath_eq htoken, hp₀, stepIn,
    step_resolve, attemptedPath_eq htoken, hp₁]
  simp

/-- **Exactly when no run of lookups parses a file twice**, under budgets that hold every module:
when no file that is first for a token fails to parse. (A source that cannot be listed keeps
every lookup from parsing. The registry numbers its sources, so ids are distinct.) -/
theorem attempts_nodup_iff (hfs : fs.Unchanged)
    (hids : ((sources.filter SourceSpec.isLocal).map SourceSpec.sourceId).Nodup)
    (hbudget : BudgetsHold rd fs sources maxBytes maxModules) (nextId : UInt64) :
    (∀ ops : List (UInt64 × Op), (∀ i ∈ ops, i.2.isLookup = true) →
      (attempts rd fs (registered maxBytes maxModules nextId sources) ops).Nodup) ↔
      (ListsReturn rd fs sources → ∀ k kind, answerFor rd fs sources k ≠ .error kind) := by
  constructor
  · intro h hlist k kind herr
    exact not_nodup_of_error hlist hfs herr nextId
      (h _ (by simp [Op.isLookup]))
  · intro h ops hops
    by_cases hlist : ListsReturn rd fs sources
    · exact attempts_nodup_of_parses hlist hfs hbudget (h hlist) nextId hops
    · exact attempts_nodup_of_not_listsReturn hids hlist nextId hops

/-- Two images of one debug-id, looked up under all their names. -/
theorem attempts_nodup_sharedPrefix :
    (attempts StandIn.readers StandIn.sharedPrefix
      (registered 4096 4 1 [StandIn.dirSource "src0" "d"])
      [(0, .resolve (StandIn.rawToken 0xaa) 4), (1, .resolve (StandIn.rawToken 0xbb) 4),
        (2, .functionName (StandIn.token 0x11 ++ "0") 4),
        (3, .resolve (StandIn.rawToken 0xaa) 4)]).Nodup :=
  (attempts_nodup_iff (StandIn.directory_unchanged _ _) (by decide) (by decide +kernel) 1).mpr
    (fun _ => answerFor_ne_error (StandIn.directory_unchanged _ _) (by decide +kernel)) _
    (by decide)

/-- The image that does not parse is parsed for every frame that names it. -/
theorem not_attempts_nodup_goodAndBad :
    BudgetsHold StandIn.readers StandIn.goodAndBad [StandIn.dirSource "src0" "d"] 4096 4 ∧
    ¬ ∀ ops : List (UInt64 × Op), (∀ i ∈ ops, i.2.isLookup = true) →
      (attempts StandIn.readers StandIn.goodAndBad
        (registered 4096 4 1 [StandIn.dirSource "src0" "d"]) ops).Nodup := by
  refine ⟨by decide +kernel, fun h => ?_⟩
  have h₁ := h [(0, .resolve (StandIn.token 0x22) 4), (1, .resolve (StandIn.token 0x22) 8)]
    (by decide)
  revert h₁
  decide +kernel

end SymbolsState

end VgiSymbols
