import VgiSymbols.Source.Contents
import VgiSymbols.State.Alike

set_option autoImplicit false

/-! # What a hostile file can do

Parsing and resolving are guarded: a reader that panics there becomes an error row. Probing is
not: it runs while a source is indexed, for the sake of any lookup that reaches the sources.
`lookup_returns_iff` says exactly which lookups come back. When they do, the bytes of a file do not
show in the answers for the tokens of other files: not in any run that never names the file
(`trace_sameBut`), and, if files that share aliases look alike, in no run over fixed sources
(`unaffected_of_coherent`).
-/

namespace VgiSymbols

open Unwind

variable {rd : Readers} {fs : FileSystem} {sources : List SourceSpec}

/-! ## Probes that come back -/

/-- No file that the enabled local sources visit makes the probe panic. -/
def ProbesReturn (rd : Readers) (fs : FileSystem) (sources : List SourceSpec) : Prop :=
  ∀ s ∈ sources, s.isLocal = true → ∀ path ∈ s.walk fs, ∀ data, fs.mapFile path = some data →
    (probeIdentity rd data).Returns

theorem aliasesOf_returns_iff {path : PathBuf} :
    (aliasesOf rd fs path).Returns ↔
      ∀ data, fs.mapFile path = some data → (probeIdentity rd data).Returns := by
  unfold aliasesOf
  cases fs.mapFile path with
  | none => simp
  | some data =>
      constructor
      · rintro ⟨ix, h⟩ data' hdata
        cases hdata
        obtain ⟨r, hr, -⟩ := bind_eq_returned.mp h
        exact ⟨r, hr⟩
      · intro h
        apply Returns.bind (h data rfl)
        intro r
        cases r <;> exact returns_returned _

/-- Listing comes back exactly when every probe does. -/
theorem probesReturn_iff : ProbesReturn rd fs sources ↔ ListsReturn rd fs sources :=
  forall₃_congr fun _ _ _ => by
    rw [returns_list_iff]
    exact forall₂_congr fun _ _ => aliasesOf_returns_iff.symm

/-! ## The answers without one file -/

theorem answerFor_without (h : ListsReturn rd fs sources) {p : PathBuf} {k : String}
    (hk : ∀ entry, fileFor rd fs sources k = some entry → entry.1 ≠ p) :
    answerFor rd (fs.without p) sources k = answerFor rd fs sources k := by
  have hread : (fileFor rd fs sources k).bind
      (SourceRegistry.readLocated (fs.without p) k)
        = (fileFor rd fs sources k).bind (SourceRegistry.readLocated fs k) := by
    cases hf : fileFor rd fs sources k with
    | none => rfl
    | some entry =>
        show SourceRegistry.readLocated (fs.without p) k entry
          = SourceRegistry.readLocated fs k entry
        have hne : (fs.without p).read entry.1 = fs.read entry.1 := if_neg (hk entry hf)
        rw [SourceRegistry.readLocated, hne, SourceRegistry.readLocated]
  rw [answerFor, fileFor_without h hk, hread, answerFor]

namespace SymbolsState

/-! ## Lookups that come back -/

theorem lookup_returns_iff (w : World) (s : SymbolsState) (token : String) :
    (s.lookup rd w token).1.Returns ↔
      s.cache.isResident token = true ∨ s.cache.isKnownMiss token = true ∨
        ProbesReturn rd w.fs s.sources.pending := by
  rw [probesReturn_iff]
  have hlooked := looked_lookup rd w s token
  generalize s.parseAttempt rd w token = attempt at hlooked
  generalize (s.lookup rd w token).1 = out at hlooked ⊢
  generalize (s.lookup rd w token).2 = s' at hlooked
  cases hlooked with
  | hit hr =>
      exact iff_of_true (returns_returned _) (Or.inl (SymbolCache.isResident_iff.mpr ⟨_, hr⟩))
  | miss hr hm =>
      exact iff_of_true (returns_returned _)
        (Or.inr (Or.inl (SymbolCache.isKnownMiss_iff.mpr hm)))
  | unwound hr hm hl =>
      -- The only outcome that is no answer: listing the sources panicked.
      apply iff_of_false not_returns_panicked
      rintro (hres | hmiss | hlist)
      · rw [SymbolCache.isResident_eq, hr] at hres
        cases hres
      · exact hm (SymbolCache.isKnownMiss_iff.mp hmiss)
      · have hret : (s.sources.locate rd w.fs token).1.Returns :=
          SourceRegistry.locate_returns_iff.mpr hlist
        rw [hl] at hret
        exact not_returns_panicked hret
  | absent hr hm hl =>
      exact iff_of_true (returns_returned _)
        (Or.inr (Or.inr (SourceRegistry.listsReturn_of_locate hl)))
  | failed hr hm hl hp =>
      exact iff_of_true (returns_returned _)
        (Or.inr (Or.inr (SourceRegistry.listsReturn_of_locate hl)))
  | parsed hr hm hl hp hr' =>
      exact iff_of_true (returns_returned _)
        (Or.inr (Or.inr (SourceRegistry.listsReturn_of_locate hl)))
  | lost hr hm hl hp hr' =>
      exact iff_of_true (returns_returned _)
        (Or.inr (Or.inr (SourceRegistry.listsReturn_of_locate hl)))

/-! ## The answers for other files -/

/-- What a client sees of an answer: its rows and its name, at every address. -/
def observed (rd : Readers) (answer : Answer) : UInt64 → List ResolvedFrame × Option String :=
  fun addr => (answer.frames rd Limits.default addr, answer.functionName rd addr)

/-- The bytes of the file `p` do not show in the answers for the tokens of other files: they are
what they would be without these bytes, whatever was looked up, evicted or restarted before. -/
def Unaffected (rd : Readers) (fs : FileSystem) (sources : List SourceSpec) (p : PathBuf) :
    Prop :=
  ∀ (maxBytes : UInt64) (maxModules : Nat) (nextId : UInt64) (ops ops' : List (UInt64 × Op)),
    (∀ i ∈ ops, i.2.keepsSources = true) → (∀ i ∈ ops', i.2.keepsSources = true) →
    ∀ (now : UInt64) (token : String) (addr : UInt64),
      (∀ entry ∈ fileFor rd fs sources (canonicalToken token), entry.1 ≠ p) →
      let s := runIn rd fs (registered maxBytes maxModules nextId sources) ops
      let s' := runIn rd (fs.without p) (registered maxBytes maxModules nextId sources) ops'
      (s.resolve rd ⟨fs, now⟩ token addr).1
          = (s'.resolve rd ⟨fs.without p, now⟩ token addr).1 ∧
        (s.functionName rd ⟨fs, now⟩ token addr).1
          = (s'.functionName rd ⟨fs.without p, now⟩ token addr).1

/-- What a lookup answers in a consistent state, to a client. -/
theorem Consistent.observed_eq (hlist : ListsReturn rd fs sources) (hfs : fs.Unchanged)
    (hobs : Coherent rd fs sources (observed rd)) {s : SymbolsState}
    (hs : s.Consistent rd fs sources) (now : UInt64) (token : String) (addr : UInt64) :
    (s.resolve rd ⟨fs, now⟩ token addr).1 = .returned
        (observed rd (answerFor rd fs sources (canonicalToken token)) addr).1 ∧
      (s.functionName rd ⟨fs, now⟩ token addr).1 = .returned
        (observed rd (answerFor rd fs sources (canonicalToken token)) addr).2 := by
  obtain ⟨answer, hout, hanswer⟩ :=
    hs.obs_looked hlist hfs hobs (looked_lookup rd ⟨fs, now⟩ s token)
  rw [resolve_eq_lookup, functionName_eq_lookup, hout, hs.limits_eq, ← hanswer]
  exact ⟨rfl, rfl⟩

theorem unaffected_of_coherent (hfs : fs.Unchanged) (hlist : ListsReturn rd fs sources)
    {p : PathBuf} (hobs : Coherent rd fs sources (observed rd))
    (hobs' : Coherent rd (fs.without p) sources (observed rd)) :
    Unaffected rd fs sources p := by
  intro maxBytes maxModules nextId ops ops' hops hops' now token addr hk
  have hlist' := listsReturn_without hlist p
  have hfs' := hfs.without p
  have hs := ((consistent_registered maxBytes maxModules nextId).runIn hlist hfs
    hops).observed_eq hlist hfs hobs now token addr
  have hs' := ((consistent_registered maxBytes maxModules nextId).runIn hlist' hfs'
    hops').observed_eq hlist' hfs' hobs' now token addr
  rw [answerFor_without hlist hk] at hs'
  exact ⟨hs.1.trans hs'.1.symm, hs.2.trans hs'.2.symm⟩

/-! ## Runs that do not name a file -/

/-- The states have the same cache, and registries that agree off `K`. -/
structure SameOff (p : PathBuf) (K : Set String) (s s' : SymbolsState) : Prop where
  cache : s.cache = s'.cache
  limits : s.limits = s'.limits
  sources : s.sources.AgreeOff p K s'.sources

/-- The same call, in worlds that differ in the contents of the file `p` at most: in both its probe
comes back and derives names in `K` only, and the call looks none of them up. -/
structure SameCall (rd : Readers) (p : PathBuf) (K : Set String) (i i' : World × Op) : Prop where
  op : i.2 = i'.2
  now : i.1.now = i'.1.now
  fs : i.1.fs.SameBut p i'.1.fs
  names : NamedIn rd i.1.fs p K
  names' : NamedIn rd i'.1.fs p K
  asked : ∀ token ∈ i.2.token?, canonicalToken token ∉ K

section SameOff

variable {fs' : FileSystem} {p : PathBuf} {K : Set String} {s s' : SymbolsState}

theorem SameOff.lookup (h : SameOff p K s s') (hfs : fs.SameBut p fs') (hp : NamedIn rd fs p K)
    (hp' : NamedIn rd fs' p K) (now : UInt64) {token : String} (hk : canonicalToken token ∉ K) :
    (s.lookup rd ⟨fs, now⟩ token).1 = (s'.lookup rd ⟨fs', now⟩ token).1 ∧
      SameOff p K (s.lookup rd ⟨fs, now⟩ token).2 (s'.lookup rd ⟨fs', now⟩ token).2 := by
  obtain ⟨hlocate, hnext⟩ := h.sources.locate hfs hp hp' hk
  obtain ⟨out, r, r', c', hsame, hs, hs'⟩ :=
    lookup_of_locate now s.cache s.limits h.sources hlocate hnext
  have heq : s' = ⟨s'.sources, s.cache, s.limits⟩ := by rw [h.cache, h.limits]
  have hs : s.lookup rd ⟨fs, now⟩ token = (out, ⟨r, c', s.limits⟩) := hs
  have hs' : s'.lookup rd ⟨fs', now⟩ token = (out, ⟨r', c', s.limits⟩) := by
    rw [heq]
    exact hs'
  rw [hs, hs']
  exact ⟨rfl, rfl, rfl, hsame⟩

theorem sameOff_importManifest (hcache : s.cache = s'.cache) (hlimits : s.limits = s'.limits)
    (hnext : s.sources.nextId = s'.sources.nextId) (manifest : CacheManifest) :
    SameOff p K (s.importManifest manifest) (s'.importManifest manifest) where
  cache := congrArg (SymbolCache.rehydrate · manifest) hcache
  limits := hlimits
  sources := SourceRegistry.agreeOff_restore hnext manifest.sources

/-- **The step lemma.** Such a call replies the same, whatever `p` holds. -/
theorem SameOff.step (h : SameOff p K s s') {i i' : World × Op} (hi : SameCall rd p K i i') :
    reply rd s i = reply rd s' i' ∧ SameOff p K (step rd s i) (step rd s' i') := by
  obtain ⟨⟨fs, now⟩, op⟩ := i
  obtain ⟨⟨fs', now'⟩, op'⟩ := i'
  obtain ⟨hop, hnow, hfs, hp, hp', hasked⟩ := hi
  obtain rfl : op = op' := hop
  obtain rfl : now = now' := hnow
  cases op with
  | addSource kind path url bucket enabled secret =>
      obtain ⟨hadded, hadd⟩ := h.sources.add kind path url bucket enabled secret
      refine ⟨?_, ?_, ?_, ?_⟩
      · simp only [reply, addSource_fst, hadded]
      · rw [SymbolsState.step, SymbolsState.step, cache_addSource, cache_addSource]
        exact h.cache
      · rw [SymbolsState.step, SymbolsState.step, limits_addSource, limits_addSource]
        exact h.limits
      · rw [SymbolsState.step, SymbolsState.step, sources_addSource, sources_addSource]
        exact hadd
  | dropSource sourceId =>
      obtain ⟨hfound, hdrop⟩ := h.sources.dropSource sourceId
      exact ⟨congrArg Reply.dropped hfound, h.cache, h.limits, hdrop⟩
  | resolve token addr =>
      obtain ⟨hout, hnext⟩ := h.lookup hfs hp hp' now (hasked token rfl)
      rw [step_resolve, step_resolve]
      refine ⟨?_, hnext⟩
      simp only [reply, resolve_eq_lookup, hout, h.limits]
  | functionName token addr =>
      obtain ⟨hout, hnext⟩ := h.lookup hfs hp hp' now (hasked token rfl)
      rw [step_functionName, step_functionName]
      refine ⟨?_, hnext⟩
      simp only [reply, functionName_eq_lookup, hout]
  | cacheEvict token =>
      refine ⟨?_, ?_, h.limits, h.sources⟩
      · show Reply.freed (s.cache.evict token).1 = Reply.freed (s'.cache.evict token).1
        rw [h.cache]
      · show (s.cache.evict token).2 = (s'.cache.evict token).2
        rw [h.cache]
  | importManifest manifest =>
      exact ⟨rfl, sameOff_importManifest h.cache h.limits h.sources.nextId manifest⟩
  | restart maxBytes maxModules =>
      have hmanifest : s.exportManifest.1 = s'.exportManifest.1 := by
        show (s.cache.toManifest s.sources.sources).1 = (s'.cache.toManifest s'.sources.sources).1
        rw [h.cache, h.sources.sources]
      refine ⟨rfl, ?_⟩
      show SameOff p K ((withBudgets maxBytes maxModules).importManifest s.exportManifest.1)
        ((withBudgets maxBytes maxModules).importManifest s'.exportManifest.1)
      rw [hmanifest]
      exact sameOff_importManifest rfl rfl rfl _

/-- A file that is never named does not show in a run. -/
theorem trace_sameBut (p : PathBuf) (K : Set String) {ops ops' : List (World × Op)}
    (hops : List.Forall₂ (SameCall rd p K) ops ops') (maxBytes : UInt64) (maxModules : Nat) :
    Run.trace (SymbolsState.step rd) (reply rd) (withBudgets maxBytes maxModules) ops
      = Run.trace (SymbolsState.step rd) (reply rd) (withBudgets maxBytes maxModules) ops' := by
  have hstart : SameOff p K (withBudgets maxBytes maxModules) (withBudgets maxBytes maxModules) :=
    ⟨rfl, rfl, SourceRegistry.agreeOff_of_empty rfl⟩
  exact (Run.trace_eq (C := fun _ _ => True) (fun _ _ _ _ h hi _ => h.step hi) hstart hops
    (Run.MeetsAlong.of_forall (fun _ _ => trivial) _ _)).1

end SameOff

/-- **What contains a hostile file.** In every state, a lookup comes back exactly when its token
is resident or a known miss, or no file of a source that is yet to be indexed makes the probe
panic. When no file of the sources does, and files that share aliases look alike, the bytes of a
file do not show in the answers for the tokens of other files. And in every run they do not show
in any reply, if they do not make the probe panic and no call names the file. -/
theorem lookup_contained (rd : Readers) :
    (∀ (s : SymbolsState) (w : World) (token : String) (addr : UInt64),
      ((s.resolve rd w token addr).1.Returns ∧ (s.functionName rd w token addr).1.Returns) ↔
        s.cache.isResident token = true ∨ s.cache.isKnownMiss token = true ∨
          ProbesReturn rd w.fs s.sources.pending) ∧
      (∀ (fs : FileSystem) (sources : List SourceSpec) (p : PathBuf), fs.Unchanged →
        ProbesReturn rd fs sources → Coherent rd fs sources (observed rd) →
        Coherent rd (fs.without p) sources (observed rd) → Unaffected rd fs sources p) ∧
      ∀ (p : PathBuf) (K : Set String) (ops ops' : List (World × Op)),
        List.Forall₂ (SameCall rd p K) ops ops' → ∀ (maxBytes : UInt64) (maxModules : Nat),
          Run.trace (step rd) (reply rd) (withBudgets maxBytes maxModules) ops
            = Run.trace (step rd) (reply rd) (withBudgets maxBytes maxModules) ops' := by
  refine ⟨?_, ?_, fun p K _ _ hops => trace_sameBut p K hops⟩
  · intro s w token addr
    rw [resolve_returns_iff, functionName_returns_iff, and_self]
    exact lookup_returns_iff w s token
  · intro fs sources p hfs hprobe hobs hobs'
    exact unaffected_of_coherent hfs (probesReturn_iff.mp hprobe) hobs hobs'

/-- An image that panics when its frames are looked up was resolved before, and a session that does
not name it. -/
theorem lookup_contained_goodAndHostile :
    let s := runIn StandIn.readers (StandIn.goodAndHostile 4)
      (registered 4096 4 1 [StandIn.dirSource "src0" "d"])
      [(0, .resolve (StandIn.token 0x22) 4), (1, .functionName (StandIn.token 0x22) 4)]
    let s' := runIn StandIn.readers ((StandIn.goodAndHostile 4).without "d/b")
      (registered 4096 4 1 [StandIn.dirSource "src0" "d"]) []
    let ops (fs : FileSystem) : List (World × Op) :=
      [(⟨fs, 0⟩, .addSource "dir" (some "d") none none none none),
        (⟨fs, 1⟩, .resolve (StandIn.token 0x11) 4), (⟨fs, 2⟩, .cacheEvict none),
        (⟨fs, 3⟩, .functionName (StandIn.token 0x11) 4)]
    ((s.resolve StandIn.readers ⟨StandIn.goodAndHostile 4, 2⟩ (StandIn.token 0x11) 4).1
        = (s'.resolve StandIn.readers ⟨(StandIn.goodAndHostile 4).without "d/b", 2⟩
          (StandIn.token 0x11) 4).1 ∧
      (s.functionName StandIn.readers ⟨StandIn.goodAndHostile 4, 2⟩ (StandIn.token 0x11) 4).1
        = (s'.functionName StandIn.readers ⟨(StandIn.goodAndHostile 4).without "d/b", 2⟩
          (StandIn.token 0x11) 4).1) ∧
    Run.trace (step StandIn.readers) (reply StandIn.readers) (withBudgets 4096 4)
        (ops (StandIn.goodAndHostile 4))
      = Run.trace (step StandIn.readers) (reply StandIn.readers) (withBudgets 4096 4)
        (ops ((StandIn.goodAndHostile 4).without "d/b")) := by
  obtain ⟨-, hunaffected, htrace⟩ := lookup_contained StandIn.readers
  have hfs : (StandIn.goodAndHostile 4).Unchanged := StandIn.directory_unchanged _ _
  constructor
  · refine hunaffected _ _ "d/b" hfs
      (probesReturn_iff.mpr (listsReturn_of_total StandIn.readers_total _))
      (coherent_of_disjointAliases hfs ?_ _) (coherent_of_disjointAliases (hfs.without _) ?_ _)
      4096 4 1 _ _ (by decide) (by decide) 2 (StandIn.token 0x11) 4 (by decide +kernel)
    · unfold DisjointAliases
      decide +kernel
    · unfold DisjointAliases
      decide +kernel
  · let names : List String := [StandIn.token 0x22, StandIn.token 0x22 ++ "0"]
    have hprobe : aliasesOf StandIn.readers (StandIn.goodAndHostile 4) "d/b"
        = .returned (some ⟨names, "d/b"⟩) := by decide +kernel
    have hnames : NamedIn StandIn.readers (StandIn.goodAndHostile 4) "d/b" {k | k ∈ names} := by
      refine ⟨_, hprobe, fun ix hix k hk => ?_⟩
      cases hix
      exact hk
    have hsame (now : UInt64) (op : Op) (hop : ∀ t ∈ op.token?, canonicalToken t ∉ names) :
        SameCall StandIn.readers "d/b" {k | k ∈ names} (⟨StandIn.goodAndHostile 4, now⟩, op)
          (⟨(StandIn.goodAndHostile 4).without "d/b", now⟩, op) :=
      ⟨rfl, rfl, FileSystem.sameBut_without _ _, hnames, namedIn_without _ _ _, hop⟩
    exact htrace "d/b" {k | k ∈ names} _ _
      (.cons (hsame 0 (.addSource ..) (by decide))
        (.cons (hsame 1 (.resolve _ _) (by decide +kernel))
          (.cons (hsame 2 (.cacheEvict _) (by decide))
            (.cons (hsame 3 (.functionName _ _) (by decide +kernel)) .nil)))) 4096 4

/-- A file that panics when it is probed takes the lookups of its neighbours down. -/
theorem not_lookup_contained_goodAndHostile :
    ¬ ∀ (ops : List (World × Op)) (w : World) (token : String) (addr : UInt64),
      let s := runOps StandIn.hostileReaders new ops
      (s.resolve StandIn.hostileReaders w token addr).1.Returns ∧
        (s.functionName StandIn.hostileReaders w token addr).1.Returns := by
  intro h
  have h₁ := h [(⟨StandIn.goodAndHostile 5, 0⟩, .addSource "dir" (some "d") none none none none)]
    ⟨StandIn.goodAndHostile 5, 1⟩ (StandIn.token 0x11) 4
  revert h₁
  decide +kernel

end SymbolsState

end VgiSymbols
