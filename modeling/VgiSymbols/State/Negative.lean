import VgiSymbols.Source.Numbered
import VgiSymbols.State.Consistent

set_option autoImplicit false

/-! # Known misses and configuration changes

A miss is recorded when no registered source has the token, so at that moment it is true.
Dropping a source keeps it true; adding one need not, and nothing takes the miss back.
`sound_run_iff` says exactly which sessions stay sound: no source is added that has a file for
a recorded miss, and (for the lookups of what the sources do have) listing comes back and the
first file of a token parses.
-/

namespace VgiSymbols

open Unwind

namespace SymbolsState

variable {rd : Readers} {fs : FileSystem}

/-! ## The property -/

/-- No file of a registered, enabled local source answers to a known miss. -/
def NegativeSound (rd : Readers) (fs : FileSystem) (s : SymbolsState) : Prop :=
  ∀ token, s.cache.isKnownMiss token = true → ∀ spec ∈ s.sources.sources,
    spec.isLocal = true → ∀ ix, spec.Holds rd fs ix → canonicalToken token ∉ ix.aliases

/-- A registered, enabled local source has a file that answers to the token and parses. -/
def HasParseable (rd : Readers) (fs : FileSystem) (s : SymbolsState) (token : String) : Prop :=
  ∃ spec ∈ s.sources.sources, spec.isLocal = true ∧ ∃ ix, spec.Holds rd fs ix ∧
    canonicalToken token ∈ ix.aliases ∧ (moduleAt rd fs ix.path).isSome = true

/-- A lookup of the token is answered by a module. -/
def AnsweredByModule (rd : Readers) (w : World) (s : SymbolsState) (token : String) : Prop :=
  ∃ m, (s.lookup rd w token).1 = .returned (.module m)

/-- Known misses are true, and tokens of parseable files are answered by modules. -/
def Sound (rd : Readers) (fs : FileSystem) (s : SymbolsState) : Prop :=
  s.NegativeSound rd fs ∧ ∀ now token, s.HasParseable rd fs token →
    s.AnsweredByModule rd ⟨fs, now⟩ token

/-! ## The condition -/

/-- The operations of a session: everything but rehydrating from a manifest. -/
def Op.isSession : Op → Bool
  | .importManifest _ | .restart _ _ => false
  | _ => true

/-- The sources an operation registers. -/
def Op.added (reg : SourceRegistry) : Op → List SourceSpec
  | .addSource kind path url bucket enabled secret =>
      (reg.add kind path url bucket enabled secret).2.sources.drop reg.sources.length
  | _ => []

/-- The operation adds no local source with a file that answers to a recorded miss. -/
def AddsNoMiss (rd : Readers) (fs : FileSystem) (s : SymbolsState) (i : UInt64 × Op) : Prop :=
  ∀ spec ∈ i.2.added s.sources, spec.isLocal = true → ∀ ix, spec.Holds rd fs ix →
    ∀ k ∈ ix.aliases, k ∉ s.cache.negative

/-- A lookup of the token can be answered by a module: one is resident, or the sources can be
listed and the first file that answers to the token parses. -/
def Ready (rd : Readers) (fs : FileSystem) (s : SymbolsState) (token : String) : Prop :=
  s.cache.isResident token = true ∨ ListsReturn rd fs s.sources.pending ∧
    ∃ m, answerFor rd fs s.sources.sources (canonicalToken token) = .module m

/-! ## Known misses -/

/-- Aliases are canonical, so it is enough to look at the recorded tokens. -/
theorem negativeSound_iff {s : SymbolsState} :
    s.NegativeSound rd fs ↔ ∀ spec ∈ s.sources.sources, spec.isLocal = true →
      ∀ ix, spec.Holds rd fs ix → ∀ k ∈ ix.aliases, k ∉ s.cache.negative := by
  constructor
  · intro h spec hspec hlocal ix hix k hk hmem
    obtain ⟨-, identity, -, -, ha⟩ := hix.2.exists_identity
    have hcanon : canonicalToken k = k := Identity.canonicalToken_of_mem_aliases (ha ▸ hk)
    apply h k (SymbolCache.isKnownMiss_iff.mpr (by rwa [hcanon])) spec hspec hlocal ix hix
    rwa [hcanon]
  · intro h token hmiss spec hspec hlocal ix hix hk
    exact h spec hspec hlocal ix hix _ hk (SymbolCache.isKnownMiss_iff.mp hmiss)

theorem negativeSound_new (maxBytes : UInt64) (maxModules : Nat) :
    (withBudgets maxBytes maxModules).NegativeSound rd fs :=
  fun _ _ _ hspec => by cases hspec

/-- With fewer sources, misses stay true. -/
theorem NegativeSound.of_subset {s s' : SymbolsState} (h : s.NegativeSound rd fs)
    (hsub : s'.sources.sources ⊆ s.sources.sources)
    (hneg : s'.cache.negative = s.cache.negative) : s'.NegativeSound rd fs := by
  rw [negativeSound_iff] at h ⊢
  rw [hneg]
  exact fun spec hspec => h spec (hsub hspec)

/-- A lookup that came back empty-handed proves the miss it records. -/
theorem notMem_aliases_of_locate (hfs : fs.Unchanged) {reg reg' : SourceRegistry}
    (htracked : reg.Tracked rd fs) {token : String}
    (h : reg.locate rd fs token = (.returned none, reg')) :
    ∀ spec ∈ reg.sources, spec.isLocal = true → ∀ ix, spec.Holds rd fs ix →
      canonicalToken token ∉ ix.aliases := by
  have hlist := htracked.listsReturn (SourceRegistry.listsReturn_of_locate h)
  exact (fileFor_eq_none_iff hlist).mp
    (fileFor_eq_none_of_absent hfs (SourceRegistry.bind_of_locate htracked.synced h))

theorem NegativeSound.looked (hfs : fs.Unchanged) {s s' : SymbolsState}
    (h : s.NegativeSound rd fs) (htracked : s.sources.Tracked rd fs) {now : UInt64}
    {token : String} {attempt : Option Located} {out : Unwind Answer}
    (hlooked : Looked rd ⟨fs, now⟩ s token attempt out s') : s'.NegativeSound rd fs := by
  rw [negativeSound_iff] at h ⊢
  rw [specs_looked hlooked]
  intro spec hspec hlocal ix hix k hk hmem
  rcases negative_looked hlooked hmem with hmem | ⟨rfl, reg, hl⟩
  · exact h spec hspec hlocal ix hix k hk hmem
  · exact notMem_aliases_of_locate hfs htracked hl spec hspec hlocal ix hix hk

/-! ## Steps of a session -/

/-- The registry is tracked, and the parse caps are the default ones. -/
structure InSession (rd : Readers) (fs : FileSystem) (s : SymbolsState) : Prop where
  tracked : s.sources.Tracked rd fs
  limits_eq : s.limits = Limits.default

/-- A step of a session, with the id counter short of its wrap. -/
def SessionStep (s : SymbolsState) (i : UInt64 × Op) : Prop :=
  i.2.isSession = true ∧ s.sources.nextId.toNat + 1 < 2 ^ 64

theorem inSession_new (maxBytes : UInt64) (maxModules : Nat) :
    (withBudgets maxBytes maxModules).InSession rd fs :=
  ⟨SourceRegistry.tracked_new, rfl⟩

theorem InSession.looked {s s' : SymbolsState} (h : s.InSession rd fs) {now : UInt64}
    {token : String} {attempt : Option Located} {out : Unwind Answer}
    (hlooked : Looked rd ⟨fs, now⟩ s token attempt out s') : s'.InSession rd fs where
  tracked := by
    rcases sources_looked hlooked with heq | heq
    · exact heq ▸ h.tracked
    · exact heq ▸ SourceRegistry.tracked_ensureIndexed h.tracked
  limits_eq := (limits_looked hlooked).trans h.limits_eq

theorem InSession.stepIn {s : SymbolsState} (h : s.InSession rd fs) {i : UInt64 × Op}
    (hi : SessionStep s i) : (stepIn rd fs s i).InSession rd fs := by
  obtain ⟨now, op⟩ := i
  cases op with
  | addSource kind path url bucket enabled secret =>
      rw [SymbolsState.stepIn, step]
      refine ⟨?_, (limits_addSource _ _ _ _ _ _ _).trans h.limits_eq⟩
      rw [sources_addSource]
      exact SourceRegistry.tracked_add h.tracked hi.2 kind path url bucket enabled secret
  | dropSource sourceId =>
      rw [SymbolsState.stepIn, step]
      refine ⟨?_, (limits_dropSource _ _).trans h.limits_eq⟩
      rw [sources_dropSource]
      exact SourceRegistry.tracked_dropSource h.tracked sourceId
  | resolve token addr =>
      rw [SymbolsState.stepIn, step_resolve]
      exact h.looked (looked_lookup _ _ _ _)
  | functionName token addr =>
      rw [SymbolsState.stepIn, step_functionName]
      exact h.looked (looked_lookup _ _ _ _)
  | cacheEvict token => exact ⟨h.tracked, h.limits_eq⟩
  | importManifest manifest => cases hi.1
  | restart maxBytes maxModules => cases hi.1

/-- What a registration adds is true of the known misses exactly when it adds no file for one. -/
theorem negativeSound_addSource_iff {s : SymbolsState} (hsound : s.NegativeSound rd fs)
    (now : UInt64) (kind : String) (path url bucket : Option String) (enabled : Option Bool)
    (secret : Option String) :
    (s.addSource kind path url bucket enabled secret).2.NegativeSound rd fs ↔
      AddsNoMiss rd fs s (now, .addSource kind path url bucket enabled secret) := by
  rw [negativeSound_iff] at hsound ⊢
  rw [cache_addSource, sources_addSource]
  constructor
  · exact fun h spec hspec => h spec (List.mem_of_mem_drop hspec)
  · intro hadd spec hspec hlocal
    rcases SourceRegistry.add_cases s.sources kind path url bucket enabled secret with
      heq | ⟨new, -, heq⟩
    · rw [heq] at hspec
      exact hsound spec hspec hlocal
    · rw [heq] at hspec
      rcases List.mem_append.mp hspec with hspec | hspec
      · exact hsound spec hspec hlocal
      · refine hadd spec ?_ hlocal
        rw [Op.added, heq, List.drop_left]
        exact hspec

/-- **One step of a session keeps the misses true exactly when it adds no file for one.** -/
theorem negativeSound_step_iff (hfs : fs.Unchanged) {s : SymbolsState} (h : s.InSession rd fs)
    (hsound : s.NegativeSound rd fs) {i : UInt64 × Op} (hi : SessionStep s i) :
    (stepIn rd fs s i).NegativeSound rd fs ↔ AddsNoMiss rd fs s i := by
  obtain ⟨now, op⟩ := i
  -- the other operations register nothing
  have hnone : op.added s.sources = [] → (stepIn rd fs s (now, op)).NegativeSound rd fs →
      ((stepIn rd fs s (now, op)).NegativeSound rd fs ↔ AddsNoMiss rd fs s (now, op)) := by
    refine fun hadd h' => ⟨fun _ spec hspec => ?_, fun _ => h'⟩
    rw [show ((now, op) : UInt64 × Op).2.added s.sources = [] from hadd] at hspec
    cases hspec
  cases op with
  | addSource kind path url bucket enabled secret =>
      exact negativeSound_addSource_iff hsound now kind path url bucket enabled secret
  | dropSource sourceId =>
      apply hnone rfl
      rw [SymbolsState.stepIn, step]
      refine hsound.of_subset ?_ (by rw [cache_dropSource])
      rw [sources_dropSource, SourceRegistry.sources_dropSource]
      exact List.filter_subset_self _
  | resolve token addr =>
      apply hnone rfl
      rw [SymbolsState.stepIn, step_resolve]
      exact hsound.looked hfs h.tracked (looked_lookup _ _ _ _)
  | functionName token addr =>
      apply hnone rfl
      rw [SymbolsState.stepIn, step_functionName]
      exact hsound.looked hfs h.tracked (looked_lookup _ _ _ _)
  | cacheEvict token =>
      exact hnone rfl
        (hsound.of_subset (List.Subset.refl _) (SymbolCache.evicted_evict _ _).negative)
  | importManifest manifest => cases hi.1
  | restart maxBytes maxModules => cases hi.1

/-! ## Lookups of what the sources have -/

/-- **When a token that has a parseable file is answered by a module**, known misses being
true: when a module is resident, or the lookup gets to the first file and that one parses. -/
theorem answeredByModule_iff (hfs : fs.Unchanged) {s : SymbolsState} (h : s.InSession rd fs)
    (hsound : s.NegativeSound rd fs) (now : UInt64) {token : String}
    (hfile : s.HasParseable rd fs token) :
    s.AnsweredByModule rd ⟨fs, now⟩ token ↔ s.Ready rd fs token := by
  obtain ⟨spec, hspec, hlocal, ix, hix, hk, -⟩ := hfile
  have hlooked := looked_lookup rd ⟨fs, now⟩ s token
  unfold AnsweredByModule
  generalize s.parseAttempt rd ⟨fs, now⟩ token = attempt at hlooked
  generalize (s.lookup rd ⟨fs, now⟩ token).1 = out at hlooked ⊢
  generalize (s.lookup rd ⟨fs, now⟩ token).2 = s' at hlooked
  have hfirst : s.cache.reached token = none → (s.Ready rd fs token ↔
      ListsReturn rd fs s.sources.pending ∧
        ∃ m, answerFor rd fs s.sources.sources (canonicalToken token) = .module m) := by
    intro hr
    rw [Ready, SymbolCache.isResident_eq, hr]
    simp
  cases hlooked with
  | hit hr => exact ⟨fun _ => Or.inl (SymbolCache.isResident_iff.mpr ⟨_, hr⟩), fun _ => ⟨_, rfl⟩⟩
  | miss hr hm =>
      exact absurd hk (hsound token (SymbolCache.isKnownMiss_iff.mpr hm) spec hspec hlocal ix hix)
  | unwound hr hm hl =>
      rw [hfirst hr]
      refine ⟨fun ⟨m, hout⟩ => (by cases hout), fun ⟨hlist, _⟩ => ?_⟩
      rw [SourceRegistry.locate_eq h.tracked.synced hlist] at hl
      cases hl
  | absent hr hm hl =>
      exact absurd hk (notMem_aliases_of_locate hfs h.tracked hl spec hspec hlocal ix hix)
  | failed hr hm hl hp =>
      have hans := answerFor_of_locate h.tracked.synced hl
      rw [← h.limits_eq, hp] at hans
      rw [hfirst hr, hans]
      exact ⟨fun ⟨m, hout⟩ => (by cases hout), fun ⟨_, m, hm⟩ => (by cases hm)⟩
  | parsed hr hm hl hp hr' =>
      have hans := answerFor_of_locate h.tracked.synced hl
      rw [← h.limits_eq, hp] at hans
      rw [hfirst hr]
      exact ⟨fun _ => ⟨SourceRegistry.listsReturn_of_locate hl, _, hans⟩, fun _ => ⟨_, rfl⟩⟩
  | lost hr hm hl hp hr' =>
      have hans := answerFor_of_locate h.tracked.synced hl
      rw [← h.limits_eq, hp] at hans
      rw [SymbolCache.reached_insert_of_mem (mem_aliases_of_answerFor hfs hans)] at hr'
      cases hr'

/-- When listing comes back and every listed file parses, every such token can be answered. -/
theorem ready_of_parses (hfs : fs.Unchanged) {s : SymbolsState}
    (hlist : ListsReturn rd fs s.sources.sources)
    (hparse : ∀ row ∈ fileRows rd fs s.sources.sources, (moduleAt rd fs row.2.1).isSome = true)
    {token : String} (hfile : s.HasParseable rd fs token) : s.Ready rd fs token := by
  obtain ⟨spec, hspec, hlocal, ix, hix, hk, -⟩ := hfile
  refine Or.inr ⟨SourceRegistry.listsReturn_pending hlist, ?_⟩
  cases hans : answerFor rd fs s.sources.sources (canonicalToken token) with
  | module m => exact ⟨m, rfl⟩
  | error kind => exact absurd hans (answerFor_ne_error hfs hparse _ _)
  | notFound =>
      exact absurd hk ((fileFor_eq_none_iff hlist).mp (fileFor_eq_none_of_notFound hfs hans)
        spec hspec hlocal ix hix)

/-! ## Sessions -/

/-- A lookup adds and drops no source. -/
theorem specs_stepIn_of_token {s : SymbolsState} {i : UInt64 × Op} {token : String}
    (hi : i.2.token? = some token) :
    (stepIn rd fs s i).sources.sources = s.sources.sources := by
  rw [stepIn, step_of_token_eq_some (i := (⟨fs, i.1⟩, i.2)) hi]
  exact specs_looked (looked_lookup _ _ _ _)

theorem specs_stepIn_dropSource (s : SymbolsState) (now : UInt64) (sourceId : String) :
    (stepIn rd fs s (now, .dropSource sourceId)).sources.sources ⊆ s.sources.sources := by
  rw [stepIn, step, sources_dropSource, SourceRegistry.sources_dropSource]
  exact List.filter_subset_self _

theorem nextId_stepIn_le (rd : Readers) (fs : FileSystem) (s : SymbolsState)
    {i : UInt64 × Op} (hi : i.2.isSession = true) :
    (stepIn rd fs s i).sources.nextId.toNat ≤ s.sources.nextId.toNat + 1 := by
  have hlookup : ∀ {token : String} {attempt : Option Located} {out : Unwind Answer}
      {s' : SymbolsState}, Looked rd ⟨fs, i.1⟩ s token attempt out s' →
      s'.sources.nextId.toNat ≤ s.sources.nextId.toNat + 1 := by
    intro token attempt out s' h
    rcases sources_looked h with heq | heq
    · rw [heq]
      exact Nat.le_succ _
    · rw [heq, SourceRegistry.nextId_ensureIndexed]
      exact Nat.le_succ _
  obtain ⟨now, op⟩ := i
  cases op with
  | addSource kind path url bucket enabled secret =>
      rw [stepIn, step, sources_addSource]
      rcases SourceRegistry.add_cases s.sources kind path url bucket enabled secret with
        heq | ⟨new, -, heq⟩
      · rw [heq]
        exact Nat.le_succ _
      · rw [heq, UInt64.toNat_add]
        exact Nat.mod_le _ _
  | dropSource sourceId =>
      rw [stepIn, step, sources_dropSource, SourceRegistry.nextId_dropSource]
      exact Nat.le_succ _
  | resolve token addr =>
      rw [stepIn, step_resolve]
      exact hlookup (looked_lookup _ _ _ _)
  | functionName token addr =>
      rw [stepIn, step_functionName]
      exact hlookup (looked_lookup _ _ _ _)
  | cacheEvict token => exact Nat.le_succ _
  | importManifest manifest => cases hi
  | restart maxBytes maxModules => cases hi

/-- In a session of fewer than `2 ^ 64` operations the id counter does not wrap. -/
theorem meetsAlong_sessionStep {s : SymbolsState} {ops : List (UInt64 × Op)}
    (hops : ∀ i ∈ ops, i.2.isSession = true)
    (hlen : s.sources.nextId.toNat + ops.length < 2 ^ 64) :
    Run.MeetsAlong (stepIn rd fs) SessionStep s ops := by
  induction ops generalizing s with
  | nil => trivial
  | cons i ops ih =>
      rw [List.length_cons] at hlen
      have hi := hops i (by simp)
      refine ⟨⟨hi, by omega⟩, ih (fun j hj => hops j (by simp [hj])) ?_⟩
      have hnext := nextId_stepIn_le rd fs s hi
      omega

/-- **Exactly which sessions keep the negative cache sound.** After every step known misses are
true and tokens of parseable files are answered by modules, if and only if no step adds a file
for a recorded miss and every token of a parseable file can be answered by a module. -/
theorem sound_run_iff (hfs : fs.Unchanged) (maxBytes : UInt64) (maxModules : Nat)
    {ops : List (UInt64 × Op)} (hops : ∀ i ∈ ops, i.2.isSession = true)
    (hlen : ops.length < 2 ^ 64) :
    Run.MeetsAlong (stepIn rd fs) (fun s i => (stepIn rd fs s i).Sound rd fs)
        (withBudgets maxBytes maxModules) ops ↔
      Run.MeetsAlong (stepIn rd fs)
        (fun s i => AddsNoMiss rd fs s i ∧ ∀ token,
          (stepIn rd fs s i).HasParseable rd fs token → (stepIn rd fs s i).Ready rd fs token)
        (withBudgets maxBytes maxModules) ops := by
  have hsession : Run.MeetsAlong (stepIn rd fs) SessionStep (withBudgets maxBytes maxModules)
      ops := meetsAlong_sessionStep hops (by simpa [withBudgets, SourceRegistry.new] using hlen)
  refine Run.meetsAlong_congr_of
    (J := fun s : SymbolsState => s.InSession rd fs ∧ s.NegativeSound rd fs)
    (fun s i hs hi hc => ⟨hs.1.stepIn hi, (negativeSound_step_iff hfs hs.1 hs.2 hi).mpr hc.1⟩)
    (fun s i hs hi => ?_) ⟨inSession_new _ _, negativeSound_new _ _⟩ hsession
  rw [Sound, negativeSound_step_iff hfs hs.1 hs.2 hi]
  apply and_congr_right
  intro hadd
  have hsound := (negativeSound_step_iff hfs hs.1 hs.2 hi).mpr hadd
  constructor
  · exact fun h token hfile =>
      (answeredByModule_iff hfs (hs.1.stepIn hi) hsound 0 hfile).mp (h 0 token hfile)
  · exact fun h now token hfile =>
      (answeredByModule_iff hfs (hs.1.stepIn hi) hsound now hfile).mpr (h token hfile)

theorem sound_run_sharedPrefix :
    Run.MeetsAlong (stepIn StandIn.readers StandIn.sharedPrefix)
      (fun s i => (stepIn StandIn.readers StandIn.sharedPrefix s i).Sound StandIn.readers
        StandIn.sharedPrefix) (withBudgets 4096 4)
      [(0, .addSource "dir" (some "d") none none none none),
        (1, .resolve (StandIn.rawToken 0xaa) 4), (2, .functionName (StandIn.token 0x33) 4),
        (3, .dropSource "src0")] := by
  have hfs : StandIn.sharedPrefix.Unchanged := StandIn.directory_unchanged _ _
  have hlist : ∀ sources, ListsReturn StandIn.readers StandIn.sharedPrefix sources :=
    listsReturn_of_total StandIn.readers_total
  -- Both files of the directory parse, and it is the only source there ever is.
  have hparse : ∀ row ∈ fileRows StandIn.readers StandIn.sharedPrefix
      [StandIn.dirSource "src0" "d"],
      (moduleAt StandIn.readers StandIn.sharedPrefix row.2.1).isSome = true := by decide +kernel
  have hready : ∀ {s : SymbolsState}, s.sources.sources ⊆ [StandIn.dirSource "src0" "d"] →
      ∀ token, s.HasParseable StandIn.readers StandIn.sharedPrefix token →
        s.Ready StandIn.readers StandIn.sharedPrefix token :=
    fun hsub _ => ready_of_parses hfs (hlist _)
      fun row hrow => hparse row (fileRows_subset hsub hrow)
  have hadded : (stepIn StandIn.readers StandIn.sharedPrefix (withBudgets 4096 4)
      (0, .addSource "dir" (some "d") none none none none)).sources.sources
        = [StandIn.dirSource "src0" "d"] := rfl
  have hsub : ∀ {l : List SourceSpec}, l = [StandIn.dirSource "src0" "d"] →
      l ⊆ [StandIn.dirSource "src0" "d"] := fun h => h ▸ List.Subset.refl _
  refine (sound_run_iff hfs 4096 4 (by decide) (by decide)).mpr ⟨⟨?_, ?_⟩, ⟨?_, ?_⟩, ⟨?_, ?_⟩,
    ⟨?_, ?_⟩, trivial⟩
  · exact fun _ _ _ _ _ k _ hmem => Finset.notMem_empty k hmem
  · exact hready (hsub hadded)
  · exact fun _ hspec => by cases hspec
  · exact hready (hsub (Eq.trans (specs_stepIn_of_token rfl) hadded))
  · exact fun _ hspec => by cases hspec
  · exact hready (hsub (Eq.trans (specs_stepIn_of_token rfl)
      (Eq.trans (specs_stepIn_of_token rfl) hadded)))
  · exact fun _ hspec => by cases hspec
  · refine hready (List.Subset.trans (specs_stepIn_dropSource _ _ _) (hsub ?_))
    exact Eq.trans (specs_stepIn_of_token rfl) (Eq.trans (specs_stepIn_of_token rfl) hadded)

/-- A token is looked up before the source that has it is added: the miss stays. -/
theorem not_sound_goodAndBad :
    ¬ ∀ ops : List (UInt64 × Op), (∀ i ∈ ops, i.2.isSession = true) →
      (runIn StandIn.readers StandIn.goodAndBad new ops).Sound StandIn.readers
        StandIn.goodAndBad := by
  intro h
  let ops : List (UInt64 × Op) :=
    [(0, .resolve (StandIn.token 0x11) 4), (1, .addSource "dir" (some "d") none none none none)]
  let s := runIn StandIn.readers StandIn.goodAndBad new ops
  have hlisted : ∀ spec ∈ s.sources.sources, spec.isLocal = true →
      ∀ ix ∈ listing StandIn.readers StandIn.goodAndBad spec, ∀ k ∈ ix.aliases,
      k ∉ s.cache.negative :=
    fun spec hspec hlocal ix hix => negativeSound_iff.mp (h ops (by decide)).1 spec hspec hlocal ix
      ((mem_listing_iff (list_returns StandIn.readers_total spec)).mp hix)
  revert hlisted
  decide +kernel

end SymbolsState

end VgiSymbols
