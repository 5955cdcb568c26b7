import VgiSymbols.Cache.Manifest
import VgiSymbols.State.Negative

set_option autoImplicit false

/-! # Redelivery of a manifest

A manifest may be delivered again to the state that has gone on working since it was exported.
Importing overwrites entry by entry, so the state falls back wherever its own entry has got
further than the manifest's; `redelivery_iff` says that this is the only way. Between the export
and the redelivery an entry may also turn from a miss into a located module (`Advanced`), which
is what the last part of the result rests on.
-/

namespace VgiSymbols

/-! ## Progress of an entry -/

/-- The entry of a module that was found. -/
def ManifestEntry.Located (e : ManifestEntry) : Prop := e.origin.isSome = true ∧ e.miss = false

/-- The entry `e` has got no further than `e'`: located, counted and used no more. -/
structure ManifestEntry.NoFurther (e e' : ManifestEntry) : Prop where
  located : e.Located → e'.Located
  rows : e.rowsResolved ≤ e'.rowsResolved
  lastUsed : e.lastUsedEpoch ≤ e'.lastUsedEpoch

instance (e : ManifestEntry) : Decidable e.Located :=
  inferInstanceAs (Decidable (e.origin.isSome = true ∧ e.miss = false))

instance (e e' : ManifestEntry) : Decidable (e.NoFurther e') :=
  decidable_of_iff ((e.Located → e'.Located) ∧ e.rowsResolved ≤ e'.rowsResolved
      ∧ e.lastUsedEpoch ≤ e'.lastUsedEpoch)
    ⟨fun h => ⟨h.1, h.2.1, h.2.2⟩, fun h => ⟨h.located, h.rows, h.lastUsed⟩⟩

theorem ManifestEntry.NoFurther.refl (e : ManifestEntry) : e.NoFurther e :=
  ⟨id, UInt64.le_refl _, UInt64.le_refl _⟩

namespace SymbolCache

/-- Every entry is still there: the same but for its stats, or located. -/
def Advanced (c c' : SymbolCache) : Prop :=
  ∀ d e, c.entries.lookup d = some e →
    ∃ e', c'.entries.lookup d = some e' ∧ (e'.static = e.static ∨ e'.Located)

theorem Advanced.evicted {c c₁ c₂ : SymbolCache} (h : Advanced c c₁) (hev : Evicted c₁ c₂) :
    Advanced c c₂ := by
  intro d e hd
  obtain ⟨e₁, he₁, hadv⟩ := h d e hd
  obtain ⟨e₂, he₂, hs⟩ := exists_of_map_static (hev.static d) he₁
  obtain ⟨-, horigin, hmiss⟩ := ManifestEntry.eq_of_static hs
  refine ⟨e₂, he₂, hadv.imp hs.trans fun hloc => ?_⟩
  rw [ManifestEntry.Located, horigin, hmiss]
  exact hloc

/-- Lookups and evictions lose no entry. -/
theorem advanced_kept (c : SymbolCache) : Kept (Advanced c) where
  touch h now token := by
    intro d e hd
    rw [entries_touch]
    exact h d e hd
  recordMiss {c₁} h now token := by
    intro d e hd
    obtain ⟨e₁, he₁, hadv⟩ := h d e hd
    exact ⟨e₁, lookup_recordMiss_of_eq_some he₁ now token, hadv⟩
  insert {c₁} h now m origin := by
    have hstore : Advanced c (c₁.store now m origin) := by
      intro d e hd
      rw [lookup_store]
      split
      · exact ⟨_, rfl, Or.inr ⟨rfl, rfl⟩⟩
      · exact h d e hd
    exact hstore.evicted (evicted_insert c₁ now m origin)
  evicted h hev := h.evicted hev

end SymbolCache

namespace SymbolsState

/-- Nothing falls back from `s` to `s'`: entries stay and get no less far, and no token that a
module answered becomes a known miss. -/
structure NeverRegresses (rd : Readers) (s s' : SymbolsState) : Prop where
  entries : ∀ d e, s.cache.entries.lookup d = some e →
    ∃ e', s'.cache.entries.lookup d = some e' ∧ e.NoFurther e'
  misses : ∀ w token, s.AnsweredByModule rd w token → s.cache.isKnownMiss token = false →
    s'.cache.isKnownMiss token = false

theorem NeverRegresses.rows_le {rd : Readers} {s s' : SymbolsState}
    (h : NeverRegresses rd s s') (d : String) {rows rows' : UInt64}
    (hrows : (s.cache.entries.lookup d).map ManifestEntry.rowsResolved = some rows)
    (hrows' : (s'.cache.entries.lookup d).map ManifestEntry.rowsResolved = some rows') :
    rows ≤ rows' := by
  obtain ⟨e, he, rfl⟩ := Option.map_eq_some_iff.mp hrows
  obtain ⟨e', he', hno⟩ := h.entries d e he
  rw [he', Option.map_some] at hrows'
  cases hrows'
  exact hno.rows

/-- The manifest can be delivered again: once or twice is the same, and nothing falls back. -/
def Redelivers (rd : Readers) (s : SymbolsState) (manifest : CacheManifest) : Prop :=
  (s.importManifest manifest).importManifest manifest = s.importManifest manifest ∧
    NeverRegresses rd s (s.importManifest manifest)

/-- No entry of the state has got further than the manifest's entry for the same debug-id. -/
def NoneFurther (s : SymbolsState) (manifest : CacheManifest) : Prop :=
  ∀ e ∈ manifest.entries, ∀ e', s.cache.entries.lookup e.debugId = some e' → e'.NoFurther e

instance (s : SymbolsState) (manifest : CacheManifest) : Decidable (s.NoneFurther manifest) :=
  decidable_of_iff (∀ e ∈ manifest.entries,
      ((s.cache.entries.lookup e.debugId).all fun e' => decide (e'.NoFurther e)) = true)
    (forall₂_congr fun e _ => by simp only [Option.all_eq_true, decide_eq_true_eq])

/-- Importing the same manifest once more changes nothing. -/
theorem importManifest_importManifest (s : SymbolsState) (manifest : CacheManifest) :
    (s.importManifest manifest).importManifest manifest = s.importManifest manifest := by
  simp only [importManifest, SourceRegistry.restore_restore, SymbolCache.rehydrate_rehydrate]

/-- A miss of the manifest was known already, as its entry has not been located since. -/
theorem NoneFurther.isKnownMiss {s : SymbolsState} {manifest : CacheManifest}
    (h : s.NoneFurther manifest) (hcanonical : manifest.Canonical) (hs : s.cache.Canonical)
    (hentries : ∀ e ∈ manifest.entries, ∃ e', s.cache.entries.lookup e.debugId = some e' ∧
      (e'.static = e.static ∨ e'.Located)) {token : String}
    (hmiss : (s.importManifest manifest).cache.isKnownMiss token = true) :
    s.cache.isKnownMiss token = true := by
  rw [SymbolCache.isKnownMiss_iff] at hmiss ⊢
  rcases SymbolCache.mem_negative_rehydrate.mp hmiss with ⟨e, he, hm, hid⟩ | hmem
  · rw [hcanonical e he] at hid
    obtain ⟨e', he', hadv⟩ := hentries e he
    rcases hadv with hstatic | hloc
    · -- the entry marks the miss still
      have hm' : e'.miss = true := (ManifestEntry.eq_of_static hstatic).2.2.trans hm
      rw [← hid]
      exact hs.known _ e' he' hm'
    · have hm' := ((h e he e' he').located hloc).2
      rw [hm] at hm'
      cases hm'
  · exact hmem

/-- **Exactly when a manifest can be delivered again** to the state that has worked on since it
was exported: when no entry of the state has got further than the manifest's. -/
theorem redelivery_iff (rd : Readers) (maxBytes : UInt64) (maxModules : Nat)
    {ops work : List (World × Op)} (hops : ∀ i ∈ ops, i.2.Imports CacheManifest.Canonical)
    (hwork : ∀ i ∈ work, i.2.isWork = true) :
    let s := runOps rd (withBudgets maxBytes maxModules) ops
    let s' := runOps rd s.exportManifest.2 work
    s'.Redelivers rd s.exportManifest.1 ↔ s'.NoneFurther s.exportManifest.1 := by
  intro s s'
  have hs : s.cache.Canonical :=
    cache_runOps SymbolCache.canonical_invariant rd maxBytes maxModules hops
  have hordered : s.exportManifest.1.Ordered := SymbolCache.ordered_toManifest hs.keyed _
  have hcanonical : s.exportManifest.1.Canonical :=
    SymbolCache.canonical_invariant.exported hs _
  have hexported : s.exportManifest.2.cache.Canonical :=
    SymbolCache.canonical_invariant.evicted hs (SymbolCache.evicted_toManifest _ s.sources.sources)
  have hs' : s'.cache.Canonical :=
    cache_runOps_work SymbolCache.canonical_invariant.toKept rd hexported hwork
  have hadvanced : s.exportManifest.2.cache.Advanced s'.cache :=
    cache_runOps_work (SymbolCache.advanced_kept _) rd (fun _ e he => ⟨e, he, Or.inl rfl⟩) hwork
  constructor
  · -- after the import the entry is the one of the manifest
    rintro ⟨-, hregress⟩ e he e' he'
    obtain ⟨e'', he'', hno⟩ := hregress.entries e.debugId e' he'
    have hlookup : (s'.importManifest s.exportManifest.1).cache.entries.lookup e.debugId = some e :=
      SymbolCache.lookup_rehydrate_of_mem hordered he
    rw [hlookup] at he''
    cases he''
    exact hno
  · intro hnone
    refine ⟨importManifest_importManifest s' _, fun d e' he' => ?_, fun w token hans hknown => ?_⟩
    · -- An entry that the manifest mentions is overwritten, any other stays.
      by_cases hd : ∃ e ∈ s.exportManifest.1.entries, e.debugId = d
      · obtain ⟨e, he, rfl⟩ := hd
        exact ⟨e, SymbolCache.lookup_rehydrate_of_mem hordered he, hnone e he e' he'⟩
      · exact ⟨e', (SymbolCache.lookup_rehydrate_of_forall_ne fun e he heq =>
          hd ⟨e, he, heq⟩).trans he', ManifestEntry.NoFurther.refl e'⟩
    · refine Bool.eq_false_iff.mpr fun hmiss => Bool.eq_false_iff.mp hknown ?_
      exact hnone.isKnownMiss hcanonical hs' (fun e he =>
        hadvanced e.debugId e (SymbolCache.lookup_toManifest_of_mem hs.keyed he)) hmiss

/-- A source is added and a token resolved. -/
def resolvedOnce : List (World × Op) :=
  [(⟨StandIn.goodAndBad, 0⟩, .addSource "dir" (some "d") none none none none),
    (⟨StandIn.goodAndBad, 1⟩, .resolve (StandIn.token 0x11) 4)]

/-- The module answers another lookup after the export, and stays resident. -/
theorem redelivers_resolvedOnce :
    let s := runOps StandIn.readers (withBudgets 4096 4) resolvedOnce
    (runOps StandIn.readers s.exportManifest.2
      [(⟨StandIn.goodAndBad, 2⟩, .resolve (StandIn.token 0x11) 4)]).Redelivers StandIn.readers
        s.exportManifest.1 :=
  (redelivery_iff StandIn.readers 4096 4 (by decide) (by decide)).mpr (by decide +kernel)

/-- The module answers another lookup after the export and is evicted: the row that it counted is
lost when the manifest is delivered again. -/
theorem not_redelivers_resolvedOnce :
    ¬ ∀ ops work : List (World × Op), (∀ i ∈ ops, i.2.Imports CacheManifest.Canonical) →
      (∀ i ∈ work, i.2.isWork = true) →
      let s := runOps StandIn.readers (withBudgets 4096 4) ops
      (runOps StandIn.readers s.exportManifest.2 work).Redelivers StandIn.readers
        s.exportManifest.1 := by
  intro h
  have hregress := (h resolvedOnce
    [(⟨StandIn.goodAndBad, 2⟩, .resolve (StandIn.token 0x11) 4),
      (⟨StandIn.goodAndBad, 3⟩, .cacheEvict none)] (by decide) (by decide)).2
  have hle : (2 : UInt64) ≤ 1 :=
    and_imp.mpr (hregress.rows_le (StandIn.token 0x11 ++ "0")) (by decide +kernel)
  exact absurd hle (by decide)

end SymbolsState

end VgiSymbols
