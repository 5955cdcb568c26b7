import VgiSymbols.State.Consistent

set_option autoImplicit false

/-! # The cache is transparent, up to shared aliases

When distinct files share no alias, a cached resolver is the uncached one, across lookups,
evictions and restarts (`resolve_eq_uncachedResolve`).

Files that share aliases break this: inserting a module points all its aliases at it and
replaces a module of the same debug-id, whichever file is first in source order.
`resolve_first_match_iff` says exactly which source lists are immune.
-/

namespace VgiSymbols

open Unwind

theorem StandIn.disjointAliases_goodAndBad :
    DisjointAliases readers goodAndBad [dirSource "src0" "d"] := by
  unfold DisjointAliases
  decide +kernel

namespace SymbolsState

variable {rd : Readers} {fs : FileSystem} {sources : List SourceSpec}

/-- In a consistent state `resolve` is the uncached resolver, if the sources are coherent for
the rows of answers. -/
theorem Consistent.resolve_eq (hlist : ListsReturn rd fs sources) (hfs : fs.Unchanged)
    (hobs : Coherent rd fs sources fun answer => answer.frames rd Limits.default)
    {s : SymbolsState} (hs : s.Consistent rd fs sources) (now : UInt64) (token : String)
    (addr : UInt64) :
    (s.resolve rd ⟨fs, now⟩ token addr).1
      = .returned (uncachedResolve rd fs sources token addr) := by
  obtain ⟨answer, hout, hanswer⟩ :=
    hs.obs_looked hlist hfs hobs (looked_lookup rd ⟨fs, now⟩ s token)
  rw [resolve_eq_lookup, hout, hs.limits_eq, uncachedResolve]
  exact congrArg Unwind.returned (congrFun (congrArg (fun f addr => f addr) hanswer) addr)

/-- **The cache is transparent.** Over files that share no alias, whatever was looked up,
evicted or restarted before, `resolve` returns the rows of the uncached resolver. (Readers that
are total list every source: `listsReturn_of_total`.) -/
theorem resolve_eq_uncachedResolve (hlist : ListsReturn rd fs sources) (hfs : fs.Unchanged)
    (hdis : DisjointAliases rd fs sources) (maxBytes : UInt64) (maxModules : Nat)
    (nextId : UInt64) {ops : List (UInt64 × Op)} (hops : ∀ i ∈ ops, i.2.keepsSources = true)
    (now : UInt64) (token : String) (addr : UInt64) :
    ((runIn rd fs (registered maxBytes maxModules nextId sources) ops).resolve rd ⟨fs, now⟩
      token addr).1 = .returned (uncachedResolve rd fs sources token addr) := by
  have hs : (runIn rd fs (registered maxBytes maxModules nextId sources) ops).Consistent rd fs
      sources := (consistent_registered maxBytes maxModules nextId).runIn hlist hfs hops
  exact hs.resolve_eq hlist hfs (coherent_of_disjointAliases hfs hdis _) now token addr

theorem resolve_eq_uncachedResolve_goodAndBad :
    ((runIn StandIn.readers StandIn.goodAndBad
      (registered 10 1 1 [StandIn.dirSource "src0" "d"])
      [(0, .resolve (StandIn.token 0x11) 4), (1, .resolve (StandIn.token 0x22) 4),
        (2, .cacheEvict none), (3, .restart 4 4)]).resolve StandIn.readers
        ⟨StandIn.goodAndBad, 4⟩ (StandIn.token 0x22) 4).1
      = .returned (uncachedResolve StandIn.readers StandIn.goodAndBad
        [StandIn.dirSource "src0" "d"] (StandIn.token 0x22) 4) :=
  resolve_eq_uncachedResolve (listsReturn_of_total StandIn.readers_total _)
    (StandIn.directory_unchanged _ _) StandIn.disjointAliases_goodAndBad 10 1 1 (by decide) 4
    (StandIn.token 0x22) 4

/-! ## Files that share aliases -/

/-- **Exactly when the first match wins whatever the history**: when listing does not unwind,
and at every address each served module gives the rows that the first file of each of its
aliases gives. -/
theorem resolve_first_match_iff (hfs : fs.Unchanged) (maxBytes : UInt64) (maxModules : Nat)
    (nextId : UInt64) :
    (∀ ops : List (UInt64 × Op), (∀ i ∈ ops, i.2.isLookup = true) →
      ∀ (now : UInt64) (token : String) (addr : UInt64),
        ((runIn rd fs (registered maxBytes maxModules nextId sources) ops).resolve rd ⟨fs, now⟩
          token addr).1 = .returned (uncachedResolve rd fs sources token addr)) ↔
      ListsReturn rd fs sources ∧
        Coherent rd fs sources fun answer => answer.frames rd Limits.default := by
  have hs₀ : (registered maxBytes maxModules nextId sources).Consistent rd fs sources :=
    consistent_registered maxBytes maxModules nextId
  constructor
  · intro h
    have hlist : ListsReturn rd fs sources := by
      have h₀ := h [] (fun i hi => by cases hi) 0 "" 0
      rw [resolve_eq_lookup] at h₀
      obtain ⟨answer, hout, -⟩ := Unwind.map_eq_returned.mp h₀
      have hlooked := looked_lookup rd ⟨fs, 0⟩ (registered maxBytes maxModules nextId sources) ""
      rw [show (registered maxBytes maxModules nextId sources).lookup rd ⟨fs, 0⟩ ""
        = (.returned answer, _) from Prod.ext hout rfl] at hlooked
      exact listsReturn_of_looked_registered hlooked
    refine ⟨hlist, ?_⟩
    rintro m ⟨k₁, hk₁⟩ k hk
    have hcanon₁ := Identity.canonicalToken_of_mem_aliases (mem_aliases_of_answerFor hfs hk₁)
    funext addr
    -- look the module up under `k₁`, then ask for its alias `k`
    have hlooked := looked_lookup rd ⟨fs, 0⟩
      (registered maxBytes maxModules nextId sources) k₁
    obtain ⟨r, hr, hmod⟩ := hs₀.exists_reached_of_looked hlist hfs hlooked
      (by rw [hcanon₁]; exact hk₁) (reached_registered _ _ _ _) hk
    have hs₁ := hs₀.looked hlist hfs hlooked
    have h₁ := h [(0, .resolve k₁ 0)] (by simp [Op.isLookup]) 0 k addr
    rw [runIn, Run.run_cons, Run.run_nil, stepIn, step_resolve, resolve_eq_lookup,
      lookup_of_reached hr, hs₁.limits_eq, hmod, uncachedResolve,
      Identity.canonicalToken_of_mem_aliases hk] at h₁
    exact Unwind.returned.inj h₁
  · rintro ⟨hlist, hobs⟩ ops hops now token addr
    exact (hs₀.runIn hlist hfs fun i hi => Op.keepsSources_of_isLookup (hops i hi)).resolve_eq
      hlist hfs hobs now token addr

theorem resolve_first_match_goodAndBad :
    ((runIn StandIn.readers StandIn.goodAndBad
      (registered 10 1 1 [StandIn.dirSource "src0" "d"])
      [(0, .resolve (StandIn.token 0x22) 4), (1, .functionName (StandIn.token 0x11) 4)]).resolve
        StandIn.readers ⟨StandIn.goodAndBad, 2⟩ (StandIn.token 0x11) 4).1
      = .returned (uncachedResolve StandIn.readers StandIn.goodAndBad
        [StandIn.dirSource "src0" "d"] (StandIn.token 0x11) 4) :=
  (resolve_first_match_iff (StandIn.directory_unchanged _ _) 10 1 1).mpr
    ⟨listsReturn_of_total StandIn.readers_total _,
      coherent_of_disjointAliases (StandIn.directory_unchanged _ _)
        StandIn.disjointAliases_goodAndBad _⟩ _ (by decide) 2 (StandIn.token 0x11) 4

/-- Two images of one debug-id: after the second was looked up by its raw build-id, the debug-id
is answered by the second, although the first is listed first. -/
theorem not_resolve_first_match_sharedPrefix :
    ¬ ∀ ops : List (UInt64 × Op), (∀ i ∈ ops, i.2.isLookup = true) →
      ∀ (now : UInt64) (token : String) (addr : UInt64),
        ((runIn StandIn.readers StandIn.sharedPrefix
          (registered 4096 4 1 [StandIn.dirSource "src0" "d"]) ops).resolve StandIn.readers
            ⟨StandIn.sharedPrefix, now⟩ token addr).1
          = .returned (uncachedResolve StandIn.readers StandIn.sharedPrefix
            [StandIn.dirSource "src0" "d"] token addr) := by
  intro h
  have h₁ := h [(0, .resolve (StandIn.rawToken 0xbb) 4)] (by decide) 1
    (StandIn.token 0x11 ++ "0") 4
  revert h₁
  decide +kernel

end SymbolsState

end VgiSymbols
