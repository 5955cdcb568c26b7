import VgiSymbols.Basic.Run
import VgiSymbols.Cache.Spec

set_option autoImplicit false

/-! # Runs of the cache

The operations of a cache as a step function, and what its negative half does along a run: an
insert clears the miss of the debug-id, and of no other name (`cleared_after_insert_iff`).
-/

namespace VgiSymbols

namespace SymbolCache

/-! ## Operations -/

/-- The operations of the cache. -/
inductive CacheOp where
  | insert (m : ParsedModule) (origin : Origin)
  | resolve (token : String) (addr : UInt64) (limits : Limits)
  | functionName (token : String) (addr : UInt64)
  | recordMiss (token : String)
  | rehydrate (manifest : CacheManifest)
  | evict (token : Option String)
  | toManifest (sources : List SourceSpec)

/-- The cache after an operation at a given time. -/
def step (rd : Readers) (c : SymbolCache) : UInt64 × CacheOp → SymbolCache
  | (now, .insert m origin) => (c.insert now m origin).2
  | (now, .resolve token addr limits) =>
      ((c.resolve rd now token addr limits).map Prod.snd).getD c
  | (now, .functionName token addr) => ((c.functionName rd now token addr).map Prod.snd).getD c
  | (now, .recordMiss token) => c.recordMiss now token
  | (_, .rehydrate manifest) => c.rehydrate manifest
  | (_, .evict token) => (c.evict token).2
  | (_, .toManifest sources) => (c.toManifest sources).2

/-- The cache after a run. -/
def runOps (rd : Readers) (c : SymbolCache) (ops : List (UInt64 × CacheOp)) : SymbolCache :=
  Run.run (step rd) c ops

theorem touch_of_reached_eq_none {c : SymbolCache} {token : String} (now : UInt64)
    (h : c.reached token = none) : c.touch now token = c := by
  unfold touch
  cases hd : c.resolveDebugId token with
  | none => rfl
  | some d =>
      have hpeek : c.resident.peek d = none := by
        rw [reached, hd] at h
        exact h
      simp only [LruCache.promote_of_peek_eq_none hpeek]

theorem step_resolve (rd : Readers) (c : SymbolCache) (now : UInt64) (token : String)
    (addr : UInt64) (limits : Limits) :
    step rd c (now, .resolve token addr limits) = c.touch now token := by
  rw [step, resolve_eq]
  cases h : c.reached token with
  | none => exact (touch_of_reached_eq_none now h).symm
  | some r => rfl

theorem step_functionName (rd : Readers) (c : SymbolCache) (now : UInt64) (token : String)
    (addr : UInt64) : step rd c (now, .functionName token addr) = c.touch now token := by
  rw [step, functionName_eq]
  cases h : c.reached token with
  | none => exact (touch_of_reached_eq_none now h).symm
  | some r => rfl

/-! ## Invariants -/

/-- A property that the lookups and evictions of a cache keep. -/
structure Kept (P : SymbolCache → Prop) : Prop where
  touch : ∀ {c}, P c → ∀ now token, P (c.touch now token)
  recordMiss : ∀ {c}, P c → ∀ now token, P (c.recordMiss now token)
  insert : ∀ {c}, P c → ∀ now m origin, P (c.insert now m origin).2
  evicted : ∀ {c c'}, P c → Evicted c c' → P c'

/-- An invariant of caches: it holds of a fresh cache, every operation keeps it, and so does
importing a manifest with a property `Q` that exported manifests have. -/
structure Invariant (P : SymbolCache → Prop) (Q : CacheManifest → Prop) : Prop extends Kept P where
  new : ∀ maxBytes maxModules, P (new maxBytes maxModules)
  rehydrate : ∀ {c}, P c → ∀ manifest, Q manifest → P (c.rehydrate manifest)
  exported : ∀ {c}, P c → ∀ sources, Q (c.toManifest sources).1

/-! ## Misses along a run -/

/-- The operation records a miss of the token, of its own or from a manifest. -/
def CacheOp.Misses (token : String) : CacheOp → Prop
  | .recordMiss t => canonicalToken t = canonicalToken token
  | .rehydrate manifest =>
      ∃ e ∈ manifest.entries, e.miss = true ∧ canonicalToken e.debugId = canonicalToken token
  | _ => False

/-- A token does not become a known miss by an operation that records no miss of it. -/
theorem notMem_negative_step {rd : Readers} {c : SymbolCache} {i : UInt64 × CacheOp}
    {token : String} (h : canonicalToken token ∉ c.negative) (hi : ¬ i.2.Misses token) :
    canonicalToken token ∉ (step rd c i).negative := by
  obtain ⟨now, op⟩ := i
  cases op with
  | insert m origin =>
      -- An insert only takes a token out.
      rw [step, negative_insert]
      exact fun hmem => h (Finset.mem_of_mem_erase hmem)
  | resolve t addr limits => rwa [step_resolve, negative_touch]
  | functionName t addr => rwa [step_functionName, negative_touch]
  | recordMiss t =>
      intro hmem
      rcases mem_negative_recordMiss.mp hmem with heq | hmem
      · exact hi heq.symm
      · exact h hmem
  | rehydrate manifest =>
      -- Entry by entry: only a miss entry of this very token could add it.
      refine rehydrate_induction (P := fun c => canonicalToken token ∉ c.negative)
        (Q := fun e => ¬ (e.miss = true ∧ canonicalToken e.debugId = canonicalToken token))
        (fun c e hc he hmem => ?_) h fun e he hcon => hi ⟨e, he, hcon⟩
      rcases mem_negative_rehydrateEntry.mp hmem with ⟨hm, heq⟩ | hmem
      · exact he ⟨hm, heq.symm⟩
      · exact hc hmem
  | evict t =>
      rw [step, (evicted_evict c t).negative]
      exact h
  | toManifest sources =>
      rw [step, (evicted_toManifest c sources).negative]
      exact h

/-- **Exactly when an insert clears the misses of all names of the module**, for good: when none
of them but the debug-id was a known miss before. -/
theorem cleared_after_insert_iff (rd : Readers) (c : SymbolCache) (now : UInt64)
    (m : ParsedModule) (origin : Origin) :
    (∀ (ops : List (UInt64 × CacheOp)) (token : String),
      canonicalToken token ∈ m.identity.aliases → (∀ i ∈ ops, ¬ i.2.Misses token) →
        (runOps rd (c.insert now m origin).2 ops).isKnownMiss token = false) ↔
      ∀ k ∈ m.identity.aliases, k ≠ m.debugId → k ∉ c.negative := by
  constructor
  · -- The miss of another name is still there right after the insert.
    intro h k hk hne hmem
    have hcanon := Identity.canonicalToken_of_mem_aliases hk
    have h₀ := h [] k (by rwa [hcanon]) fun i hi => (by cases hi)
    refine absurd (isKnownMiss_iff.mpr ?_) (Bool.eq_false_iff.mp h₀)
    rw [hcanon]
    show k ∈ (c.insert now m origin).2.negative
    rw [negative_insert]
    exact Finset.mem_erase.mpr ⟨hne, hmem⟩
  · -- Cleared once, the token stays cleared along every run that records no miss of it.
    intro h ops token htoken hops
    apply Bool.eq_false_iff.mpr
    intro hmiss
    apply absurd (isKnownMiss_iff.mp hmiss)
    refine Run.invariant_run (P := fun c : SymbolCache => canonicalToken token ∉ c.negative)
      (fun _ _ hs hi => notMem_negative_step hs hi) ?_
      (Run.MeetsAlong.of_forall_mem (C := fun i : UInt64 × CacheOp => ¬ i.2.Misses token)
        hops _)
    rw [negative_insert, Finset.mem_erase]
    exact fun ⟨hne, hmem⟩ => h _ htoken hne hmem

/-- The raw build-id was recorded as missing before a module with that build-id was inserted; it
still is a known miss. -/
theorem not_cleared_after_insert :
    ¬ ∀ (ops : List (UInt64 × CacheOp)) (m : ParsedModule) (origin : Origin),
      ∀ k ∈ m.identity.aliases,
        ((runOps StandIn.readers (new 4096 4) ops).insert 0 m origin).2.isKnownMiss k
          = false := by
  intro h
  have h₁ := h [(0, .recordMiss (hexEncode [0x2a]))] (StandIn.module [0x2a] 10) .inline
    (hexEncode [0x2a]) (by decide +kernel)
  revert h₁
  decide +kernel

end SymbolCache

end VgiSymbols
