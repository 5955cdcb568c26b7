import VgiSymbols.Cache.Timeless
import VgiSymbols.State.Lookup

set_option autoImplicit false

/-! # The spelling of tokens

Every use of a token goes through `canonicalToken`, and no timestamp decides anything. So each
step does, up to timestamps, what it does on the canonical spelling at time zero
(`step_canonical`), and runs that agree there show the same (`trace_respelled`).
-/

namespace VgiSymbols

/-! ## A token and its canonical form -/

section Canonical

variable {token token' : String} (h : canonicalToken token = canonicalToken token')
include h

namespace SymbolCache

theorem resolveDebugId_congr (c : SymbolCache) :
    c.resolveDebugId token = c.resolveDebugId token' := by
  rw [resolveDebugId, h, resolveDebugId]

theorem reached_congr (c : SymbolCache) : c.reached token = c.reached token' := by
  rw [reached, resolveDebugId_congr h, reached]

theorem touch_congr (c : SymbolCache) (now : UInt64) : c.touch now token = c.touch now token' := by
  rw [touch, resolveDebugId_congr h, touch]

theorem recordMiss_congr (c : SymbolCache) (now : UInt64) :
    c.recordMiss now token = c.recordMiss now token' := by
  rw [recordMiss, h, recordMiss]

theorem evict_congr (c : SymbolCache) : c.evict (some token) = c.evict (some token') := by
  rw [evict, resolveDebugId_congr h, evict]

end SymbolCache

theorem SourceRegistry.locate_congr (rd : Readers) (fs : FileSystem) (reg : SourceRegistry) :
    reg.locate rd fs token = reg.locate rd fs token' := by
  unfold locate
  rw [h]

namespace SymbolsState

theorem ensureResident_congr (rd : Readers) (w : World) (s : SymbolsState) :
    s.ensureResident rd w token = s.ensureResident rd w token' := by
  unfold ensureResident
  rw [SymbolCache.isResident_eq, SymbolCache.isResident_eq, SymbolCache.reached_congr h,
    SymbolCache.isKnownMiss, SymbolCache.isKnownMiss, h, SourceRegistry.locate_congr h,
    SymbolCache.recordMiss_congr h]

/-- A lookup depends on the canonical form of its token only. -/
theorem lookup_congr (rd : Readers) (w : World) (s : SymbolsState) :
    s.lookup rd w token = s.lookup rd w token' := by
  unfold lookup touch
  simp only [SymbolCache.reached_congr h, SymbolCache.touch_congr h, ensureResident_congr h]

end SymbolsState

end Canonical

/-! ## Steps without timestamps -/

/-- The world at time zero. -/
def World.still (w : World) : World := { w with now := 0 }

namespace SymbolsState

/-- The state without timestamps. -/
def timeless (s : SymbolsState) : SymbolsState := { s with cache := s.cache.timeless }

theorem ensureResident_timeless (rd : Readers) (w : World) (s : SymbolsState) (token : String) :
    s.timeless.ensureResident rd w.still token
      = ((s.ensureResident rd w token).1, (s.ensureResident rd w token).2.timeless) := by
  have hresident : s.timeless.cache.isResident token = s.cache.isResident token :=
    SymbolCache.isResident_timeless s.cache token
  have hmiss : s.timeless.cache.isKnownMiss token = s.cache.isKnownMiss token := rfl
  have hlocate : s.timeless.sources.locate rd w.still.fs token = s.sources.locate rd w.fs token :=
    rfl
  unfold ensureResident
  rw [hresident, hmiss, hlocate]
  split_ifs with h₁ h₂
  · rfl
  · rfl
  · rcases s.sources.locate rd w.fs token with ⟨(_ | located) | _, sources⟩
    · -- The miss is recorded at another time.
      exact Prod.ext rfl (congrArg (fun cache => SymbolsState.mk sources cache s.limits)
        (SymbolCache.timeless_recordMiss s.cache w.now token).symm)
    · have hlimits : s.timeless.limits = s.limits := rfl
      simp only [hlimits]
      cases ParsedModule.parse rd located.data located.name s.limits with
      | error e => rfl
      | ok m =>
          exact Prod.ext rfl (congrArg (fun cache => SymbolsState.mk sources cache s.limits)
            (SymbolCache.timeless_insert s.cache w.now m located.origin).symm)
    · rfl

theorem lookup_timeless (rd : Readers) (w : World) (s : SymbolsState) (token : String) :
    s.timeless.lookup rd w.still token
      = ((s.lookup rd w token).1, (s.lookup rd w token).2.timeless) := by
  have hreached : ∀ s : SymbolsState, s.timeless.cache.reached token
      = (s.cache.reached token).map Resident.timeless :=
    fun s => SymbolCache.reached_timeless s.cache token
  have htouch : ∀ s : SymbolsState, s.timeless.touch w.still token = (s.touch w token).timeless :=
    fun s => congrArg (fun cache => SymbolsState.mk s.sources cache s.limits)
      (SymbolCache.timeless_touch s.cache w.now token).symm
  unfold lookup
  rw [hreached, ensureResident_timeless]
  cases s.cache.reached token with
  | some r => exact Prod.ext rfl (htouch s)
  | none =>
      rcases s.ensureResident rd w token with ⟨(kind | (_ | _)) | _, s'⟩
      · rfl
      · rfl
      · simp only [Option.map_none, hreached]
        cases s'.cache.reached token with
        | none => rfl
        | some r => exact Prod.ext rfl (htouch s')
      · rfl

/-- The token is looked up in its canonical form, and at another time. -/
theorem lookup_canonical (rd : Readers) (w : World) (s : SymbolsState) (token : String) :
    s.timeless.lookup rd w.still (canonicalToken token)
      = ((s.lookup rd w token).1, (s.lookup rd w token).2.timeless) :=
  calc s.timeless.lookup rd w.still (canonicalToken token)
      = s.timeless.lookup rd w.still token := lookup_congr (canonicalToken_idem token) rd _ _
    _ = ((s.lookup rd w token).1, (s.lookup rd w token).2.timeless) := lookup_timeless rd w s token

theorem addSource_timeless (s : SymbolsState) (kind : String) (path url bucket : Option String)
    (enabled : Option Bool) (secret : Option String) :
    s.timeless.addSource kind path url bucket enabled secret
      = ((s.addSource kind path url bucket enabled secret).1,
        (s.addSource kind path url bucket enabled secret).2.timeless) := by
  have hsources : s.timeless.sources = s.sources := rfl
  unfold addSource
  rw [hsources]
  rcases s.sources.add kind path url bucket enabled secret with ⟨r, sources⟩
  rfl

theorem dropSource_timeless (s : SymbolsState) (sourceId : String) :
    s.timeless.dropSource sourceId
      = ((s.dropSource sourceId).1, (s.dropSource sourceId).2.timeless) := by
  have hsources : s.timeless.sources = s.sources := rfl
  unfold dropSource
  rw [hsources]
  rcases s.sources.dropSource sourceId with ⟨found, sources⟩
  rfl

theorem exportManifest_timeless (s : SymbolsState) :
    s.timeless.exportManifest = (s.exportManifest.1.timeless, s.exportManifest.2.timeless) := by
  obtain ⟨hmanifest, hcache⟩ := Prod.ext_iff.mp
    (SymbolCache.timeless_toManifest s.cache s.sources.sources)
  exact Prod.ext hmanifest
    (congrArg (fun cache => SymbolsState.mk s.sources cache s.limits) hcache)

/-! ## Operations in their canonical spelling -/

/-- The operation with its token in canonical form, and without the timestamps of a manifest. -/
def Op.canonical : Op → Op
  | .resolve token addr => .resolve (canonicalToken token) addr
  | .functionName token addr => .functionName (canonicalToken token) addr
  | .cacheEvict token => .cacheEvict (token.map canonicalToken)
  | .importManifest manifest => .importManifest manifest.timeless
  | op => op

/-- The operation in its canonical spelling, at time zero. -/
def canonical (i : World × Op) : World × Op := (i.1.still, i.2.canonical)

/-- **A step depends on the canonical spelling of its operation only**, but for timestamps. -/
theorem step_canonical (rd : Readers) (s : SymbolsState) (i : World × Op) :
    reply rd s.timeless (canonical i) = reply rd s i ∧
      step rd s.timeless (canonical i) = (step rd s i).timeless := by
  obtain ⟨w, op⟩ := i
  cases op with
  | addSource kind path url bucket enabled secret =>
      have hadd := addSource_timeless s kind path url bucket enabled secret
      constructor
      · simp only [reply, canonical, Op.canonical, hadd]
      · simp only [step, canonical, Op.canonical, hadd]
  | dropSource sourceId =>
      have hdrop := dropSource_timeless s sourceId
      constructor
      · simp only [reply, canonical, Op.canonical, hdrop]
      · simp only [step, canonical, Op.canonical, hdrop]
  | resolve token addr =>
      have hlookup := lookup_canonical rd w s token
      have hresolve : s.timeless.resolve rd w.still (canonicalToken token) addr
          = ((s.resolve rd w token addr).1, (s.resolve rd w token addr).2.timeless) := by
        rw [resolve_eq_lookup, resolve_eq_lookup, hlookup]
        rfl
      constructor
      · simp only [reply, canonical, Op.canonical, hresolve]
      · simp only [step, canonical, Op.canonical, hresolve]
  | functionName token addr =>
      have hlookup := lookup_canonical rd w s token
      have hname : s.timeless.functionName rd w.still (canonicalToken token) addr
          = ((s.functionName rd w token addr).1, (s.functionName rd w token addr).2.timeless) := by
        rw [functionName_eq_lookup, functionName_eq_lookup, hlookup]
      constructor
      · simp only [reply, canonical, Op.canonical, hname]
      · simp only [step, canonical, Op.canonical, hname]
  | cacheEvict token =>
      have hspelling : s.timeless.cache.evict (token.map canonicalToken)
          = s.timeless.cache.evict token := by
        cases token with
        | none => rfl
        | some t => exact SymbolCache.evict_congr (canonicalToken_idem t) s.timeless.cache
      obtain ⟨hfreed, hcache⟩ := Prod.ext_iff.mp
        (hspelling.trans (SymbolCache.evict_timeless s.cache token))
      exact ⟨congrArg Reply.freed hfreed,
        congrArg (fun cache => SymbolsState.mk s.sources cache s.limits) hcache⟩
  | importManifest manifest =>
      exact ⟨rfl, congrArg (fun cache => SymbolsState.mk _ cache s.limits)
        (SymbolCache.timeless_rehydrate s.cache manifest).symm⟩
  | restart maxBytes maxModules =>
      have hmanifest := congrArg Prod.fst (exportManifest_timeless s)
      have hrehydrate := SymbolCache.timeless_rehydrate (SymbolCache.new maxBytes maxModules)
        s.exportManifest.1
      refine ⟨rfl, ?_⟩
      show (withBudgets maxBytes maxModules).importManifest s.timeless.exportManifest.1 = _
      rw [hmanifest]
      exact congrArg (fun cache => SymbolsState.mk _ cache Limits.default) hrehydrate.symm

/-! ## Runs -/

/-- Operations that are spelled differently at most, on the same files. -/
def Respelled (i i' : World × Op) : Prop := i.1.fs = i'.1.fs ∧ i.2.canonical = i'.2.canonical

/-- **The spelling of tokens is irrelevant.** Runs of operations that are spelled differently give
the same replies and export the same manifest up to timestamps. -/
theorem trace_respelled (rd : Readers) (s : SymbolsState) {ops ops' : List (World × Op)}
    (hops : List.Forall₂ Respelled ops ops') :
    Run.trace (step rd) (reply rd) s ops = Run.trace (step rd) (reply rd) s ops' ∧
      (runOps rd s ops).exportManifest.1.timeless
        = (runOps rd s ops').exportManifest.1.timeless := by
  have hstep : ∀ s s' i i', s.timeless = s'.timeless → Respelled i i' → True →
      reply rd s i = reply rd s' i' ∧ (step rd s i).timeless = (step rd s' i').timeless := by
    rintro s s' ⟨w, op⟩ ⟨w', op'⟩ hs ⟨hfs, hop⟩ -
    have hi : canonical (w, op) = canonical (w', op') :=
      Prod.ext (congrArg (World.mk · 0) hfs) hop
    obtain ⟨hreply, hnext⟩ := step_canonical rd s (w, op)
    obtain ⟨hreply', hnext'⟩ := step_canonical rd s' (w', op')
    exact ⟨by rw [← hreply, ← hreply', hs, hi], by rw [← hnext, ← hnext', hs, hi]⟩
  obtain ⟨htrace, hend⟩ := Run.trace_eq hstep (s := s) rfl hops
    (Run.MeetsAlong.of_forall (fun _ _ => trivial) s ops)
  refine ⟨htrace, ?_⟩
  have hexport : ∀ s : SymbolsState,
      s.timeless.exportManifest.1 = s.exportManifest.1.timeless :=
    fun s => congrArg Prod.fst (exportManifest_timeless s)
  rw [← hexport, ← hexport]
  exact congrArg (fun s => s.exportManifest.1) hend

/-- A module is resolved by one spelling of its token and evicted by another. -/
def resolveAndEvict (t t' : String) (now : UInt64) : List (World × Op) :=
  [(⟨StandIn.goodAndBad, now⟩, .resolve t 4), (⟨StandIn.goodAndBad, now⟩, .cacheEvict (some t'))]

theorem respelled_resolveAndEvict {t₁ t₁' t₂ t₂' : String}
    (h : canonicalToken t₁ = canonicalToken t₂) (h' : canonicalToken t₁' = canonicalToken t₂')
    (now₁ now₂ : UInt64) :
    List.Forall₂ Respelled (resolveAndEvict t₁ t₁' now₁) (resolveAndEvict t₂ t₂' now₂) :=
  .cons ⟨rfl, congrArg (Op.resolve · 4) h⟩
    (.cons ⟨rfl, congrArg (fun t => Op.cacheEvict (some t)) h'⟩ .nil)

theorem trace_respelled_resolveAndEvict :
    Run.trace (step StandIn.readers) (reply StandIn.readers)
        ⟨StandIn.oneDirectory, SymbolCache.new 4096 4, Limits.default⟩
        (resolveAndEvict "11111111111111111111111111111111"
          "{11111111111111111111111111111111}" 0)
      = Run.trace (step StandIn.readers) (reply StandIn.readers)
        ⟨StandIn.oneDirectory, SymbolCache.new 4096 4, Limits.default⟩
        (resolveAndEvict "1111-1111-1111-1111-1111-1111-1111-1111"
          " 11111111111111111111111111111111" 1) :=
  (trace_respelled StandIn.readers _
    (respelled_resolveAndEvict (congrArg String.ofList (by decide +kernel))
      (congrArg String.ofList (by decide +kernel)) 0 1)).1

end SymbolsState

end VgiSymbols
