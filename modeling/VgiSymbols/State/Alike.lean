import VgiSymbols.Source.Local
import VgiSymbols.State.Negative

set_option autoImplicit false

/-! # Registries that answer alike

A lookup sees the registry through `locate` only. So if a relation between registries is kept by
locating and adding, and related registries locate the same (`AnswersAlike`), then states that
differ in related registries alone (`Alike`) give the same replies, and stay so
(`Alike.step`).
-/

namespace VgiSymbols

open Unwind

/-- Related registries locate the same in the worlds of `P`, and stay related when a token is
located or a source is added. -/
structure AnswersAlike (rd : Readers) (P : World → Prop)
    (R : SourceRegistry → SourceRegistry → Prop) : Prop where
  locate : ∀ w reg reg' token, P w → R reg reg' → reg.Unique → reg'.Unique →
    (reg.locate rd w.fs token).1 = (reg'.locate rd w.fs token).1 ∧
      R (reg.locate rd w.fs token).2 (reg'.locate rd w.fs token).2
  add : ∀ reg reg' kind path url bucket enabled secret, R reg reg' → reg.Unique → reg'.Unique →
    R (reg.add kind path url bucket enabled secret).2
      (reg'.add kind path url bucket enabled secret).2

namespace SymbolsState

variable {rd : Readers} {P : World → Prop} {R : SourceRegistry → SourceRegistry → Prop}

/-! ## Room for ids -/

/-- The ids are distinct, and stay so in the next `n` steps. -/
structure Roomy (n : Nat) (s : SymbolsState) : Prop where
  unique : s.sources.Unique
  room : s.sources.nextId.toNat + n < 2 ^ 64

theorem roomy_withBudgets {n : Nat} (hn : n < 2 ^ 64) (maxBytes : UInt64) (maxModules : Nat) :
    Roomy n (withBudgets maxBytes maxModules) where
  unique := SourceRegistry.unique_new
  room := by
    show 0 + n < 2 ^ 64
    omega

theorem Roomy.of_succ {n : Nat} {s : SymbolsState} (h : Roomy (n + 1) s) : Roomy n s where
  unique := h.unique
  room := by
    have hroom := h.room
    omega

theorem Roomy.lookup {n : Nat} {s : SymbolsState} (h : Roomy n s) (rd : Readers) (w : World)
    (token : String) : Roomy n (s.lookup rd w token).2 := by
  obtain ⟨hunique, hroom⟩ := h
  rcases sources_looked (looked_lookup rd w s token) with heq | heq
  · exact ⟨heq ▸ hunique, heq ▸ hroom⟩
  · refine ⟨heq ▸ hunique.ensureIndexed rd w.fs, ?_⟩
    rw [heq, SourceRegistry.nextId_ensureIndexed]
    exact hroom

/-- One number is used, at most. -/
theorem Roomy.addSource {n : Nat} {s : SymbolsState} (h : Roomy (n + 1) s) (kind : String)
    (path url bucket : Option String) (enabled : Option Bool) (secret : Option String) :
    Roomy n (s.addSource kind path url bucket enabled secret).2 := by
  have hroom := h.room
  have hnext := SourceRegistry.nextId_add_le s.sources kind path url bucket enabled secret
  constructor
  · rw [sources_addSource]
    exact h.unique.add fun _ _ => by omega
  · rw [sources_addSource]
    omega

theorem Roomy.dropSource {n : Nat} {s : SymbolsState} (h : Roomy n s) (sourceId : String) :
    Roomy n (s.dropSource sourceId).2 where
  unique := by
    rw [sources_dropSource]
    exact h.unique.dropSource sourceId
  room := by
    rw [sources_dropSource, SourceRegistry.nextId_dropSource]
    exact h.room

theorem Roomy.step {n : Nat} {s : SymbolsState} (h : Roomy (n + 1) s) {i : World × Op}
    (hi : i.2.isSession = true) : Roomy n (SymbolsState.step rd s i) := by
  obtain ⟨w, op⟩ := i
  cases op with
  | addSource kind path url bucket enabled secret => exact h.addSource _ _ _ _ _ _
  | dropSource sourceId => exact h.of_succ.dropSource sourceId
  | resolve token addr =>
      rw [step_resolve]
      exact h.of_succ.lookup rd w token
  | functionName token addr =>
      rw [step_functionName]
      exact h.of_succ.lookup rd w token
  | cacheEvict token => exact ⟨h.unique, h.of_succ.room⟩
  | importManifest manifest => cases hi
  | restart maxBytes maxModules => cases hi

theorem Roomy.runOps {ops : List (World × Op)} (hops : ∀ i ∈ ops, i.2.isSession = true)
    {n : Nat} {s : SymbolsState} (h : Roomy (n + ops.length) s) :
    Roomy n (SymbolsState.runOps rd s ops) := by
  induction ops generalizing s with
  | nil => exact h
  | cons i ops ih =>
      exact ih (fun j hj => hops j (by simp [hj])) (h.step (hops i (by simp)))

/-! ## States that look alike -/

/-- The states differ in related registries at most. -/
structure Alike (R : SourceRegistry → SourceRegistry → Prop) (n : Nat) (s s' : SymbolsState) :
    Prop where
  cache : s.cache = s'.cache
  limits : s.limits = s'.limits
  sources : R s.sources s'.sources
  roomy : Roomy n s
  roomy' : Roomy n s'

section Lookup

variable {fs fs' : FileSystem} (now : UInt64) {reg reg' : SourceRegistry} (c : SymbolCache)
  (limits : Limits) {token : String} (hreg : R reg reg')
  (hlocate : (reg.locate rd fs token).1 = (reg'.locate rd fs' token).1)
  (hnext : R (reg.locate rd fs token).2 (reg'.locate rd fs' token).2)
include hreg hlocate hnext

theorem ensureResident_of_locate :
    ∃ out r r' c', R r r' ∧
      (⟨reg, c, limits⟩ : SymbolsState).ensureResident rd ⟨fs, now⟩ token
        = (out, ⟨r, c', limits⟩) ∧
      (⟨reg', c, limits⟩ : SymbolsState).ensureResident rd ⟨fs', now⟩ token
        = (out, ⟨r', c', limits⟩) := by
  unfold ensureResident
  simp only
  by_cases hresident : c.isResident token = true
  · rw [if_pos hresident, if_pos hresident]
    exact ⟨_, reg, reg', c, hreg, rfl, rfl⟩
  by_cases hmiss : c.isKnownMiss token = true
  · rw [if_neg hresident, if_neg hresident, if_pos hmiss, if_pos hmiss]
    exact ⟨_, reg, reg', c, hreg, rfl, rfl⟩
  rw [if_neg hresident, if_neg hresident, if_neg hmiss, if_neg hmiss]
  rcases hl : reg.locate rd fs token with ⟨out, r⟩
  rcases hl' : reg'.locate rd fs' token with ⟨out', r'⟩
  rw [hl, hl'] at hlocate hnext
  obtain rfl : out = out' := hlocate
  rcases out with (_ | located) | _
  · exact ⟨_, r, r', _, hnext, rfl, rfl⟩
  · simp only
    cases ParsedModule.parse rd located.data located.name limits with
    | error e => exact ⟨_, r, r', _, hnext, rfl, rfl⟩
    | ok m => exact ⟨_, r, r', _, hnext, rfl, rfl⟩
  · exact ⟨_, r, r', _, hnext, rfl, rfl⟩

/-- Only the registries that lookups leave can differ. -/
theorem lookup_of_locate :
    ∃ out r r' c', R r r' ∧
      (⟨reg, c, limits⟩ : SymbolsState).lookup rd ⟨fs, now⟩ token = (out, ⟨r, c', limits⟩) ∧
      (⟨reg', c, limits⟩ : SymbolsState).lookup rd ⟨fs', now⟩ token
        = (out, ⟨r', c', limits⟩) := by
  cases hr : c.reached token with
  | some r =>
      exact ⟨_, reg, reg', _, hreg, lookup_of_reached hr, lookup_of_reached hr⟩
  | none =>
      obtain ⟨out, r, r', c', hsame, hensure, hensure'⟩ :=
        ensureResident_of_locate now c limits hreg hlocate hnext
      unfold lookup
      simp only [hr, hensure, hensure']
      rcases out with (kind | (_ | _)) | _
      · exact ⟨_, r, r', c', hsame, rfl, rfl⟩
      · exact ⟨_, r, r', c', hsame, rfl, rfl⟩
      · simp only
        cases c'.reached token with
        | none => exact ⟨_, r, r', c', hsame, rfl, rfl⟩
        | some m => exact ⟨_, r, r', _, hsame, rfl, rfl⟩
      · exact ⟨_, r, r', c', hsame, rfl, rfl⟩

end Lookup

theorem Alike.lookup (hR : AnswersAlike rd P R) {n : Nat} {s s' : SymbolsState}
    (h : Alike R (n + 1) s s') {w : World} (hw : P w) (token : String) :
    (s.lookup rd w token).1 = (s'.lookup rd w token).1 ∧
      Alike R n (s.lookup rd w token).2 (s'.lookup rd w token).2 := by
  obtain ⟨hlocate, hlocated⟩ :=
    hR.locate w _ _ token hw h.sources h.roomy.unique h.roomy'.unique
  obtain ⟨out, r, r', c', hsame, hs, hs'⟩ :=
    lookup_of_locate w.now s.cache s.limits h.sources hlocate hlocated
  have heq : s' = ⟨s'.sources, s.cache, s.limits⟩ := by
    rw [h.cache, h.limits]
  have hs : s.lookup rd w token = (out, ⟨r, c', s.limits⟩) := hs
  have hs' : s'.lookup rd w token = (out, ⟨r', c', s.limits⟩) := by
    rw [heq]
    exact hs'
  have hroomy := (h.roomy.lookup rd w token).of_succ
  have hroomy' := (h.roomy'.lookup rd w token).of_succ
  rw [hs] at hroomy ⊢
  rw [hs'] at hroomy' ⊢
  exact ⟨rfl, rfl, rfl, hsame, hroomy, hroomy'⟩

theorem Alike.addSource (hR : AnswersAlike rd P R) {n : Nat} {s s' : SymbolsState}
    (h : Alike R (n + 1) s s') (kind : String) (path url bucket : Option String)
    (enabled : Option Bool) (secret : Option String) :
    Alike R n (s.addSource kind path url bucket enabled secret).2
      (s'.addSource kind path url bucket enabled secret).2 where
  cache := by rw [cache_addSource, cache_addSource, h.cache]
  limits := by rw [limits_addSource, limits_addSource, h.limits]
  sources := by
    rw [sources_addSource, sources_addSource]
    exact hR.add _ _ kind path url bucket enabled secret h.sources h.roomy.unique h.roomy'.unique
  roomy := h.roomy.addSource kind path url bucket enabled secret
  roomy' := h.roomy'.addSource kind path url bucket enabled secret

/-! ## Runs -/

/-- What the lookups and the evictions of a run return. The id that registering a source returns
is left out: it counts the sources before it. -/
def shown (rd : Readers) (s : SymbolsState) (i : World × Op) : Option Reply :=
  if i.2.isWork then some (reply rd s i) else none

theorem shown_of_not_work {s : SymbolsState} {i : World × Op} (hi : i.2.isWork = false) :
    shown rd s i = none := by
  rw [shown, hi]
  rfl

/-- The operation is a lookup or an eviction, or registers a source. -/
def Op.dropsNone : Op → Bool
  | .addSource _ _ _ _ _ _ => true
  | op => op.isWork

theorem Op.isSession_of_dropsNone {op : Op} (h : op.dropsNone = true) : op.isSession = true := by
  cases op <;> first | rfl | cases h

/-- **The step lemma.** -/
theorem Alike.step (hR : AnswersAlike rd P R) {n : Nat} {s s' : SymbolsState}
    (h : Alike R (n + 1) s s') {i : World × Op} (hi : i.2.dropsNone = true) (hw : P i.1) :
    shown rd s i = shown rd s' i ∧ Alike R n (step rd s i) (step rd s' i) := by
  obtain ⟨w, op⟩ := i
  cases op with
  | addSource kind path url bucket enabled secret =>
      rw [shown_of_not_work rfl, shown_of_not_work rfl]
      exact ⟨rfl, h.addSource hR kind path url bucket enabled secret⟩
  | resolve token addr =>
      obtain ⟨hout, hnext⟩ := h.lookup hR hw token
      refine ⟨?_, ?_⟩
      · show some (Reply.frames (s.resolve rd w token addr).1)
          = some (Reply.frames (s'.resolve rd w token addr).1)
        rw [resolve_eq_lookup, resolve_eq_lookup, hout, h.limits]
      · rwa [step_resolve, step_resolve]
  | functionName token addr =>
      obtain ⟨hout, hnext⟩ := h.lookup hR hw token
      refine ⟨?_, ?_⟩
      · show some (Reply.name (s.functionName rd w token addr).1)
          = some (Reply.name (s'.functionName rd w token addr).1)
        rw [functionName_eq_lookup, functionName_eq_lookup, hout]
      · rwa [step_functionName, step_functionName]
  | cacheEvict token =>
      have hout (t : SymbolsState) : shown rd t (w, .cacheEvict token)
          = some (.freed (t.cache.evict token).1) := rfl
      have hstep (t : SymbolsState) : SymbolsState.step rd t (w, .cacheEvict token)
          = { t with cache := (t.cache.evict token).2 } := rfl
      rw [hout, hout, hstep, hstep, h.cache]
      exact ⟨rfl, rfl, h.limits, h.sources, ⟨h.roomy.unique, h.roomy.of_succ.room⟩,
        ⟨h.roomy'.unique, h.roomy'.of_succ.room⟩⟩
  | dropSource sourceId => cases hi
  | importManifest manifest => cases hi
  | restart maxBytes maxModules => cases hi

/-- **The run lemma.** -/
theorem Alike.run (hR : AnswersAlike rd P R) {ops : List (World × Op)}
    (hops : ∀ i ∈ ops, i.2.dropsNone = true ∧ P i.1) {n : Nat} {s s' : SymbolsState}
    (h : Alike R (n + ops.length) s s') :
    Run.emitted (SymbolsState.step rd) (shown rd) s ops
        = Run.emitted (SymbolsState.step rd) (shown rd) s' ops ∧
      Alike R n (Run.run (SymbolsState.step rd) s ops) (Run.run (SymbolsState.step rd) s' ops) := by
  have hstep : ∀ n s s' (i : World × Op), Alike R (n + 1) s s' → i.2.dropsNone = true ∧ P i.1 →
      shown rd s i = shown rd s' i ∧
        Alike R n (SymbolsState.step rd s i) (SymbolsState.step rd s' i) :=
    fun _ _ _ _ h hi => h.step hR hi.1 hi.2
  exact Run.emitted_eq hstep hops h

end SymbolsState

end VgiSymbols
