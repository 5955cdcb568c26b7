import VgiSymbols.Source.Registry
import VgiSymbols.Cache.Runs
import VgiSymbols.Core.State

set_option autoImplicit false

/-! # What answers a lookup

`resolve` and `functionName` share their flow and differ only in the question they put to the
module. `lookup` is that flow: it yields an `Answer` (a module, `not_found` or an error) and
the state left behind. Both entry points are `lookup` followed by a projection of the answer
(`resolve_eq_lookup`, `functionName_eq_lookup`), so everything about histories is proved once,
of `lookup`, by the cases of `Looked`.
-/

namespace VgiSymbols

open Unwind

/-- What a token is answered by. -/
inductive Answer where
  | module (m : ParsedModule)
  | notFound
  | error (kind : ErrorKind)

namespace Answer

/-- The answer a parse leads to. -/
def ofParse : SymResult ParsedModule → Answer
  | .ok m => .module m
  | .error e => .error e.kind

theorem ofParse_eq_module {r : SymResult ParsedModule} {m : ParsedModule} :
    ofParse r = .module m ↔ r = .ok m := by
  cases r <;> simp [ofParse]

/-- The rows of an answer at an address. -/
def frames (rd : Readers) (limits : Limits) (addr : UInt64) : Answer → List ResolvedFrame
  | .module m => m.resolve rd addr limits
  | .notFound => [ResolvedFrame.notFound]
  | .error kind => [ResolvedFrame.error kind none]

/-- The function name of an answer at an address. -/
def functionName (rd : Readers) (addr : UInt64) : Answer → Option String
  | .module m => m.functionName rd addr
  | .notFound => none
  | .error _ => none

end Answer

namespace SymbolsState

/-- The state after a lookup of the token was answered by a resident module. -/
def touch (w : World) (token : String) (s : SymbolsState) : SymbolsState :=
  { s with cache := s.cache.touch w.now token }

/-- The flow of a lookup. -/
def lookup (rd : Readers) (w : World) (s : SymbolsState) (token : String) :
    Unwind Answer × SymbolsState :=
  match s.cache.reached token with
  | some r => (.returned (.module r.module), s.touch w token)
  | none =>
      match s.ensureResident rd w token with
      | (.panicked, s) => (.panicked, s)
      | (.returned (.ok true), s) =>
          match s.cache.reached token with
          | some r => (.returned (.module r.module), s.touch w token)
          | none => (.returned .notFound, s)
      | (.returned (.ok false), s) => (.returned .notFound, s)
      | (.returned (.error kind), s) => (.returned (.error kind), s)

theorem lookup_of_reached {rd : Readers} {w : World} {s : SymbolsState} {token : String}
    {r : Resident} (h : s.cache.reached token = some r) :
    s.lookup rd w token = (.returned (.module r.module), s.touch w token) := by
  rw [lookup, h]

theorem limits_ensureResident (rd : Readers) (w : World) (s : SymbolsState) (token : String) :
    (s.ensureResident rd w token).2.limits = s.limits := by
  unfold ensureResident
  split_ifs
  · rfl
  · rfl
  · split
    · rfl
    · split <;> rfl
    · rfl

/-- **`resolve` is a lookup followed by the rows of the answer.** -/
theorem resolve_eq_lookup (rd : Readers) (w : World) (s : SymbolsState) (token : String)
    (addr : UInt64) :
    s.resolve rd w token addr =
      (Answer.frames rd s.limits addr <$> (s.lookup rd w token).1, (s.lookup rd w token).2) := by
  unfold resolve lookup
  simp only [SymbolCache.resolve_eq]
  cases s.cache.reached token with
  | some r => rfl
  | none =>
      have hl := limits_ensureResident rd w s token
      cases he : s.ensureResident rd w token with
      | mk out s' =>
          rw [he] at hl
          rcases out with (kind | (_ | _)) | _
          · rfl
          · rfl
          · simp only [Option.map_none]
            cases hr : s'.cache.reached token with
            | none => rfl
            | some r =>
                have hl' : s'.limits = s.limits := hl
                rw [← hl']
                rfl
          · rfl

/-- **`functionName` is a lookup followed by the name of the answer.** -/
theorem functionName_eq_lookup (rd : Readers) (w : World) (s : SymbolsState) (token : String)
    (addr : UInt64) :
    s.functionName rd w token addr =
      (Answer.functionName rd addr <$> (s.lookup rd w token).1, (s.lookup rd w token).2) := by
  unfold functionName lookup
  simp only [SymbolCache.functionName_eq]
  cases s.cache.reached token with
  | some r => rfl
  | none =>
      cases s.ensureResident rd w token with
      | mk out s' =>
          rcases out with (kind | (_ | _)) | _
          · rfl
          · rfl
          · simp only [Option.map_none]
            cases s'.cache.reached token <;> rfl
          · rfl

theorem resolve_returns_iff {rd : Readers} (w : World) (s : SymbolsState) (token : String)
    (addr : UInt64) :
    (s.resolve rd w token addr).1.Returns ↔ (s.lookup rd w token).1.Returns := by
  rw [resolve_eq_lookup]
  exact returns_map

theorem functionName_returns_iff {rd : Readers} (w : World) (s : SymbolsState) (token : String)
    (addr : UInt64) :
    (s.functionName rd w token addr).1.Returns ↔ (s.lookup rd w token).1.Returns := by
  rw [functionName_eq_lookup]
  exact returns_map

theorem step_resolve (rd : Readers) (s : SymbolsState) (w : World) (token : String)
    (addr : UInt64) : step rd s (w, .resolve token addr) = (s.lookup rd w token).2 := by
  show (s.resolve rd w token addr).2 = _
  rw [resolve_eq_lookup]

theorem step_functionName (rd : Readers) (s : SymbolsState) (w : World) (token : String)
    (addr : UInt64) : step rd s (w, .functionName token addr) = (s.lookup rd w token).2 := by
  show (s.functionName rd w token addr).2 = _
  rw [functionName_eq_lookup]

/-- The token of a lookup. -/
def Op.token? : Op → Option String
  | .resolve token _ | .functionName token _ => some token
  | _ => none

theorem step_of_token_eq_some {rd : Readers} {s : SymbolsState} {i : World × Op} {token : String}
    (hi : i.2.token? = some token) : step rd s i = (s.lookup rd i.1 token).2 := by
  obtain ⟨w, op⟩ := i
  cases op with
  | resolve token' addr =>
      cases hi
      exact step_resolve rd s w token addr
  | functionName token' addr =>
      cases hi
      exact step_functionName rd s w token addr
  | addSource kind path url bucket enabled secret => cases hi
  | dropSource sourceId => cases hi
  | cacheEvict token' => cases hi
  | importManifest manifest => cases hi
  | restart maxBytes maxModules => cases hi

/-! ## The cases of a lookup -/

/-- The file a lookup hands to the parser, if it gets that far. -/
def parseAttempt (rd : Readers) (w : World) (s : SymbolsState) (token : String) :
    Option Located :=
  if s.cache.isResident token || s.cache.isKnownMiss token then none
  else (s.sources.locate rd w.fs token).1.catchUnwind.join

theorem parseAttempt_eq_some {rd : Readers} {w : World} {s : SymbolsState} {token : String}
    {located : Located} :
    s.parseAttempt rd w token = some located ↔
      s.cache.isResident token = false ∧ s.cache.isKnownMiss token = false ∧
        (s.sources.locate rd w.fs token).1 = .returned (some located) := by
  unfold parseAttempt
  cases s.cache.isResident token <;> cases s.cache.isKnownMiss token <;>
    simp [Option.join_eq_some_iff, Unwind.catchUnwind_eq_some]

/-- It is the one that the index has for the token. -/
theorem indexedFile_of_parseAttempt {rd : Readers} {w : World} {s : SymbolsState}
    {token : String} {located : Located}
    (h : s.parseAttempt rd w token = some located) :
    ∃ path, s.sources.indexedFile rd w.fs token = some path ∧
      w.fs.read path = some located.data ∧
      located.name = (fileName path).getD (canonicalToken token) ∧
      located.origin.path = some (toStringLossy path) := by
  obtain ⟨-, -, hlocate⟩ := parseAttempt_eq_some.mp h
  exact SourceRegistry.indexedFile_of_locate (Prod.ext hlocate rfl)

/-- A token that reaches no module and is no known miss is looked up in the sources. -/
theorem goesOn_of_reached_eq_none {s : SymbolsState} {token : String}
    (hr : s.cache.reached token = none) (hm : canonicalToken token ∉ s.cache.negative) :
    (s.cache.isResident token || s.cache.isKnownMiss token) = false := by
  rw [SymbolCache.isResident_eq, hr, SymbolCache.isKnownMiss, decide_eq_false hm]
  rfl

/-- Every way a lookup of the token can go: the file it hands to the parser, what it answers
and the state it leaves. -/
inductive Looked (rd : Readers) (w : World) (s : SymbolsState) (token : String) :
    Option Located → Unwind Answer → SymbolsState → Prop where
  /-- A resident module answers. -/
  | hit {r : Resident} (hr : s.cache.reached token = some r) :
      Looked rd w s token none (.returned (.module r.module)) (s.touch w token)
  /-- The negative cache answers. -/
  | miss (hr : s.cache.reached token = none) (hm : canonicalToken token ∈ s.cache.negative) :
      Looked rd w s token none (.returned .notFound) s
  /-- Indexing unwinds. -/
  | unwound {sources : SourceRegistry} (hr : s.cache.reached token = none)
      (hm : canonicalToken token ∉ s.cache.negative)
      (hl : s.sources.locate rd w.fs token = (.panicked, sources)) :
      Looked rd w s token none .panicked { s with sources := sources }
  /-- No source has the token; the miss is recorded. -/
  | absent {sources : SourceRegistry} (hr : s.cache.reached token = none)
      (hm : canonicalToken token ∉ s.cache.negative)
      (hl : s.sources.locate rd w.fs token = (.returned none, sources)) :
      Looked rd w s token none (.returned .notFound)
        { s with sources := sources, cache := s.cache.recordMiss w.now token }
  /-- The located file does not parse; nothing is recorded. -/
  | failed {sources : SourceRegistry} {located : Located} {e : SymError}
      (hr : s.cache.reached token = none) (hm : canonicalToken token ∉ s.cache.negative)
      (hl : s.sources.locate rd w.fs token = (.returned (some located), sources))
      (hp : ParsedModule.parse rd located.data located.name s.limits = .error e) :
      Looked rd w s token (some located) (.returned (.error e.kind))
        { s with sources := sources }
  /-- The located file parses, and the token reaches a module after the insert. -/
  | parsed {sources : SourceRegistry} {located : Located} {m : ParsedModule} {r : Resident}
      (hr : s.cache.reached token = none) (hm : canonicalToken token ∉ s.cache.negative)
      (hl : s.sources.locate rd w.fs token = (.returned (some located), sources))
      (hp : ParsedModule.parse rd located.data located.name s.limits = .ok m)
      (hr' : (s.cache.insert w.now m located.origin).2.reached token = some r) :
      Looked rd w s token (some located) (.returned (.module r.module))
        { s with
          sources := sources
          cache := (s.cache.insert w.now m located.origin).2.touch w.now token }
  /-- The located file parses to a module that does not answer to the token. -/
  | lost {sources : SourceRegistry} {located : Located} {m : ParsedModule}
      (hr : s.cache.reached token = none) (hm : canonicalToken token ∉ s.cache.negative)
      (hl : s.sources.locate rd w.fs token = (.returned (some located), sources))
      (hp : ParsedModule.parse rd located.data located.name s.limits = .ok m)
      (hr' : (s.cache.insert w.now m located.origin).2.reached token = none) :
      Looked rd w s token (some located) (.returned .notFound)
        { s with sources := sources, cache := (s.cache.insert w.now m located.origin).2 }

theorem looked_lookup (rd : Readers) (w : World) (s : SymbolsState) (token : String) :
    Looked rd w s token (s.parseAttempt rd w token) (s.lookup rd w token).1
      (s.lookup rd w token).2 := by
  unfold lookup parseAttempt
  rw [SymbolCache.isResident_eq]
  cases hr : s.cache.reached token with
  | some r => exact .hit hr
  | none =>
      have hres : s.cache.isResident token = false := by
        rw [SymbolCache.isResident_eq, hr]
        rfl
      unfold ensureResident
      simp only [hres, Option.isSome_none, Bool.false_eq_true, if_false, Bool.false_or]
      by_cases hm : canonicalToken token ∈ s.cache.negative
      · rw [if_pos (SymbolCache.isKnownMiss_iff.mpr hm),
          if_pos (SymbolCache.isKnownMiss_iff.mpr hm)]
        exact .miss hr hm
      · have hmiss : ¬ s.cache.isKnownMiss token = true :=
          fun h => hm (SymbolCache.isKnownMiss_iff.mp h)
        rw [if_neg hmiss, if_neg hmiss]
        cases hl : s.sources.locate rd w.fs token with
        | mk out sources =>
            rcases out with (_ | located) | _
            · exact .absent hr hm hl
            · simp only
              cases hp : ParsedModule.parse rd located.data located.name s.limits with
              | error e => exact .failed hr hm hl hp
              | ok m =>
                  simp only
                  cases hr' : (s.cache.insert w.now m located.origin).2.reached token with
                  | none => exact .lost hr hm hl hp hr'
                  | some r => exact .parsed hr hm hl hp hr'
            · exact .unwound hr hm hl

/-! ## What a lookup leaves alone -/

section Looked

variable {rd : Readers} {w : World} {s s' : SymbolsState} {token : String}
  {attempt : Option Located} {out : Unwind Answer}

theorem limits_looked (h : Looked rd w s token attempt out s') : s'.limits = s.limits := by
  cases h <;> rfl

/-- The registry is left as it was, or indexed. -/
theorem sources_looked (h : Looked rd w s token attempt out s') :
    s'.sources = s.sources ∨ s'.sources = (s.sources.ensureIndexed rd w.fs).2 := by
  cases h with
  | hit hr => exact Or.inl rfl
  | miss hr hm => exact Or.inl rfl
  | unwound hr hm hl => exact Or.inr (SourceRegistry.eq_ensureIndexed_of_locate hl)
  | absent hr hm hl => exact Or.inr (SourceRegistry.eq_ensureIndexed_of_locate hl)
  | failed hr hm hl hp => exact Or.inr (SourceRegistry.eq_ensureIndexed_of_locate hl)
  | parsed hr hm hl hp hr' => exact Or.inr (SourceRegistry.eq_ensureIndexed_of_locate hl)
  | lost hr hm hl hp hr' => exact Or.inr (SourceRegistry.eq_ensureIndexed_of_locate hl)

/-- A lookup adds and drops no source. -/
theorem specs_looked (h : Looked rd w s token attempt out s') :
    s'.sources.sources = s.sources.sources := by
  rcases sources_looked h with heq | heq
  · rw [heq]
  · rw [heq, SourceRegistry.sources_ensureIndexed]

/-- A module that is resident after a lookup was resident before, or was parsed by it. -/
theorem peek_looked (h : Looked rd w s token attempt out s') {d : String} {r : Resident}
    (hd : s'.cache.resident.peek d = some r) :
    (∃ r₀, s.cache.resident.peek d = some r₀ ∧ r₀.module = r.module ∧ r₀.bytes = r.bytes) ∨
      r.bytes = r.module.residentBytes ∧
        ∃ data name, ParsedModule.parse rd data name s.limits = .ok r.module := by
  have hinsert : ∀ {located : Located} {m : ParsedModule} {r : Resident},
      ParsedModule.parse rd located.data located.name s.limits = .ok m →
      (s.cache.insert w.now m located.origin).2.resident.peek d = some r →
      (∃ r₀, s.cache.resident.peek d = some r₀ ∧ r₀.module = r.module ∧ r₀.bytes = r.bytes) ∨
        r.bytes = r.module.residentBytes ∧
          ∃ data name, ParsedModule.parse rd data name s.limits = .ok r.module := by
    intro located m r hp hr
    by_cases hid : d = m.debugId
    · subst hid
      rw [SymbolCache.peek_insert_self] at hr
      obtain rfl := Option.some.inj hr
      exact Or.inr ⟨rfl, _, _, hp⟩
    · exact Or.inl ⟨r, SymbolCache.peek_of_insert_ne hid hr, rfl, rfl⟩
  cases h with
  | hit hr => exact Or.inl (SymbolCache.exists_of_peek_touch hd)
  | miss hr hm => exact Or.inl ⟨r, hd, rfl, rfl⟩
  | unwound hr hm hl => exact Or.inl ⟨r, hd, rfl, rfl⟩
  | absent hr hm hl => exact Or.inl ⟨r, hd, rfl, rfl⟩
  | failed hr hm hl hp => exact Or.inl ⟨r, hd, rfl, rfl⟩
  | parsed hr hm hl hp hr' =>
      obtain ⟨r₀, hr₀, hmodule, hbytes⟩ := SymbolCache.exists_of_peek_touch hd
      rw [← hmodule, ← hbytes]
      exact hinsert hp hr₀
  | lost hr hm hl hp hr' => exact hinsert hp hd

/-- A lookup records no miss but its own, when no source had the token. -/
theorem negative_looked (h : Looked rd w s token attempt out s') {k : String}
    (hk : k ∈ s'.cache.negative) :
    k ∈ s.cache.negative ∨ k = canonicalToken token ∧
      ∃ reg, s.sources.locate rd w.fs token = (.returned none, reg) := by
  cases h with
  | hit hr => exact Or.inl (SymbolCache.negative_touch w.now token s.cache ▸ hk)
  | miss hr hm => exact Or.inl hk
  | unwound hr hm hl => exact Or.inl hk
  | absent hr hm hl =>
      exact (SymbolCache.mem_negative_recordMiss.mp hk).symm.imp_right fun h => ⟨h, _, hl⟩
  | failed hr hm hl hp => exact Or.inl hk
  | parsed hr hm hl hp hr' =>
      rw [SymbolCache.negative_touch, SymbolCache.negative_insert] at hk
      exact Or.inl (Finset.mem_of_mem_erase hk)
  | lost hr hm hl hp hr' =>
      rw [SymbolCache.negative_insert] at hk
      exact Or.inl (Finset.mem_of_mem_erase hk)

end Looked

theorem limits_step {rd : Readers} {s : SymbolsState} {i : World × Op}
    (h : s.limits = Limits.default) : (step rd s i).limits = Limits.default := by
  obtain ⟨w, op⟩ := i
  cases op with
  | addSource kind path url bucket enabled secret =>
      rw [step, limits_addSource]
      exact h
  | dropSource sourceId =>
      rw [step, limits_dropSource]
      exact h
  | resolve token addr =>
      rw [step_resolve]
      exact (limits_looked (looked_lookup rd w s token)).trans h
  | functionName token addr =>
      rw [step_functionName]
      exact (limits_looked (looked_lookup rd w s token)).trans h
  | cacheEvict token => exact h
  | importManifest manifest => exact h
  | restart maxBytes maxModules => rfl

/-- A manifest brings no module. -/
theorem peek_importManifest (s : SymbolsState) (manifest : CacheManifest) (d : String) :
    (s.importManifest manifest).cache.resident.peek d = s.cache.resident.peek d := by
  show (s.cache.rehydrate manifest).resident.peek d = _
  rw [(SymbolCache.resident_rehydrate s.cache manifest).1]

/-- So a restart leaves none. -/
theorem peek_restart (rd : Readers) (s : SymbolsState) (w : World) (maxBytes : UInt64)
    (maxModules : Nat) (d : String) :
    (step rd s (w, .restart maxBytes maxModules)).cache.resident.peek d = none :=
  (peek_importManifest _ _ _).trans rfl

/-- A module that is resident after an operation was resident before, or was parsed by it. -/
theorem peek_step {rd : Readers} {s : SymbolsState} {i : World × Op} {d : String} {r : Resident}
    (hd : (step rd s i).cache.resident.peek d = some r) :
    (∃ r₀, s.cache.resident.peek d = some r₀ ∧ r₀.module = r.module ∧ r₀.bytes = r.bytes) ∨
      r.bytes = r.module.residentBytes ∧
        ∃ data name, ParsedModule.parse rd data name s.limits = .ok r.module := by
  obtain ⟨w, op⟩ := i
  cases op with
  | addSource kind path url bucket enabled secret =>
      revert hd
      rw [step, cache_addSource]
      intro hd
      exact Or.inl ⟨r, hd, rfl, rfl⟩
  | dropSource sourceId =>
      revert hd
      rw [step, cache_dropSource]
      intro hd
      exact Or.inl ⟨r, hd, rfl, rfl⟩
  | resolve token addr =>
      rw [step_resolve] at hd
      exact peek_looked (looked_lookup rd w s token) hd
  | functionName token addr =>
      rw [step_functionName] at hd
      exact peek_looked (looked_lookup rd w s token) hd
  | cacheEvict token =>
      exact Or.inl ⟨r, (SymbolCache.evicted_evict s.cache token).peek d r hd, rfl, rfl⟩
  | importManifest manifest =>
      exact Or.inl ⟨r, (peek_importManifest s manifest d).symm.trans hd, rfl, rfl⟩
  | restart maxBytes maxModules =>
      rw [peek_restart] at hd
      cases hd

/-- No operation changes the parse caps. -/
theorem limits_runOps (rd : Readers) (maxBytes : UInt64) (maxModules : Nat)
    (ops : List (World × Op)) :
    (runOps rd (withBudgets maxBytes maxModules) ops).limits = Limits.default :=
  Run.invariant_run' (P := fun s : SymbolsState => s.limits = Limits.default)
    (fun _ _ h => limits_step h) rfl ops

/-! ## The cache along a run -/

/-- A manifest that the operation imports has the property `Q`. -/
def Op.Imports (Q : CacheManifest → Prop) : Op → Prop
  | .importManifest manifest => Q manifest
  | _ => True

instance (Q : CacheManifest → Prop) [DecidablePred Q] : ∀ op : Op, Decidable (op.Imports Q)
  | .importManifest manifest => inferInstanceAs (Decidable (Q manifest))
  | .addSource .. | .dropSource _ | .resolve _ _ | .functionName _ _ | .cacheEvict _
  | .restart _ _ => .isTrue trivial

section CacheInvariant

variable {P : SymbolCache → Prop}

theorem cache_looked (hP : SymbolCache.Kept P) {rd : Readers} {w : World} {s s' : SymbolsState}
    {token : String} {attempt : Option Located} {out : Unwind Answer} (h : P s.cache)
    (hlooked : Looked rd w s token attempt out s') : P s'.cache := by
  cases hlooked with
  | hit hr => exact hP.touch h _ _
  | miss hr hm => exact h
  | unwound hr hm hl => exact h
  | absent hr hm hl => exact hP.recordMiss h _ _
  | failed hr hm hl hp => exact h
  | parsed hr hm hl hp hr' => exact hP.touch (hP.insert h _ _ _) _ _
  | lost hr hm hl hp hr' => exact hP.insert h _ _ _

/-- The operations of a batch on the state it was given: lookups and evictions. -/
def Op.isWork : Op → Bool
  | .resolve _ _ | .functionName _ _ | .cacheEvict _ => true
  | _ => false

theorem cache_work (hP : SymbolCache.Kept P) {rd : Readers} {s : SymbolsState} {i : World × Op}
    (h : P s.cache) (hi : i.2.isWork = true) : P (step rd s i).cache := by
  obtain ⟨w, op⟩ := i
  cases op with
  | resolve token addr =>
      rw [step_resolve]
      exact cache_looked hP h (looked_lookup rd w s token)
  | functionName token addr =>
      rw [step_functionName]
      exact cache_looked hP h (looked_lookup rd w s token)
  | cacheEvict token => exact hP.evicted h (SymbolCache.evicted_evict _ _)
  | addSource kind path url bucket enabled secret => cases hi
  | dropSource sourceId => cases hi
  | importManifest manifest => cases hi
  | restart maxBytes maxModules => cases hi

/-- What lookups and evictions keep, a batch of them keeps. -/
theorem cache_runOps_work (hP : SymbolCache.Kept P) (rd : Readers) {s : SymbolsState}
    (h : P s.cache) {ops : List (World × Op)} (hops : ∀ i ∈ ops, i.2.isWork = true) :
    P (runOps rd s ops).cache :=
  Run.invariant_run (P := fun s : SymbolsState => P s.cache)
    (fun _ _ h hi => cache_work hP h hi) h
    (Run.MeetsAlong.of_forall_mem (C := fun i : World × Op => i.2.isWork = true) hops _)

variable {Q : CacheManifest → Prop} (hP : SymbolCache.Invariant P Q)
include hP

theorem cache_step {rd : Readers} {s : SymbolsState} {i : World × Op} (h : P s.cache)
    (hi : i.2.Imports Q) : P (step rd s i).cache := by
  obtain ⟨w, op⟩ := i
  cases op with
  | addSource kind path url bucket enabled secret => rwa [step, cache_addSource]
  | dropSource sourceId => rwa [step, cache_dropSource]
  | resolve token addr => exact cache_work hP.toKept (i := (w, .resolve token addr)) h rfl
  | functionName token addr =>
      exact cache_work hP.toKept (i := (w, .functionName token addr)) h rfl
  | cacheEvict token => exact cache_work hP.toKept (i := (w, .cacheEvict token)) h rfl
  | importManifest manifest => exact hP.rehydrate h _ hi
  | restart maxBytes maxModules => exact hP.rehydrate (hP.new _ _) _ (hP.exported h _)

/-- An invariant of the cache operations holds of the cache of every reachable state. -/
theorem cache_runOps (rd : Readers) (maxBytes : UInt64) (maxModules : Nat)
    {ops : List (World × Op)} (hops : ∀ i ∈ ops, i.2.Imports Q) :
    P (runOps rd (withBudgets maxBytes maxModules) ops).cache :=
  Run.invariant_run (P := fun s : SymbolsState => P s.cache)
    (fun _ _ h hi => cache_step hP h hi) (hP.new _ _)
    (Run.MeetsAlong.of_forall_mem (C := fun i : World × Op => i.2.Imports Q) hops _)

end CacheInvariant

end SymbolsState

end VgiSymbols
