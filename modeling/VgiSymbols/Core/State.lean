import VgiSymbols.Basic.Run
import VgiSymbols.Core.Cache

set_option autoImplicit false

/-! # The worker state

The source registry, the cache and the parse caps, with the flow of a lookup: a resident hit
is answered in RAM, a known miss is answered `not_found`, and otherwise the token is located in
the sources, the file is parsed and the module inserted.

An operation runs in a `World`: the file system and the clock it sees. It may unwind, and then
leaves the state it had reached (the worker recovers the poisoned lock and goes on with it).
-/

namespace VgiSymbols

/-- What an operation sees of its surroundings. -/
structure World where
  fs : FileSystem
  now : UInt64

/-- Sources, cache and parse caps. -/
structure SymbolsState where
  sources : SourceRegistry
  cache : SymbolCache
  limits : Limits

namespace SymbolsState

/-- A fresh state with explicit cache budgets. -/
def withBudgets (maxBytes : UInt64) (maxModules : Nat) : SymbolsState :=
  { sources := SourceRegistry.new
    cache := SymbolCache.new maxBytes maxModules
    limits := Limits.default }

/-- A fresh state with the default budgets: 4 GiB, 256 modules. -/
def new : SymbolsState := withBudgets defaultMaxBytes defaultMaxModules

/-! ## Configuration -/

def addSource (s : SymbolsState) (kind : String) (path url bucket : Option String)
    (enabled : Option Bool) (secret : Option String) : Except String String × SymbolsState :=
  let (r, sources) := s.sources.add kind path url bucket enabled secret
  (r, { s with sources := sources })

def dropSource (s : SymbolsState) (sourceId : String) : Bool × SymbolsState :=
  let (r, sources) := s.sources.dropSource sourceId
  (r, { s with sources := sources })

@[simp] theorem cache_addSource (s : SymbolsState) (kind : String)
    (path url bucket : Option String) (enabled : Option Bool) (secret : Option String) :
    (s.addSource kind path url bucket enabled secret).2.cache = s.cache := by
  unfold addSource
  cases s.sources.add kind path url bucket enabled secret
  rfl

@[simp] theorem limits_addSource (s : SymbolsState) (kind : String)
    (path url bucket : Option String) (enabled : Option Bool) (secret : Option String) :
    (s.addSource kind path url bucket enabled secret).2.limits = s.limits := by
  unfold addSource
  cases s.sources.add kind path url bucket enabled secret
  rfl

theorem addSource_fst (s : SymbolsState) (kind : String)
    (path url bucket : Option String) (enabled : Option Bool) (secret : Option String) :
    (s.addSource kind path url bucket enabled secret).1
      = (s.sources.add kind path url bucket enabled secret).1 := by
  unfold addSource
  cases s.sources.add kind path url bucket enabled secret
  rfl

theorem sources_addSource (s : SymbolsState) (kind : String)
    (path url bucket : Option String) (enabled : Option Bool) (secret : Option String) :
    (s.addSource kind path url bucket enabled secret).2.sources
      = (s.sources.add kind path url bucket enabled secret).2 := by
  unfold addSource
  cases s.sources.add kind path url bucket enabled secret
  rfl

@[simp] theorem cache_dropSource (s : SymbolsState) (sourceId : String) :
    (s.dropSource sourceId).2.cache = s.cache := by
  unfold dropSource
  cases s.sources.dropSource sourceId
  rfl

@[simp] theorem limits_dropSource (s : SymbolsState) (sourceId : String) :
    (s.dropSource sourceId).2.limits = s.limits := by
  unfold dropSource
  cases s.sources.dropSource sourceId
  rfl

theorem sources_dropSource (s : SymbolsState) (sourceId : String) :
    (s.dropSource sourceId).2.sources = (s.sources.dropSource sourceId).2 := by
  unfold dropSource
  cases s.sources.dropSource sourceId
  rfl

/-! ## Lookups -/

/-- Ensure a module for the token is resident, parsing it from the sources on a miss. -/
def ensureResident (rd : Readers) (w : World) (s : SymbolsState) (token : String) :
    Unwind (Except ErrorKind Bool) × SymbolsState :=
  if s.cache.isResident token then (.returned (.ok true), s)
  else if s.cache.isKnownMiss token then (.returned (.ok false), s)
  else
    match s.sources.locate rd w.fs token with
    | (.panicked, sources) => (.panicked, { s with sources := sources })
    | (.returned (some located), sources) =>
        match ParsedModule.parse rd located.data located.name s.limits with
        | .ok m =>
            (.returned (.ok true),
              { s with sources := sources, cache := (s.cache.insert w.now m located.origin).2 })
        | .error e => (.returned (.error e.kind), { s with sources := sources })
    | (.returned none, sources) =>
        (.returned (.ok false),
          { s with sources := sources, cache := s.cache.recordMiss w.now token })

/-- Resolve one frame into inline-expanded rows. -/
def resolve (rd : Readers) (w : World) (s : SymbolsState) (buildId : String) (addr : UInt64) :
    Unwind (List ResolvedFrame) × SymbolsState :=
  match s.cache.resolve rd w.now buildId addr s.limits with
  | some (frames, cache) => (.returned frames, { s with cache := cache })
  | none =>
      match s.ensureResident rd w buildId with
      | (.panicked, s) => (.panicked, s)
      | (.returned (.ok true), s) =>
          match s.cache.resolve rd w.now buildId addr s.limits with
          | some (frames, cache) => (.returned frames, { s with cache := cache })
          | none => (.returned [ResolvedFrame.notFound], s)
      | (.returned (.ok false), s) => (.returned [ResolvedFrame.notFound], s)
      | (.returned (.error kind), s) => (.returned [ResolvedFrame.error kind none], s)

/-- The innermost function name only. -/
def functionName (rd : Readers) (w : World) (s : SymbolsState) (buildId : String)
    (addr : UInt64) : Unwind (Option String) × SymbolsState :=
  match s.cache.functionName rd w.now buildId addr with
  | some (name, cache) => (.returned name, { s with cache := cache })
  | none =>
      match s.ensureResident rd w buildId with
      | (.panicked, s) => (.panicked, s)
      | (.returned (.ok true), s) =>
          match s.cache.functionName rd w.now buildId addr with
          | some (name, cache) => (.returned name, { s with cache := cache })
          | none => (.returned none, s)
      | (.returned _, s) => (.returned none, s)

/-! ## Eviction and the manifest -/

def cacheEvict (s : SymbolsState) (token : Option String) : Int64 × SymbolsState :=
  let (freed, cache) := s.cache.evict token
  (freed, { s with cache := cache })

/-- Project the durable state into a manifest. -/
def exportManifest (s : SymbolsState) : CacheManifest × SymbolsState :=
  let (manifest, cache) := s.cache.toManifest s.sources.sources
  (manifest, { s with cache := cache })

/-- Rehydrate the durable state from a manifest. -/
def importManifest (s : SymbolsState) (manifest : CacheManifest) : SymbolsState :=
  { s with
    sources := s.sources.restore manifest.sources
    cache := s.cache.rehydrate manifest }

/-! ## Operations -/

/-- The operations of the worker on its state. -/
inductive Op where
  | addSource (kind : String) (path url bucket : Option String) (enabled : Option Bool)
      (secret : Option String)
  | dropSource (sourceId : String)
  | resolve (token : String) (addr : UInt64)
  | functionName (token : String) (addr : UInt64)
  | cacheEvict (token : Option String)
  | importManifest (manifest : CacheManifest)
  /-- Export the manifest, start a fresh state with the given budgets, import. -/
  | restart (maxBytes : UInt64) (maxModules : Nat)

/-- The state after an operation. -/
def step (rd : Readers) (s : SymbolsState) (i : World × Op) : SymbolsState :=
  match i.2 with
  | .addSource kind path url bucket enabled secret =>
      (s.addSource kind path url bucket enabled secret).2
  | .dropSource sourceId => (s.dropSource sourceId).2
  | .resolve token addr => (s.resolve rd i.1 token addr).2
  | .functionName token addr => (s.functionName rd i.1 token addr).2
  | .cacheEvict token => (s.cacheEvict token).2
  | .importManifest manifest => s.importManifest manifest
  | .restart maxBytes maxModules =>
      (withBudgets maxBytes maxModules).importManifest s.exportManifest.1

/-- What an operation returns. -/
inductive Reply where
  | added (r : Except String String)
  | dropped (found : Bool)
  | frames (out : Unwind (List ResolvedFrame))
  | name (out : Unwind (Option String))
  | freed (bytes : Int64)
  | done

/-- The reply of an operation. -/
def reply (rd : Readers) (s : SymbolsState) (i : World × Op) : Reply :=
  match i.2 with
  | .addSource kind path url bucket enabled secret =>
      .added (s.addSource kind path url bucket enabled secret).1
  | .dropSource sourceId => .dropped (s.dropSource sourceId).1
  | .resolve token addr => .frames (s.resolve rd i.1 token addr).1
  | .functionName token addr => .name (s.functionName rd i.1 token addr).1
  | .cacheEvict token => .freed (s.cacheEvict token).1
  | .importManifest _ | .restart _ _ => .done

/-- The state after a run of operations. -/
def runOps (rd : Readers) (s : SymbolsState) (ops : List (World × Op)) : SymbolsState :=
  Run.run (step rd) s ops

end SymbolsState

end VgiSymbols
