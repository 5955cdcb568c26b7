import VgiSymbols.Basic.Lru
import VgiSymbols.Core.Source
import Mathlib.Data.Finset.Erase

set_option autoImplicit false

/-! # The debug-info cache

Two halves: a bounded LRU of parsed modules, and the durable index (aliases, manifest entries,
negative cache) that survives eviction. A lookup goes from the token through the alias table
to a debug-id, and from there to the resident module.

Arithmetic on the counters is that of a release build: `+` wraps, `saturatingSub` does not go
below zero.
-/

namespace VgiSymbols

/-! ## The manifest -/

/-- One debug-id ever resolved, or proven missing. -/
structure ManifestEntry where
  debugId : String
  origin : Option Origin
  format : Option String
  arch : Option String
  name : Option String
  fetchedBytes : UInt64
  rowsResolved : UInt64
  lastUsedEpoch : UInt64
  miss : Bool
  deriving DecidableEq, Repr

/-- The serializable manifest: the ordered sources and the entries. -/
structure CacheManifest where
  sources : List SourceSpec
  entries : List ManifestEntry
  deriving DecidableEq, Repr

/-- `serde_json` on manifests: the encoder and the decoder that are derived for them. -/
structure ManifestCodec where
  toVec : CacheManifest → Except String Bytes
  fromSlice : Bytes → Except String CacheManifest

/-- Encoding the manifest succeeds, and decoding what it gives restores the manifest. -/
def ManifestCodec.RoundTrips (codec : ManifestCodec) (manifest : CacheManifest) : Prop :=
  ∃ bytes, codec.toVec manifest = .ok bytes ∧ codec.fromSlice bytes = .ok manifest

namespace CacheManifest

/-- The manifest of a cold start. -/
def empty : CacheManifest := { sources := [], entries := [] }

def toBytes (codec : ManifestCodec) (manifest : CacheManifest) : Bytes :=
  (codec.toVec manifest).toOption.getD []

/-- An empty or corrupt blob restores the empty manifest. -/
def fromBytes (codec : ManifestCodec) (bytes : Bytes) : CacheManifest :=
  if bytes.isEmpty then empty
  else (codec.fromSlice bytes).toOption.getD empty

end CacheManifest

/-! ## The cache -/

/-- A resident module and its bookkeeping. -/
structure Resident where
  module : ParsedModule
  bytes : UInt64
  rowsResolved : UInt64
  lastUsedEpoch : UInt64

/-- The bookkeeping of one answered lookup. -/
def Resident.bump (now : UInt64) (r : Resident) : Resident :=
  { r with rowsResolved := r.rowsResolved + 1, lastUsedEpoch := now }

/-- `u64::saturating_sub`. -/
def saturatingSub (a b : UInt64) : UInt64 := if b ≤ a then a - b else 0

theorem toNat_saturatingSub (a b : UInt64) :
    (saturatingSub a b).toNat = a.toNat - b.toNat := by
  unfold saturatingSub
  split
  case isTrue h => exact UInt64.toNat_sub_of_le _ _ h
  case isFalse h =>
      have h' : ¬ b.toNat ≤ a.toNat := fun hle => h (UInt64.le_iff_toNat_le.mpr hle)
      rw [UInt64.toNat_zero]
      omega

theorem toInt64_eq_ofNat (n : UInt64) : n.toInt64 = Int64.ofNat n.toNat := by
  show n.toInt64 = Int64.ofBitVec (BitVec.ofNat 64 n.toBitVec.toNat)
  rw [BitVec.ofNat_toNat, BitVec.setWidth_eq]
  rfl

theorem toInt_toInt64 {n : UInt64} (h : n.toNat < 2 ^ 63) : n.toInt64.toInt = n.toNat := by
  rw [toInt64_eq_ofNat, Int64.toInt_ofNat_of_lt h]

/-- The resident modules and the durable index. -/
structure SymbolCache where
  resident : LruCache String Resident
  aliases : Table String String
  entries : Table String ManifestEntry
  negative : Finset String
  maxBytes : UInt64
  residentBytes : UInt64
  parseCount : UInt64

def defaultMaxBytes : UInt64 := 4 * 1024 * 1024 * 1024

def defaultMaxModules : Nat := 256

namespace SymbolCache

/-- An empty cache with the given budgets. -/
def new (maxBytes : UInt64) (maxModules : Nat) : SymbolCache :=
  { resident := LruCache.new (max maxModules 1) (by omega)
    aliases := ∅
    entries := ∅
    negative := ∅
    maxBytes := maxBytes
    residentBytes := 0
    parseCount := 0 }

/-- Rehydrate the durable index from one manifest entry. -/
def rehydrateEntry (c : SymbolCache) (e : ManifestEntry) : SymbolCache :=
  -- The alias is canonical; the entry is stored under its id as written.
  let token := canonicalToken e.debugId
  { c with
    aliases := c.aliases.insert token e.debugId
    negative := if e.miss then insert token c.negative else c.negative
    entries := c.entries.insert e.debugId e }

/-- Rehydrate the durable index; the resident modules are re-parsed lazily. -/
def rehydrate (c : SymbolCache) (manifest : CacheManifest) : SymbolCache :=
  manifest.entries.foldl rehydrateEntry c

/-- Persist a module's live stats into its manifest entry. -/
def foldBack (c : SymbolCache) (id : String) (r : Resident) : SymbolCache :=
  { c with
    entries := c.entries.modify id fun e =>
      { e with rowsResolved := r.rowsResolved, lastUsedEpoch := r.lastUsedEpoch } }

/-- Fold the stats of every resident module into the entries. -/
def syncEntries (c : SymbolCache) : SymbolCache :=
  c.resident.items.entries.foldl (fun c e => c.foldBack e.1 e.2) c

/-- Project the durable state into a manifest, its entries sorted by debug-id. -/
def toManifest (c : SymbolCache) (sources : List SourceSpec) : CacheManifest × SymbolCache :=
  let c := c.syncEntries
  let entries := (c.entries.entries.map fun e => e.2).insertionSort
    fun a b => a.debugId ≤ b.debugId
  ({ sources, entries }, c)

/-- The debug-id of an input token, if the alias is known. -/
def resolveDebugId (c : SymbolCache) (token : String) : Option String :=
  c.aliases.lookup (canonicalToken token)

/-- Whether the token is a negative-cache hit. -/
def isKnownMiss (c : SymbolCache) (token : String) : Bool :=
  decide (canonicalToken token ∈ c.negative)

/-- Record that no source has symbols for the token. -/
def recordMiss (c : SymbolCache) (now : UInt64) (token : String) : SymbolCache :=
  let canon := canonicalToken token
  -- An alias or an entry that is there already is left as it is.
  { c with
    aliases := c.aliases.orInsert canon canon
    negative := insert canon c.negative
    entries := c.entries.orInsert canon
      { debugId := canon, origin := none, format := none, arch := none, name := none,
        fetchedBytes := 0, rowsResolved := 0, lastUsedEpoch := now, miss := true } }

/-- Whether a module for the token is resident. -/
def isResident (c : SymbolCache) (token : String) : Bool :=
  ((c.resolveDebugId token).map c.resident.contains).getD false

/-- Resolve an address against the resident module of the token, promoting it. -/
def resolve (rd : Readers) (now : UInt64) (c : SymbolCache) (token : String) (addr : UInt64)
    (limits : Limits) : Option (List ResolvedFrame × SymbolCache) := do
  let debugId ← c.resolveDebugId token
  let (r, resident) ← c.resident.getMut debugId (Resident.bump now)
  return (r.module.resolve rd addr limits, { c with resident := resident })

/-- The innermost function name at an address of the resident module of the token. -/
def functionName (rd : Readers) (now : UInt64) (c : SymbolCache) (token : String)
    (addr : UInt64) : Option (Option String × SymbolCache) := do
  let debugId ← c.resolveDebugId token
  let (r, resident) ← c.resident.getMut debugId (Resident.bump now)
  return (r.module.functionName rd addr, { c with resident := resident })

/-- Evict whole modules, least recently used first, while the counter is over the byte budget
and more than one module is resident. One module is popped for each unit of fuel. -/
def evictLoop : Nat → SymbolCache → SymbolCache
  | 0, c => c
  | fuel + 1, c =>
      if c.maxBytes < c.residentBytes ∧ 1 < c.resident.len then
        match c.resident.popLru with
        | some ((id, r), resident) =>
            evictLoop fuel
              (({ c with
                  resident := resident
                  residentBytes := saturatingSub c.residentBytes r.bytes }).foldBack id r)
        | none => c
      else c

/-- Evict until the budgets are satisfied; every round pops a module, so as many rounds as
there are modules are enough (`evictToBudget_done`). -/
def evictToBudget (c : SymbolCache) : SymbolCache := evictLoop c.resident.len c

/-- The manifest entry of a freshly parsed module. -/
def entryOf (m : ParsedModule) (origin : Origin) (now : UInt64) : ManifestEntry :=
  { debugId := m.debugId
    origin := some origin
    format := some m.info.format.asStr
    arch := some m.info.arch
    name := some m.name
    fetchedBytes := m.residentBytes
    rowsResolved := 0
    lastUsedEpoch := now
    miss := false }

/-- The cache once the module is stored, before eviction to the byte budget. -/
def store (c : SymbolCache) (now : UInt64) (m : ParsedModule) (origin : Origin) : SymbolCache :=
  let debugId := m.debugId
  let bytes := m.residentBytes
  let (old, resident) := c.resident.put debugId
    { module := m, bytes := bytes, rowsResolved := 0, lastUsedEpoch := now }
  -- `put` hands back a module of the same id; one it drops for room stays counted.
  let residentBytes := match old with
    | some old => saturatingSub c.residentBytes old.bytes
    | none => c.residentBytes
  { c with
    parseCount := c.parseCount + 1
    aliases := c.aliases.insertAll m.identity.aliases debugId
    -- Known misses under the other aliases stay.
    negative := c.negative.erase (canonicalToken debugId)
    entries := c.entries.insert debugId (entryOf m origin now)
    resident := resident
    residentBytes := residentBytes + bytes }

/-- Insert a freshly parsed module under its aliases, then evict to budget. -/
def insert (c : SymbolCache) (now : UInt64) (m : ParsedModule) (origin : Origin) :
    String × SymbolCache :=
  (m.debugId, (c.store now m origin).evictToBudget)

/-- Pop every module, adding up the bytes. -/
def evictAllLoop : Nat → Int64 → SymbolCache → Int64 × SymbolCache
  | 0, freed, c => (freed, c)
  | fuel + 1, freed, c =>
      match c.resident.popLru with
      | some ((id, r), resident) =>
          evictAllLoop fuel (freed + r.bytes.toInt64)
            (({ c with resident := resident }).foldBack id r)
      | none => (freed, c)

/-- Force-evict one debug-id, or everything; the manifest is kept. Returns the bytes freed. -/
def evict (c : SymbolCache) : Option String → Int64 × SymbolCache
  | some t =>
      match c.resolveDebugId t with
      | none => (0, c)
      | some debugId =>
          match c.resident.pop debugId with
          | some (r, resident) =>
              (r.bytes.toInt64,
                ({ c with
                  resident := resident
                  residentBytes := saturatingSub c.residentBytes r.bytes }).foldBack debugId r)
          | none => (0, c)
  | none =>
      let (freed, c) := evictAllLoop c.resident.len 0 c
      (freed, { c with residentBytes := 0 })

/-! ## Status -/

/-- One row of `cache_status`. -/
structure StatusRow where
  debugId : String
  name : String
  format : String
  arch : String
  bytesResident : Int64
  rowsResolved : Int64
  lastUsedEpoch : Int64
  origin : String
  resident : Bool
  deriving DecidableEq

/-- The row of a resident module, with its live stats. -/
def residentRow (c : SymbolCache) (debugId : String) (r : Resident) : StatusRow :=
  { debugId
    name := r.module.name
    format := r.module.info.format.asStr
    arch := r.module.info.arch
    bytesResident := r.bytes.toInt64
    rowsResolved := r.rowsResolved.toInt64
    lastUsedEpoch := r.lastUsedEpoch.toInt64
    origin := (((c.entries.lookup debugId).bind (·.origin)).map Origin.label).getD ""
    resident := true }

/-- The row of a module that is not resident, or of a miss. -/
def entryRow (debugId : String) (e : ManifestEntry) : StatusRow :=
  { debugId
    name := e.name.getD ""
    format := e.format.getD ""
    arch := e.arch.getD ""
    bytesResident := 0
    rowsResolved := e.rowsResolved.toInt64
    lastUsedEpoch := e.lastUsedEpoch.toInt64
    origin := (e.origin.map Origin.label).getD (if e.miss then "not_found" else "")
    resident := false }

/-- The known modules, the resident ones first. -/
def status (c : SymbolCache) : List StatusRow :=
  (c.resident.items.entries.map fun e => c.residentRow e.1 e.2)
    ++ (c.entries.entries.filter fun e => !c.resident.contains e.1).map fun e => entryRow e.1 e.2

end SymbolCache

end VgiSymbols
