import VgiSymbols.Cache.Accounting
import VgiSymbols.State.Lookup

set_option autoImplicit false

/-! # Eviction at the SQL surface

`SymbolCache.evict` does what it is asked for (`evictsOnly_evict`, `evictsAll_evict`).
`cache_evict` declares its `debug_id` to be passed by name, and reads the argument at position 0
instead. So it never sees the argument and always evicts everything: `evictsExactly_iff` says
in which states that is still what the call asked for.
-/

namespace VgiSymbols

/-! ## Arguments -/

/-- A value written in a call. -/
inductive SqlValue where
  | varchar (s : String)
  | boolean (b : Bool)
  deriving DecidableEq

def SqlValue.asStr : SqlValue → Option String
  | varchar s => some s
  | boolean _ => none

def SqlValue.asBool : SqlValue → Option Bool
  | varchar _ => none
  | boolean b => some b

/-- The arguments written in a call: those by position, and those by name. -/
structure SqlCall where
  positional : List SqlValue
  named : List (String × SqlValue)

/-- An argument as a function declares it; the position of one that is passed by name is -1. -/
structure ArgSpec where
  name : String
  position : Int
  type : String

/-- `vgi`, as far as the worker uses it to read arguments. -/
structure Vgi where
  Arguments : Type
  /-- What a function that declares the specs is given for a call. -/
  arguments : List ArgSpec → SqlCall → Arguments
  constStr : Arguments → Nat → Option String
  namedStr : Arguments → String → Option String
  namedBool : Arguments → String → Option Bool

/-- `const_str` reads the positional arguments; the arguments declared at position -1 are read by
their names. -/
structure Vgi.ReadsAsDeclared (vgi : Vgi) : Prop where
  constStr : ∀ specs call i,
    vgi.constStr (vgi.arguments specs call) i = call.positional[i]?.bind SqlValue.asStr
  namedStr : ∀ specs call, ∀ spec ∈ specs, spec.position = -1 →
    vgi.namedStr (vgi.arguments specs call) spec.name
      = (call.named.lookup spec.name).bind SqlValue.asStr
  namedBool : ∀ specs call, ∀ spec ∈ specs, spec.position = -1 →
    vgi.namedBool (vgi.arguments specs call) spec.name
      = (call.named.lookup spec.name).bind SqlValue.asBool

/-! ## The table functions -/

namespace AddSource

def argumentSpecs : List ArgSpec :=
  [⟨"kind", 0, "varchar"⟩, ⟨"path", -1, "varchar"⟩, ⟨"url", -1, "varchar"⟩,
    ⟨"bucket", -1, "varchar"⟩, ⟨"enabled", -1, "boolean"⟩, ⟨"secret", -1, "varchar"⟩]

/-- `add_source`: the source id it emits, or its error. -/
def producer (vgi : Vgi) (s : SymbolsState) (args : vgi.Arguments) :
    Except String String × SymbolsState :=
  match vgi.constStr args 0 with
  | none => (.error "add_source: kind is required", s)
  | some kind =>
      s.addSource kind (vgi.namedStr args "path") (vgi.namedStr args "url")
        (vgi.namedStr args "bucket") (vgi.namedBool args "enabled") (vgi.namedStr args "secret")

end AddSource

namespace CacheEvict

def argumentSpecs : List ArgSpec := [⟨"debug_id", -1, "varchar"⟩]

/-- `cache_evict`: the bytes freed, the one value it emits. -/
def producer (vgi : Vgi) (s : SymbolsState) (args : vgi.Arguments) : Int64 × SymbolsState :=
  s.cacheEvict (vgi.constStr args 0)

/-- `cache_evict(debug_id => t)`, or `cache_evict()`. -/
def sqlCall (debugId : Option String) : SqlCall :=
  { positional := [], named := (debugId.map fun t => ("debug_id", .varchar t)).toList }

/-- The bytes freed by a call and the state it leaves. -/
def call (vgi : Vgi) (s : SymbolsState) (debugId : Option String) : Int64 × SymbolsState :=
  producer vgi s (vgi.arguments argumentSpecs (sqlCall debugId))

end CacheEvict

/-- A `vgi` for concrete inputs: it hands over the call as it is written. -/
def StandIn.vgi : Vgi where
  Arguments := SqlCall
  arguments _ call := call
  constStr call i := call.positional[i]?.bind SqlValue.asStr
  namedStr call name := (call.named.lookup name).bind SqlValue.asStr
  namedBool call name := (call.named.lookup name).bind SqlValue.asBool

theorem StandIn.readsAsDeclared_vgi : StandIn.vgi.ReadsAsDeclared where
  constStr _ _ _ := rfl
  namedStr _ _ _ _ _ := rfl
  namedBool _ _ _ _ _ := rfl

/-- `add_source` is given what its call says under each name. -/
theorem AddSource.producer_eq {vgi : Vgi} (hvgi : vgi.ReadsAsDeclared) (s : SymbolsState)
    (kind : String) (named : List (String × SqlValue)) :
    producer vgi s (vgi.arguments argumentSpecs ⟨[.varchar kind], named⟩) =
      s.addSource kind ((named.lookup "path").bind SqlValue.asStr)
        ((named.lookup "url").bind SqlValue.asStr) ((named.lookup "bucket").bind SqlValue.asStr)
        ((named.lookup "enabled").bind SqlValue.asBool)
        ((named.lookup "secret").bind SqlValue.asStr) := by
  have hstr := hvgi.namedStr argumentSpecs ⟨[.varchar kind], named⟩
  have hbool := hvgi.namedBool argumentSpecs ⟨[.varchar kind], named⟩
  have hkind : vgi.constStr (vgi.arguments argumentSpecs ⟨[.varchar kind], named⟩) 0 = some kind :=
    hvgi.constStr _ _ _
  rw [producer, hkind]
  simp only
  rw [hstr ⟨"path", -1, "varchar"⟩ (by simp [argumentSpecs]) rfl,
    hstr ⟨"url", -1, "varchar"⟩ (by simp [argumentSpecs]) rfl,
    hstr ⟨"bucket", -1, "varchar"⟩ (by simp [argumentSpecs]) rfl,
    hbool ⟨"enabled", -1, "boolean"⟩ (by simp [argumentSpecs]) rfl,
    hstr ⟨"secret", -1, "varchar"⟩ (by simp [argumentSpecs]) rfl]

/-- `cache_evict` is given nothing, whatever its call says. -/
theorem CacheEvict.call_eq {vgi : Vgi} (hvgi : vgi.ReadsAsDeclared) (s : SymbolsState)
    (debugId : Option String) : call vgi s debugId = s.cacheEvict none := by
  rw [call, producer, hvgi.constStr]
  rfl

/-! ## Exact evictions -/

namespace SymbolCache

/-- The call freed exactly the module of the token, if there is one; the other modules stay, in
their order, and every entry stays but for its stats. -/
structure EvictsOnly (c : SymbolCache) (token : String) (freed : Int64) (c' : SymbolCache) :
    Prop where
  keys : c'.resident.keys
    = c.resident.keys.filter fun d => c.resolveDebugId token ≠ some d
  peek : ∀ d, c.resolveDebugId token ≠ some d → c'.resident.peek d = c.resident.peek d
  entries : ∀ d, (c'.entries.lookup d).map ManifestEntry.static
    = (c.entries.lookup d).map ManifestEntry.static
  freed_eq : freed.toInt = ((c.reached token).map fun r => r.bytes.toNat).getD 0

/-- The call freed every module; every entry stays but for its stats. -/
structure EvictsAll (c : SymbolCache) (freed : Int64) (c' : SymbolCache) : Prop where
  keys : c'.resident.keys = []
  entries : ∀ d, (c'.entries.lookup d).map ManifestEntry.static
    = (c.entries.lookup d).map ManifestEntry.static
  freed_eq : freed.toInt = c.totalBytes

/-- What a call with or without a `debug_id` asks for. -/
structure EvictsExactly (c : SymbolCache) (debugId : Option String) (freed : Int64)
    (c' : SymbolCache) : Prop where
  given : ∀ token, debugId = some token → c.EvictsOnly token freed c'
  omitted : debugId = none → c.EvictsAll freed c'

/-- The loop adds up the bytes of all modules, in 64 bits. -/
theorem freed_evictAllLoop (fuel : Nat) (freed : Int64) (c : SymbolCache)
    (hfuel : c.resident.len ≤ fuel) :
    (evictAllLoop fuel freed c).1 = freed + Int64.ofNat c.totalBytes := by
  induction fuel generalizing freed c with
  | zero =>
      have hnil : c.resident.keys = [] := List.length_eq_zero_iff.mp (Nat.le_zero.mp hfuel)
      have hzero : c.totalBytes = 0 := LruCache.weight_of_keys_eq_nil _ hnil
      rw [hzero, evictAllLoop]
      exact (Int64.add_zero freed).symm
  | succ fuel ih =>
      rw [evictAllLoop]
      split
      · next id r resident hpop =>
          have hlen := LruCache.len_popLru hpop
          have hweight := LruCache.weight_popLru (fun r : Resident => r.bytes.toNat) hpop
          have htotal : c.totalBytes = (resident.weight fun r => r.bytes.toNat) + r.bytes.toNat :=
            hweight.symm
          rw [ih _ _ (by show resident.len ≤ fuel; omega), htotal, Int64.ofNat_add,
            ← toInt64_eq_ofNat, Int64.add_assoc, Int64.add_comm r.bytes.toInt64]
          rfl
      · next hnone =>
          have hzero : c.totalBytes = 0 :=
            LruCache.weight_of_keys_eq_nil _ (LruCache.popLru_eq_none.mp hnone)
          rw [hzero]
          exact (Int64.add_zero freed).symm

/-- **Evicting everything is exact**, if the bytes fit the counter that is returned. -/
theorem evictsAll_evict {c : SymbolCache} (h : c.totalBytes < 2 ^ 63) :
    c.EvictsAll (c.evict none).1 (c.evict none).2 where
  keys := keys_evictAllLoop _ _ _ (Nat.le_refl _)
  entries := (evicted_evict c none).static
  freed_eq := by
    show (evictAllLoop c.resident.len 0 c).1.toInt = _
    rw [freed_evictAllLoop _ _ _ (Nat.le_refl _), Int64.zero_add, Int64.toInt_ofNat_of_lt h]

/-- Nothing is evicted for a token that leads to no module. -/
theorem evict_of_reached_eq_none {c : SymbolCache} {token : String}
    (h : c.reached token = none) : c.evict (some token) = (0, c) := by
  unfold evict
  unfold reached at h
  cases hd : c.resolveDebugId token with
  | none => simp only [hd]
  | some d =>
      have hpeek : c.resident.peek d = none := by
        rwa [hd, Option.bind_some] at h
      have hpop : c.resident.pop d = none := Option.map_eq_none_iff.mpr hpeek
      simp only [hd, hpop]

/-- The module of the token is popped, and its bytes are returned. -/
theorem evict_of_pop {c : SymbolCache} {token d : String} {r : Resident}
    {resident : LruCache String Resident} (hd : c.resolveDebugId token = some d)
    (hpop : c.resident.pop d = some (r, resident)) :
    (c.evict (some token)).1 = r.bytes.toInt64 ∧
      (c.evict (some token)).2.resident = resident := by
  unfold evict
  simp only [hd, hpop, foldBack, and_self]

/-- The ids other than the one the token leads to. -/
theorem filter_keys_of_reached_eq_none {c : SymbolCache} {token : String}
    (h : c.reached token = none) :
    (c.resident.keys.filter fun d => c.resolveDebugId token ≠ some d) = c.resident.keys := by
  refine List.filter_eq_self.mpr fun d hd => decide_eq_true fun heq => ?_
  obtain ⟨r, hr⟩ := LruCache.mem_keys_iff.mp hd
  rw [reached, heq, Option.bind_some, hr] at h
  cases h

theorem filter_keys_of_resolveDebugId {c : SymbolCache} {token d : String}
    (h : c.resolveDebugId token = some d) :
    (c.resident.keys.filter fun a => c.resolveDebugId token ≠ some a)
      = c.resident.keys.erase d := by
  rw [c.resident.keys_nodup.erase_eq_filter]
  apply List.filter_congr
  intro a _
  rw [h]
  simp [bne, Bool.beq_eq_decide_eq, eq_comm]

/-- **Evicting one module is exact**, if its bytes fit the counter that is returned. -/
theorem evictsOnly_evict {c : SymbolCache} {token : String}
    (h : ∀ r, c.reached token = some r → r.bytes.toNat < 2 ^ 63) :
    c.EvictsOnly token (c.evict (some token)).1 (c.evict (some token)).2 := by
  have hstatic := (evicted_evict c (some token)).static
  cases hr : c.reached token with
  | none =>
      have hevict := evict_of_reached_eq_none hr
      refine ⟨?_, fun d _ => ?_, hstatic, ?_⟩
      · rw [hevict, filter_keys_of_reached_eq_none hr]
      · rw [hevict]
      · rw [hevict, hr]
        rfl
  | some r =>
      obtain ⟨d, hd, hpeek⟩ := reached_eq_some.mp hr
      have hpop : ∃ resident, c.resident.pop d = some (r, resident) :=
        ⟨_, Option.map_eq_some_iff.mpr ⟨r, hpeek, rfl⟩⟩
      obtain ⟨resident, hpop⟩ := hpop
      obtain ⟨hfreed, hresident⟩ := evict_of_pop hd hpop
      refine ⟨?_, fun a ha => ?_, hstatic, ?_⟩
      · rw [hresident, LruCache.keys_pop hpop, filter_keys_of_resolveDebugId hd]
      · rw [hresident, LruCache.peek_pop hpop, if_neg]
        rintro rfl
        exact ha hd
      · rw [hfreed, hr]
        exact toInt_toInt64 (h r hr)

/-! ## When evicting everything evicts one module -/

/-- No module is resident but the one the token leads to. -/
def HoldsOnly (c : SymbolCache) (token : String) : Prop :=
  ∀ d ∈ c.resident.keys, c.resolveDebugId token = some d

/-- The bytes of a cache that holds one module at most. -/
theorem totalBytes_of_holdsOnly {c : SymbolCache} {token : String} (h : c.HoldsOnly token) :
    c.totalBytes = ((c.reached token).map fun r => r.bytes.toNat).getD 0 := by
  cases hr : c.reached token with
  | none =>
      have hnil : c.resident.keys = [] := by
        apply List.eq_nil_iff_forall_not_mem.mpr
        intro d hd
        obtain ⟨r, hpeek⟩ := LruCache.mem_keys_iff.mp hd
        rw [reached, h d hd, Option.bind_some, hpeek] at hr
        cases hr
      exact LruCache.weight_of_keys_eq_nil _ hnil
  | some r =>
      obtain ⟨d, hd, hpeek⟩ := reached_eq_some.mp hr
      obtain ⟨rest, hpop⟩ : ∃ rest, c.resident.pop d = some (r, rest) :=
        ⟨_, Option.map_eq_some_iff.mpr ⟨r, hpeek, rfl⟩⟩
      have hweight := LruCache.weight_pop (fun r : Resident => r.bytes.toNat) hpop
      -- What is left after the pop is led to by the token too, but it is not `d`.
      have hnil : rest.keys = [] := by
        rw [LruCache.keys_pop hpop]
        apply List.eq_nil_iff_forall_not_mem.mpr
        intro a ha
        obtain ⟨hne, hmem⟩ := (c.resident.keys_nodup.mem_erase_iff).mp ha
        exact hne (Option.some.inj ((h a hmem).symm.trans hd))
      rw [LruCache.weight_of_keys_eq_nil _ hnil, Nat.zero_add] at hweight
      exact hweight.symm

theorem evictsOnly_evictAll_iff {c : SymbolCache} (hbytes : c.totalBytes < 2 ^ 63)
    (token : String) :
    c.EvictsOnly token (c.evict none).1 (c.evict none).2 ↔ c.HoldsOnly token := by
  have hall := evictsAll_evict hbytes
  constructor
  · -- no module is left, so none but that of the token was there
    intro h d hd
    have hnil := h.keys
    rw [hall.keys] at hnil
    by_contra hne
    have hmem : d ∈ c.resident.keys.filter fun d => c.resolveDebugId token ≠ some d :=
      List.mem_filter.mpr ⟨hd, decide_eq_true hne⟩
    rw [← hnil] at hmem
    cases hmem
  · intro h
    refine ⟨?_, fun d hne => ?_, hall.entries, ?_⟩
    · rw [hall.keys]
      refine (List.filter_eq_nil_iff.mpr fun d hd hne => ?_).symm
      exact (of_decide_eq_true hne : c.resolveDebugId token ≠ some d) (h d hd)
    · have hgone : d ∉ (c.evict none).2.resident.keys := by
        rw [hall.keys]
        exact List.not_mem_nil
      rw [LruCache.peek_eq_none_iff.mpr hgone,
        LruCache.peek_eq_none_iff.mpr fun hd => hne (h d hd)]
    · rw [hall.freed_eq, totalBytes_of_holdsOnly h]

/-! ## The bytes of a worker's cache -/

/-- A cache of no more modules than `modules`, none of more than `bytes` bytes. -/
structure Bounded (modules : Nat) (bytes : UInt64) (c : SymbolCache) : Prop where
  cap : c.resident.cap ≤ modules
  bytes : ∀ d r, c.resident.peek d = some r → r.bytes ≤ bytes

section Bounded

variable {modules : Nat} {bytes : UInt64} {c : SymbolCache}

theorem Bounded.totalBytes_le (h : c.Bounded modules bytes) :
    c.totalBytes ≤ modules * bytes.toNat := by
  have hlen : c.resident.len ≤ modules := c.resident.len_le_cap.trans h.cap
  calc c.totalBytes ≤ c.resident.len * bytes.toNat :=
        LruCache.weight_le fun d r hr => UInt64.le_iff_toNat_le.mp (h.bytes d r hr)
    _ ≤ modules * bytes.toNat := Nat.mul_le_mul_right _ hlen

theorem Bounded.touch (h : c.Bounded modules bytes) (now : UInt64) (token : String) :
    (c.touch now token).Bounded modules bytes where
  cap := by
    rw [cap_touch]
    exact h.cap
  bytes d r hr := by
    obtain ⟨r₀, hr₀, -, hbytes⟩ := exists_of_peek_touch hr
    exact hbytes ▸ h.bytes d r₀ hr₀

theorem Bounded.evicted {c' : SymbolCache} (h : c.Bounded modules bytes) (he : Evicted c c') :
    c'.Bounded modules bytes where
  cap := he.cap.le.trans h.cap
  bytes d r hr := h.bytes d r (he.peek d r hr)

theorem Bounded.insert (h : c.Bounded modules bytes) {m : ParsedModule}
    (hm : m.residentBytes ≤ bytes) (now : UInt64) (origin : Origin) :
    (c.insert now m origin).2.Bounded modules bytes where
  cap := by
    rw [cap_insert]
    exact h.cap
  bytes d r hr := by
    by_cases hd : d = m.debugId
    · subst hd
      rw [peek_insert_self] at hr
      cases hr
      exact hm
    · exact h.bytes d r (peek_of_insert_ne hd hr)

theorem Bounded.rehydrate (h : c.Bounded modules bytes) (manifest : CacheManifest) :
    (c.rehydrate manifest).Bounded modules bytes := by
  have hresident := (resident_rehydrate c manifest).1
  exact ⟨hresident ▸ h.cap, hresident ▸ h.bytes⟩

end Bounded

end SymbolCache

namespace SymbolsState

/-- The operation opens no state but one with the default budgets, as the worker does. -/
def Op.inWorker : Op → Bool
  | .restart maxBytes maxModules =>
      maxBytes == defaultMaxBytes && maxModules == defaultMaxModules
  | _ => true

/-- What holds of every state of a worker: the default caps, and a cache within them. -/
structure InCaps (s : SymbolsState) : Prop where
  limits : s.limits = Limits.default
  cache : s.cache.Bounded defaultMaxModules Limits.default.maxParseBytes

theorem inCaps_new : SymbolsState.new.InCaps where
  limits := rfl
  cache := ⟨Nat.le_refl _, fun d r hr => by cases hr⟩

theorem inCaps_looked {rd : Readers} {w : World} {s s' : SymbolsState} {token : String}
    {attempt : Option Located} {out : Unwind Answer} (h : s.InCaps)
    (hlooked : Looked rd w s token attempt out s') : s'.InCaps := by
  refine ⟨(limits_looked hlooked).trans h.limits, ?_⟩
  -- a module that is stored was parsed under the cap
  have hparsed : ∀ {located : Located} {m : ParsedModule},
      ParsedModule.parse rd located.data located.name s.limits = .ok m →
      m.residentBytes ≤ Limits.default.maxParseBytes := by
    intro located m hp
    rw [← h.limits]
    exact ParsedModule.residentBytes_le_of_parse hp
  cases hlooked with
  | hit hr => exact h.cache.touch _ _
  | miss hr hm => exact h.cache
  | unwound hr hm hl => exact h.cache
  | absent hr hm hl => exact ⟨h.cache.cap, h.cache.bytes⟩
  | failed hr hm hl hp => exact h.cache
  | parsed hr hm hl hp hr' => exact (h.cache.insert (hparsed hp) _ _).touch _ _
  | lost hr hm hl hp hr' => exact h.cache.insert (hparsed hp) _ _

theorem inCaps_step {rd : Readers} {s : SymbolsState} {i : World × Op} (h : s.InCaps)
    (hi : i.2.inWorker = true) : (step rd s i).InCaps := by
  refine ⟨limits_step h.limits, ?_⟩
  obtain ⟨w, op⟩ := i
  cases op with
  | addSource kind path url bucket enabled secret =>
      rw [step, cache_addSource]
      exact h.cache
  | dropSource sourceId =>
      rw [step, cache_dropSource]
      exact h.cache
  | resolve token addr =>
      rw [step_resolve]
      exact (inCaps_looked h (looked_lookup rd w s token)).cache
  | functionName token addr =>
      rw [step_functionName]
      exact (inCaps_looked h (looked_lookup rd w s token)).cache
  | cacheEvict token => exact h.cache.evicted (SymbolCache.evicted_evict _ _)
  | importManifest manifest => exact h.cache.rehydrate manifest
  | restart maxBytes maxModules =>
      obtain ⟨hbytes, hmodules⟩ := Bool.and_eq_true_iff.mp hi
      rw [eq_of_beq hbytes, eq_of_beq hmodules]
      -- the manifest that is restored brings no modules along
      exact inCaps_new.cache.rehydrate _

theorem inCaps_runOps (rd : Readers) {ops : List (World × Op)}
    (hops : ∀ i ∈ ops, i.2.inWorker = true) : (runOps rd SymbolsState.new ops).InCaps :=
  Run.invariant_run (fun _ _ h hi => inCaps_step h hi) inCaps_new
    (Run.MeetsAlong.of_forall_mem (C := fun i : World × Op => i.2.inWorker = true) hops _)

/-- The resident modules of a worker are far from filling the counter they are added up in. -/
theorem InCaps.totalBytes_lt {s : SymbolsState} (h : s.InCaps) : s.cache.totalBytes < 2 ^ 63 :=
  -- 256 modules of 2 GiB
  h.cache.totalBytes_le.trans_lt (by decide)

/-- **When `cache_evict` is exact**, in every state of the worker: whenever it is called without a
`debug_id`, and with one when no module is resident but the one it leads to. -/
theorem evictsExactly_iff {vgi : Vgi} (hvgi : vgi.ReadsAsDeclared) (rd : Readers)
    {ops : List (World × Op)} (hops : ∀ i ∈ ops, i.2.inWorker = true)
    (debugId : Option String) :
    (runOps rd SymbolsState.new ops).cache.EvictsExactly debugId
        (CacheEvict.call vgi (runOps rd SymbolsState.new ops) debugId).1
        (CacheEvict.call vgi (runOps rd SymbolsState.new ops) debugId).2.cache ↔
      ∀ token, debugId = some token →
        (runOps rd SymbolsState.new ops).cache.HoldsOnly token := by
  have hbytes := (inCaps_runOps rd hops).totalBytes_lt
  rw [CacheEvict.call_eq hvgi]
  generalize runOps rd SymbolsState.new ops = s at hbytes
  constructor
  · intro h token htoken
    exact (SymbolCache.evictsOnly_evictAll_iff hbytes token).mp (h.given token htoken)
  · intro h
    exact ⟨fun token htoken =>
        (SymbolCache.evictsOnly_evictAll_iff hbytes token).mpr (h token htoken),
      fun _ => SymbolCache.evictsAll_evict hbytes⟩

/-- One module is resident, and it is evicted by its token. -/
theorem evictsExactly_single :
    let w : World := ⟨StandIn.directory "d" [("d/a", 1 :: StandIn.buildId 0x11)], 0⟩
    let s := runOps StandIn.readers SymbolsState.new
      [(w, .addSource "dir" (some "d") none none none none),
        (w, .functionName (StandIn.token 0x11) 4)]
    let out := CacheEvict.call StandIn.vgi s (some (StandIn.token 0x11))
    s.cache.EvictsExactly (some (StandIn.token 0x11)) out.1 out.2.cache := by
  apply (evictsExactly_iff StandIn.readsAsDeclared_vgi StandIn.readers (by decide) _).mpr
  rintro token htoken
  cases htoken
  unfold SymbolCache.HoldsOnly
  decide +kernel

/-- Two modules are resident, and evicting one of them by its token evicts both. -/
theorem not_evictsExactly_pair :
    ¬ ∀ (vgi : Vgi), vgi.ReadsAsDeclared → ∀ (rd : Readers) (ops : List (World × Op)),
      (∀ i ∈ ops, i.2.inWorker = true) → ∀ debugId : Option String,
        (runOps rd SymbolsState.new ops).cache.EvictsExactly debugId
          (CacheEvict.call vgi (runOps rd SymbolsState.new ops) debugId).1
          (CacheEvict.call vgi (runOps rd SymbolsState.new ops) debugId).2.cache := by
  intro h
  let w : World :=
    ⟨StandIn.directory "d" [("d/a", 1 :: StandIn.buildId 0x11), ("d/b", 1 :: StandIn.buildId 0x22)],
      0⟩
  have hexact := h StandIn.vgi StandIn.readsAsDeclared_vgi StandIn.readers
    [(w, .addSource "dir" (some "d") none none none none),
      (w, .functionName (StandIn.token 0x11) 4), (w, .functionName (StandIn.token 0x22) 4)]
    (by decide) (some (StandIn.token 0x11))
  have hkeys := (hexact.given _ rfl).keys
  revert hkeys
  decide +kernel

end SymbolsState

end VgiSymbols
