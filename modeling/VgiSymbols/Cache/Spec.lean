import VgiSymbols.Core.Cache

set_option autoImplicit false

/-! # What the cache operations do

One lemma per operation and per half of the cache. Lookups are stated with `reached` (the
resident a token leads to) and `touch` (the cache after an answered lookup); eviction in all
its forms is an instance of `Evicted`: modules may leave, in order, and nothing else changes
but the stats of the entries.
-/

namespace VgiSymbols

/-- An entry without its stats. -/
def ManifestEntry.static (e : ManifestEntry) : ManifestEntry :=
  { e with rowsResolved := 0, lastUsedEpoch := 0 }

/-- The stats of a resident module, written in its entry. -/
def Resident.stamp (r : Resident) (e : ManifestEntry) : ManifestEntry :=
  { e with rowsResolved := r.rowsResolved, lastUsedEpoch := r.lastUsedEpoch }

theorem ManifestEntry.eq_of_static {e e' : ManifestEntry} (h : e.static = e'.static) :
    e.debugId = e'.debugId ∧ e.origin = e'.origin ∧ e.miss = e'.miss := by
  simp only [static, ManifestEntry.mk.injEq] at h
  exact ⟨h.1, h.2.1, h.2.2.2.2.2.2.2.2⟩

theorem exists_of_map_static {o o' : Option ManifestEntry} {e : ManifestEntry}
    (h : o.map ManifestEntry.static = o'.map ManifestEntry.static) (he : o' = some e) :
    ∃ e₀, o = some e₀ ∧ e₀.static = e.static := by
  rw [he, Option.map_some] at h
  exact Option.map_eq_some_iff.mp h

namespace SymbolCache

/-! ## Lookups -/

/-- The resident module a token leads to: token, alias, debug-id, module. -/
def reached (c : SymbolCache) (token : String) : Option Resident :=
  (c.resolveDebugId token).bind c.resident.peek

/-- The cache after a lookup of the token was answered. -/
def touch (now : UInt64) (token : String) (c : SymbolCache) : SymbolCache :=
  match c.resolveDebugId token with
  | some d => { c with resident := c.resident.promote d (Resident.bump now) }
  | none => c

theorem reached_eq_some {c : SymbolCache} {token : String} {r : Resident} :
    c.reached token = some r ↔
      ∃ d, c.aliases.lookup (canonicalToken token) = some d ∧ c.resident.peek d = some r :=
  Option.bind_eq_some_iff

theorem isResident_eq (c : SymbolCache) (token : String) :
    c.isResident token = (c.reached token).isSome := by
  unfold isResident reached
  cases c.resolveDebugId token <;> rfl

theorem isResident_iff {c : SymbolCache} {token : String} :
    c.isResident token = true ↔ ∃ r, c.reached token = some r := by
  rw [isResident_eq, Option.isSome_iff_exists]

theorem isKnownMiss_iff {c : SymbolCache} {token : String} :
    c.isKnownMiss token = true ↔ canonicalToken token ∈ c.negative := by
  simp [isKnownMiss]

theorem resolve_eq (rd : Readers) (now : UInt64) (c : SymbolCache) (token : String)
    (addr : UInt64) (limits : Limits) :
    c.resolve rd now token addr limits =
      (c.reached token).map fun r => (r.module.resolve rd addr limits, c.touch now token) := by
  unfold resolve reached touch
  cases c.resolveDebugId token with
  | none => rfl
  | some d =>
      show (c.resident.getMut d (Resident.bump now)).bind _ = (c.resident.peek d).map _
      unfold LruCache.getMut
      cases c.resident.peek d <;> rfl

theorem functionName_eq (rd : Readers) (now : UInt64) (c : SymbolCache) (token : String)
    (addr : UInt64) :
    c.functionName rd now token addr =
      (c.reached token).map fun r => (r.module.functionName rd addr, c.touch now token) := by
  unfold functionName reached touch
  cases c.resolveDebugId token with
  | none => rfl
  | some d =>
      show (c.resident.getMut d (Resident.bump now)).bind _ = (c.resident.peek d).map _
      unfold LruCache.getMut
      cases c.resident.peek d <;> rfl

@[simp] theorem aliases_touch (now : UInt64) (token : String) (c : SymbolCache) :
    (c.touch now token).aliases = c.aliases := by
  unfold touch
  split <;> rfl

@[simp] theorem negative_touch (now : UInt64) (token : String) (c : SymbolCache) :
    (c.touch now token).negative = c.negative := by
  unfold touch
  split <;> rfl

@[simp] theorem entries_touch (now : UInt64) (token : String) (c : SymbolCache) :
    (c.touch now token).entries = c.entries := by
  unfold touch
  split <;> rfl

@[simp] theorem maxBytes_touch (now : UInt64) (token : String) (c : SymbolCache) :
    (c.touch now token).maxBytes = c.maxBytes := by
  unfold touch
  split <;> rfl

@[simp] theorem residentBytes_touch (now : UInt64) (token : String) (c : SymbolCache) :
    (c.touch now token).residentBytes = c.residentBytes := by
  unfold touch
  split <;> rfl

@[simp] theorem cap_touch (now : UInt64) (token : String) (c : SymbolCache) :
    (c.touch now token).resident.cap = c.resident.cap := by
  unfold touch
  split
  · exact LruCache.cap_promote _ _ _
  · rfl

/-- A lookup changes the stats of a resident, not what is resident under which id. -/
theorem peek_touch (now : UInt64) (token : String) (c : SymbolCache) (d : String) :
    (c.touch now token).resident.peek d = c.resident.peek d ∨
      (c.touch now token).resident.peek d = (c.resident.peek d).map (Resident.bump now) := by
  unfold touch
  split
  · next d' _ =>
      rw [LruCache.peek_promote]
      split
      · exact Or.inr rfl
      · exact Or.inl rfl
  · exact Or.inl rfl

theorem exists_of_peek_touch {now : UInt64} {token : String} {c : SymbolCache} {d : String}
    {r : Resident} (h : (c.touch now token).resident.peek d = some r) :
    ∃ r₀, c.resident.peek d = some r₀ ∧ r₀.module = r.module ∧ r₀.bytes = r.bytes := by
  rcases peek_touch now token c d with h' | h'
  · exact ⟨r, h' ▸ h, rfl, rfl⟩
  · rw [h'] at h
    obtain ⟨r₀, h₀, rfl⟩ := Option.map_eq_some_iff.mp h
    exact ⟨r₀, h₀, rfl, rfl⟩

/-- After an answered lookup every token leads to the module it led to before. -/
theorem exists_reached_touch {t : String} {c : SymbolCache} {r : Resident}
    (h : c.reached t = some r) (now : UInt64) (token : String) :
    ∃ r', (c.touch now token).reached t = some r' ∧ r'.module = r.module := by
  obtain ⟨d, ha, hd⟩ := reached_eq_some.mp h
  have ha' : (c.touch now token).aliases.lookup (canonicalToken t) = some d := by
    rw [aliases_touch, ha]
  rcases peek_touch now token c d with h' | h'
  · exact ⟨r, reached_eq_some.mpr ⟨d, ha', h'.trans hd⟩, rfl⟩
  · exact ⟨r.bump now, reached_eq_some.mpr ⟨d, ha', by rw [h', hd, Option.map_some]⟩, rfl⟩

theorem exists_of_reached_touch {now : UInt64} {token t : String} {c : SymbolCache}
    {r : Resident} (h : (c.touch now token).reached t = some r) :
    ∃ r₀, c.reached t = some r₀ ∧ r₀.module = r.module := by
  obtain ⟨d, ha, hd⟩ := reached_eq_some.mp h
  obtain ⟨r₀, hr₀, hm, -⟩ := exists_of_peek_touch hd
  rw [aliases_touch] at ha
  exact ⟨r₀, reached_eq_some.mpr ⟨d, ha, hr₀⟩, hm⟩

/-! ## Misses -/

theorem lookup_aliases_recordMiss (c : SymbolCache) (now : UInt64) (token k : String) :
    (c.recordMiss now token).aliases.lookup k =
      (c.aliases.lookup k).or
        (if k = canonicalToken token then some (canonicalToken token) else none) :=
  Table.lookup_orInsert _ _ _ _

/-- The manifest entry of a miss. -/
def missEntry (now : UInt64) (canon : String) : ManifestEntry :=
  { debugId := canon, origin := none, format := none, arch := none, name := none,
    fetchedBytes := 0, rowsResolved := 0, lastUsedEpoch := now, miss := true }

theorem lookup_recordMiss (c : SymbolCache) (now : UInt64) (token d : String) :
    (c.recordMiss now token).entries.lookup d = (c.entries.lookup d).or
      (if d = canonicalToken token then some (missEntry now (canonicalToken token)) else none) :=
  Table.lookup_orInsert _ _ _ _

/-- An entry that is already there stays, also when it is not a miss. -/
theorem lookup_recordMiss_of_eq_some {c : SymbolCache} {d : String} {e : ManifestEntry}
    (h : c.entries.lookup d = some e) (now : UInt64) (token : String) :
    (c.recordMiss now token).entries.lookup d = some e := by
  rw [lookup_recordMiss, h, Option.some_or]

/-- An entry is left as it is; the token gets a miss entry if it had none. -/
theorem lookup_entries_recordMiss {c : SymbolCache} {now : UInt64} {token d : String}
    {e : ManifestEntry} (h : (c.recordMiss now token).entries.lookup d = some e) :
    c.entries.lookup d = some e ∨ d = canonicalToken token ∧ e = missEntry now d := by
  rw [lookup_recordMiss] at h
  cases hd : c.entries.lookup d with
  | some e' =>
      rw [hd, Option.some_or] at h
      exact Or.inl h
  | none =>
      rw [hd, Option.none_or] at h
      split at h
      · next heq =>
          cases h
          exact Or.inr ⟨heq, by rw [heq]⟩
      · cases h

theorem mem_negative_recordMiss {c : SymbolCache} {now : UInt64} {token k : String} :
    k ∈ (c.recordMiss now token).negative ↔ k = canonicalToken token ∨ k ∈ c.negative :=
  Finset.mem_insert

/-! ## Eviction -/

/-- Modules may have left the cache; the rest of it is unchanged but for entry stats. -/
structure Evicted (c c' : SymbolCache) : Prop where
  aliases : c'.aliases = c.aliases
  negative : c'.negative = c.negative
  maxBytes : c'.maxBytes = c.maxBytes
  cap : c'.resident.cap = c.resident.cap
  keys : List.Sublist c'.resident.keys c.resident.keys
  peek : ∀ d r, c'.resident.peek d = some r → c.resident.peek d = some r
  static : ∀ d, (c'.entries.lookup d).map ManifestEntry.static
    = (c.entries.lookup d).map ManifestEntry.static

theorem Evicted.refl (c : SymbolCache) : Evicted c c :=
  ⟨rfl, rfl, rfl, rfl, List.Sublist.refl _, fun _ _ h => h, fun _ => rfl⟩

theorem Evicted.trans {c₁ c₂ c₃ : SymbolCache} (h : Evicted c₁ c₂) (h' : Evicted c₂ c₃) :
    Evicted c₁ c₃ where
  aliases := h'.aliases.trans h.aliases
  negative := h'.negative.trans h.negative
  maxBytes := h'.maxBytes.trans h.maxBytes
  cap := h'.cap.trans h.cap
  keys := h'.keys.trans h.keys
  peek d r hr := h.peek d r (h'.peek d r hr)
  static d := (h'.static d).trans (h.static d)

/-- The entries are those there were, but for their stats. -/
theorem Evicted.entries {c c' : SymbolCache} (h : Evicted c c') (d : String) (e' : ManifestEntry)
    (hd : c'.entries.lookup d = some e') :
    ∃ e, c.entries.lookup d = some e ∧ e'.debugId = e.debugId ∧ e'.miss = e.miss := by
  obtain ⟨e, he, hs⟩ := exists_of_map_static (h.static d).symm hd
  obtain ⟨hid, -, hm⟩ := ManifestEntry.eq_of_static hs
  exact ⟨e, he, hid.symm, hm.symm⟩

theorem lookup_foldBack (c : SymbolCache) (id : String) (r : Resident) (d : String) :
    (c.foldBack id r).entries.lookup d
      = if d = id then (c.entries.lookup d).map r.stamp else c.entries.lookup d :=
  Table.lookup_modify _ _ _ _

theorem static_foldBack (c : SymbolCache) (id : String) (r : Resident) (d : String) :
    ((c.foldBack id r).entries.lookup d).map ManifestEntry.static
      = (c.entries.lookup d).map ManifestEntry.static := by
  rw [lookup_foldBack]
  split
  · cases c.entries.lookup d <;> rfl
  · rfl

/-- Popping the least recently used module, with any adjustment of the counter. -/
theorem evicted_popLru {c : SymbolCache} {id : String} {r : Resident}
    {resident : LruCache String Resident} (h : c.resident.popLru = some ((id, r), resident))
    (residentBytes : UInt64) :
    Evicted c (({ c with resident := resident, residentBytes := residentBytes } :
      SymbolCache).foldBack id r) where
  aliases := rfl
  negative := rfl
  maxBytes := rfl
  cap := LruCache.cap_popLru h
  keys := by
    rw [LruCache.keys_popLru h]
    exact List.sublist_append_left _ _
  peek _ _ hd := LruCache.peek_of_popLru h hd
  static := static_foldBack _ id r

theorem evicted_evictLoop (fuel : Nat) (c : SymbolCache) : Evicted c (evictLoop fuel c) := by
  induction fuel generalizing c with
  | zero => exact Evicted.refl c
  | succ fuel ih =>
      rw [evictLoop]
      split
      · split
        · next h => exact (evicted_popLru h _).trans (ih _)
        · exact Evicted.refl c
      · exact Evicted.refl c

theorem evicted_evictAllLoop (fuel : Nat) (freed : Int64) (c : SymbolCache) :
    Evicted c (evictAllLoop fuel freed c).2 := by
  induction fuel generalizing freed c with
  | zero => exact Evicted.refl c
  | succ fuel ih =>
      rw [evictAllLoop]
      split
      · next h => exact (evicted_popLru h c.residentBytes).trans (ih _ _)
      · exact Evicted.refl c

theorem evicted_evict (c : SymbolCache) (token : Option String) :
    Evicted c (c.evict token).2 := by
  cases token with
  | none =>
      -- Only the counter is reset after the loop, and `Evicted` says nothing of it.
      have h := evicted_evictAllLoop c.resident.len 0 c
      exact ⟨h.aliases, h.negative, h.maxBytes, h.cap, h.keys, h.peek, h.static⟩
  | some t =>
      rw [evict]
      split
      · exact Evicted.refl c
      · split
        · next d _ r resident hpop =>
            exact {
              aliases := rfl
              negative := rfl
              maxBytes := rfl
              cap := (LruCache.pop_eq_some hpop).2.1
              keys := by
                show List.Sublist resident.keys c.resident.keys
                rw [LruCache.keys_pop hpop]
                exact List.erase_sublist
              peek := fun a r' ha => by
                have ha' : resident.peek a = some r' := ha
                -- The popped id is no longer there, the others are as before.
                rw [LruCache.peek_pop hpop] at ha'
                split at ha'
                · cases ha'
                · exact ha'
              static := static_foldBack _ _ r }
        · exact Evicted.refl c

/-- The modules that are left form an initial segment of the recency order. -/
theorem keys_evictLoop (fuel : Nat) (c : SymbolCache) :
    ∃ dropped, c.resident.keys = (evictLoop fuel c).resident.keys ++ dropped := by
  induction fuel generalizing c with
  | zero => exact ⟨[], (List.append_nil _).symm⟩
  | succ fuel ih =>
      rw [evictLoop]
      split
      · split
        · next id r resident h =>
            -- The popped id goes in front of what the rest of the loop drops.
            obtain ⟨dropped, hd⟩ := ih (({ c with
              resident := resident
              residentBytes := saturatingSub c.residentBytes r.bytes }).foldBack id r)
            refine ⟨dropped ++ [id], ?_⟩
            rw [LruCache.keys_popLru h, ← List.append_assoc, ← hd]
            rfl
        · exact ⟨[], (List.append_nil _).symm⟩
      · exact ⟨[], (List.append_nil _).symm⟩

/-- The loop never takes the last module. -/
theorem keys_evictLoop_ne_nil (fuel : Nat) (c : SymbolCache) (h : c.resident.keys ≠ []) :
    (evictLoop fuel c).resident.keys ≠ [] := by
  induction fuel generalizing c with
  | zero => exact h
  | succ fuel ih =>
      rw [evictLoop]
      split
      · next hguard =>
          split
          · next id r resident hpop =>
              -- The guard asks for two modules, so one is left after the pop.
              apply ih _
              show resident.keys ≠ []
              intro hnil
              have hlen := LruCache.len_popLru hpop
              have h1 := hguard.2
              have h0 : resident.len = 0 := by rw [LruCache.len, hnil]; rfl
              omega
          · exact h
      · exact h

/-- **The byte budget binds.** With fuel for every resident module the loop ends within the
byte budget or with a single module. -/
theorem evictLoop_done (fuel : Nat) (c : SymbolCache) (hfuel : c.resident.len ≤ fuel) :
    ¬ ((evictLoop fuel c).maxBytes < (evictLoop fuel c).residentBytes ∧
      1 < (evictLoop fuel c).resident.len) := by
  induction fuel generalizing c with
  | zero =>
      rw [evictLoop]
      omega
  | succ fuel ih =>
      rw [evictLoop]
      split
      · next hguard =>
          split
          · next id r resident hpop =>
              apply ih _
              have hlen := LruCache.len_popLru hpop
              show resident.len ≤ fuel
              omega
          · next hnone =>
              have hnil := LruCache.popLru_eq_none.mp hnone
              have h0 : c.resident.len = 0 := by rw [LruCache.len, hnil]; rfl
              omega
      · next hguard => exact hguard

theorem evictToBudget_done (c : SymbolCache) :
    ¬ (c.evictToBudget.maxBytes < c.evictToBudget.residentBytes ∧
      1 < c.evictToBudget.resident.len) :=
  evictLoop_done _ _ (Nat.le_refl _)

/-- Within the budget nothing is evicted. -/
theorem evictToBudget_of_le {c : SymbolCache} (h : c.residentBytes ≤ c.maxBytes) :
    c.evictToBudget = c := by
  unfold evictToBudget
  cases c.resident.len with
  | zero => rfl
  | succ fuel =>
      rw [evictLoop, if_neg]
      rintro ⟨hlt, -⟩
      exact absurd h (UInt64.not_le.mpr hlt)

/-! ## Insertion -/

/-- A freshly inserted module. -/
def fresh (now : UInt64) (m : ParsedModule) : Resident :=
  { module := m, bytes := m.residentBytes, rowsResolved := 0, lastUsedEpoch := now }

theorem resident_store (c : SymbolCache) (now : UInt64) (m : ParsedModule) (origin : Origin) :
    (c.store now m origin).resident = (c.resident.put m.debugId (fresh now m)).2 := rfl

theorem lookup_store (c : SymbolCache) (now : UInt64) (m : ParsedModule) (origin : Origin)
    (d : String) : (c.store now m origin).entries.lookup d
      = if d = m.debugId then some (entryOf m origin now) else c.entries.lookup d :=
  Table.lookup_insert _ _ _ _

theorem evicted_insert (c : SymbolCache) (now : UInt64) (m : ParsedModule) (origin : Origin) :
    Evicted (c.store now m origin) (c.insert now m origin).2 :=
  evicted_evictLoop _ _

theorem lookup_aliases_insert (c : SymbolCache) (now : UInt64) (m : ParsedModule)
    (origin : Origin) (k : String) :
    (c.insert now m origin).2.aliases.lookup k =
      if k ∈ m.identity.aliases then some m.debugId else c.aliases.lookup k := by
  rw [(evicted_insert c now m origin).aliases]
  exact Table.lookup_insertAll _ _ _ _

@[simp] theorem negative_insert (c : SymbolCache) (now : UInt64) (m : ParsedModule)
    (origin : Origin) : (c.insert now m origin).2.negative = c.negative.erase m.debugId := by
  rw [(evicted_insert c now m origin).negative]
  show c.negative.erase (canonicalToken m.debugId) = _
  rw [ParsedModule.debugId, Identity.canonicalToken_debugIdStr]

@[simp] theorem maxBytes_insert (c : SymbolCache) (now : UInt64) (m : ParsedModule)
    (origin : Origin) : (c.insert now m origin).2.maxBytes = c.maxBytes :=
  (evicted_insert c now m origin).maxBytes

@[simp] theorem cap_insert (c : SymbolCache) (now : UInt64) (m : ParsedModule)
    (origin : Origin) : (c.insert now m origin).2.resident.cap = c.resident.cap :=
  (evicted_insert c now m origin).cap

/-- **The module just inserted is resident**, whatever the budgets. -/
theorem peek_insert_self (c : SymbolCache) (now : UInt64) (m : ParsedModule) (origin : Origin) :
    (c.insert now m origin).2.resident.peek m.debugId = some (fresh now m) := by
  have hkeys : (c.store now m origin).resident.keys
      = m.debugId :: (c.resident.roomFor m.debugId).keys.erase m.debugId :=
    LruCache.keys_put _ _ _
  obtain ⟨dropped, hd⟩ := keys_evictLoop (c.store now m origin).resident.len
    (c.store now m origin)
  have hne := keys_evictLoop_ne_nil (c.store now m origin).resident.len (c.store now m origin)
    (by rw [hkeys]; exact List.cons_ne_nil _ _)
  -- Eviction keeps a nonempty initial segment, and the new module is at its head.
  have hmem : m.debugId ∈ (c.insert now m origin).2.resident.keys := by
    show m.debugId ∈ (evictLoop _ (c.store now m origin)).resident.keys
    rw [hkeys] at hd
    cases hk : (evictLoop (c.store now m origin).resident.len
        (c.store now m origin)).resident.keys with
    | nil => exact absurd hk hne
    | cons k ks =>
        rw [hk, List.cons_append] at hd
        rw [(List.cons.inj hd).1]
        exact List.mem_cons_self
  obtain ⟨r, hr⟩ := LruCache.mem_keys_iff.mp hmem
  have := (evicted_insert c now m origin).peek _ _ hr
  rw [resident_store, LruCache.peek_put_self] at this
  rw [hr, this]

/-- What else is resident after an insert was resident before. -/
theorem peek_of_insert_ne {c : SymbolCache} {now : UInt64} {m : ParsedModule} {origin : Origin}
    {d : String} {r : Resident} (hd : d ≠ m.debugId)
    (h : (c.insert now m origin).2.resident.peek d = some r) : c.resident.peek d = some r :=
  LruCache.peek_of_put_ne hd ((evicted_insert c now m origin).peek d r h)

theorem entries_insert {c : SymbolCache} {now : UInt64} {m : ParsedModule} {origin : Origin}
    {d : String} {e' : ManifestEntry}
    (h : (c.insert now m origin).2.entries.lookup d = some e') :
    ∃ e, (if d = m.debugId then some (entryOf m origin now) else c.entries.lookup d) = some e ∧
      e'.debugId = e.debugId ∧ e'.miss = e.miss := by
  obtain ⟨e, he, h'⟩ := (evicted_insert c now m origin).entries d e' h
  rw [lookup_store] at he
  exact ⟨e, he, h'⟩

/-- A token of the inserted module reaches it. -/
theorem reached_insert_of_mem {c : SymbolCache} {now : UInt64} {m : ParsedModule}
    {origin : Origin} {token : String} (h : canonicalToken token ∈ m.identity.aliases) :
    (c.insert now m origin).2.reached token = some (fresh now m) :=
  reached_eq_some.mpr ⟨m.debugId, by rw [lookup_aliases_insert, if_pos h],
    peek_insert_self c now m origin⟩

/-! ## Inserts within the budgets -/

@[simp] theorem len_touch (now : UInt64) (token : String) (c : SymbolCache) :
    (c.touch now token).resident.len = c.resident.len := by
  unfold touch
  split
  · exact LruCache.len_promote _ _ _
  · rfl

theorem reached_recordMiss_of_reached {c : SymbolCache} {t : String} {r : Resident}
    (h : c.reached t = some r) (now : UInt64) (token : String) :
    (c.recordMiss now token).reached t = some r := by
  obtain ⟨d, ha, hd⟩ := reached_eq_some.mp h
  exact reached_eq_some.mpr ⟨d, by rw [lookup_aliases_recordMiss, ha, Option.some_or], hd⟩

section Within

variable {c : SymbolCache} {now : UInt64} {m : ParsedModule} {origin : Origin}
  (hbytes : (c.store now m origin).residentBytes ≤ c.maxBytes)
include hbytes

/-- Within the byte budget an insert only stores. -/
theorem insert_eq_store : (c.insert now m origin).2 = c.store now m origin :=
  evictToBudget_of_le hbytes

theorem len_insert_le : (c.insert now m origin).2.resident.len ≤ c.resident.len + 1 := by
  rw [insert_eq_store hbytes]
  exact LruCache.len_put_le _ _ _

/-- Within both budgets every token that led to a module still leads to one. -/
theorem exists_reached_insert (hroom : c.resident.len < c.resident.cap) {t : String}
    {r : Resident} (h : c.reached t = some r) :
    ∃ r', (c.insert now m origin).2.reached t = some r' := by
  by_cases ht : canonicalToken t ∈ m.identity.aliases
  · exact ⟨_, reached_insert_of_mem ht⟩
  · obtain ⟨d, ha, hd⟩ := reached_eq_some.mp h
    have ha' : (c.insert now m origin).2.aliases.lookup (canonicalToken t) = some d := by
      rw [lookup_aliases_insert, if_neg ht, ha]
    by_cases hid : d = m.debugId
    · exact ⟨_, reached_eq_some.mpr ⟨d, ha', hid ▸ peek_insert_self c now m origin⟩⟩
    · refine ⟨r, reached_eq_some.mpr ⟨d, ha', ?_⟩⟩
      rw [insert_eq_store hbytes, resident_store, LruCache.peek_put_ne hid (Or.inr hroom), hd]

end Within

/-! ## The manifest -/

theorem mem_negative_rehydrateEntry {c : SymbolCache} {e : ManifestEntry} {k : String} :
    k ∈ (c.rehydrateEntry e).negative ↔
      e.miss = true ∧ k = canonicalToken e.debugId ∨ k ∈ c.negative := by
  unfold rehydrateEntry
  simp only
  split
  · next h => rw [Finset.mem_insert]; simp [h]
  · next h => simp [h]

theorem lookup_aliases_rehydrateEntry (c : SymbolCache) (e : ManifestEntry) (k : String) :
    (c.rehydrateEntry e).aliases.lookup k =
      if k = canonicalToken e.debugId then some e.debugId else c.aliases.lookup k :=
  Table.lookup_insert _ _ _ _

theorem lookup_rehydrateEntry (c : SymbolCache) (e : ManifestEntry) (d : String) :
    (c.rehydrateEntry e).entries.lookup d
      = if d = e.debugId then some e else c.entries.lookup d :=
  Table.lookup_insert _ _ _ _

/-- What every entry of a manifest preserves, rehydrating it preserves. -/
theorem rehydrate_induction {P : SymbolCache → Prop} {Q : ManifestEntry → Prop}
    (hstep : ∀ c e, P c → Q e → P (c.rehydrateEntry e)) {c : SymbolCache} (hc : P c)
    {manifest : CacheManifest} (hm : ∀ e ∈ manifest.entries, Q e) :
    P (c.rehydrate manifest) := by
  unfold rehydrate
  generalize manifest.entries = l at hm
  induction l generalizing c with
  | nil => exact hc
  | cons e l ih => exact ih (hstep c e hc (hm e (by simp))) fun e' he' => hm e' (by simp [he'])

/-- A manifest brings no modules. -/
theorem resident_rehydrate (c : SymbolCache) (manifest : CacheManifest) :
    (c.rehydrate manifest).resident = c.resident ∧
      (c.rehydrate manifest).residentBytes = c.residentBytes :=
  rehydrate_induction (P := fun c' => c'.resident = c.resident ∧
    c'.residentBytes = c.residentBytes) (Q := fun _ => True) (fun _ _ h _ => h) ⟨rfl, rfl⟩
    fun _ _ => trivial

/-- What folding the stats of one module back preserves, folding all of them back preserves. -/
theorem syncEntries_induction {P : SymbolCache → Prop}
    (hstep : ∀ c id r, P c → P (c.foldBack id r)) {c : SymbolCache} (hc : P c) :
    P c.syncEntries := by
  have key : ∀ (l : List (Sigma fun _ : String => Resident)) (c₁ : SymbolCache), P c₁ →
      P (l.foldl (fun c e => c.foldBack e.1 e.2) c₁) := by
    intro l
    induction l with
    | nil => exact fun _ h => h
    | cons e l ih => exact fun c₁ h => ih _ (hstep c₁ e.1 e.2 h)
  exact key c.resident.items.entries c hc

theorem evicted_foldBack (c : SymbolCache) (id : String) (r : Resident) :
    Evicted c (c.foldBack id r) where
  aliases := rfl
  negative := rfl
  maxBytes := rfl
  cap := rfl
  keys := List.Sublist.refl _
  peek _ _ hd := hd
  static := static_foldBack c id r

theorem evicted_toManifest (c : SymbolCache) (sources : List SourceSpec) :
    Evicted c (c.toManifest sources).2 :=
  syncEntries_induction (fun c₁ id r h => h.trans (evicted_foldBack c₁ id r)) (Evicted.refl c)

/-- Writing the manifest leaves the modules and their counter alone. -/
theorem resident_toManifest (c : SymbolCache) (sources : List SourceSpec) :
    (c.toManifest sources).2.resident = c.resident ∧
      (c.toManifest sources).2.residentBytes = c.residentBytes :=
  syncEntries_induction (P := fun c' => c'.resident = c.resident ∧
    c'.residentBytes = c.residentBytes) (fun _ _ _ h => h) ⟨rfl, rfl⟩

theorem entries_toManifest {c : SymbolCache} {sources : List SourceSpec} {e' : ManifestEntry}
    (h : e' ∈ (c.toManifest sources).1.entries) :
    ∃ d e, c.entries.lookup d = some e ∧ e'.debugId = e.debugId ∧ e'.miss = e.miss := by
  have h' : e' ∈ c.syncEntries.entries.entries.map fun e => e.2 :=
    (List.mem_insertionSort _).mp h
  obtain ⟨⟨d, e⟩, hmem, rfl⟩ := List.mem_map.mp h'
  obtain ⟨e₀, h₀, hid, hm⟩ :=
    (evicted_toManifest c sources).entries d e (AList.mem_lookup_iff.mpr hmem)
  exact ⟨d, e₀, h₀, hid, hm⟩

end SymbolCache

end VgiSymbols
