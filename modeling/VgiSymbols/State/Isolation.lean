import VgiSymbols.Source.Ahead
import VgiSymbols.State.Lookup

set_option autoImplicit false

/-! # A failing lookup does not interfere

A lookup of a token that no source lists, or whose file does not parse, may index the sources and
record a miss. `Indistinct` relates the state after it to the state before: they agree on all that
other tokens depend on, and every later operation that does not name the token keeps them so
(`indistinct_step`), unless an enabled local source is added under the id of one that is still to be
indexed. The entries of the manifest are left out: no reply depends on them.
-/

namespace VgiSymbols

namespace SymbolCache

/-- The caches agree on everything that tokens other than `u` depend on. -/
structure AgreeOff (u : String) (c c' : SymbolCache) : Prop where
  resident : c.resident = c'.resident
  maxBytes : c.maxBytes = c'.maxBytes
  residentBytes : c.residentBytes = c'.residentBytes
  aliases : ∀ k, k ≠ u → c.aliases.lookup k = c'.aliases.lookup k
  negative : ∀ k, k ≠ u → (k ∈ c.negative ↔ k ∈ c'.negative)

variable {u : String} {c c' : SymbolCache}

theorem AgreeOff.refl (u : String) (c : SymbolCache) : AgreeOff u c c :=
  ⟨rfl, rfl, rfl, fun _ _ => rfl, fun _ _ => Iff.rfl⟩

/-- A miss of the token itself. -/
theorem agreeOff_recordMiss_self (c : SymbolCache) (now : UInt64) (token : String) :
    AgreeOff (canonicalToken token) (c.recordMiss now token) c where
  resident := rfl
  maxBytes := rfl
  residentBytes := rfl
  aliases k hk := by rw [lookup_aliases_recordMiss, if_neg hk, Option.or_none]
  negative k hk := by
    rw [mem_negative_recordMiss]
    exact or_iff_right hk

namespace AgreeOff

section Token

variable {token : String}

theorem resolveDebugId (h : AgreeOff u c c') (ht : canonicalToken token ≠ u) :
    c.resolveDebugId token = c'.resolveDebugId token :=
  h.aliases _ ht

theorem reached (h : AgreeOff u c c') (ht : canonicalToken token ≠ u) :
    c.reached token = c'.reached token := by
  rw [SymbolCache.reached, h.resolveDebugId ht, h.resident, SymbolCache.reached]

theorem isKnownMiss (h : AgreeOff u c c') (ht : canonicalToken token ≠ u) :
    c.isKnownMiss token = c'.isKnownMiss token :=
  decide_eq_decide.mpr (h.negative _ ht)

theorem touch (h : AgreeOff u c c') (ht : canonicalToken token ≠ u) (now : UInt64) :
    AgreeOff u (c.touch now token) (c'.touch now token) := by
  unfold SymbolCache.touch
  rw [h.resolveDebugId ht]
  cases c'.resolveDebugId token with
  | none => exact h
  | some d =>
      exact { h with resident := congrArg (LruCache.promote · d (Resident.bump now)) h.resident }

theorem recordMiss (h : AgreeOff u c c') (now : UInt64) (token : String) :
    AgreeOff u (c.recordMiss now token) (c'.recordMiss now token) where
  resident := h.resident
  maxBytes := h.maxBytes
  residentBytes := h.residentBytes
  aliases k hk := by
    rw [lookup_aliases_recordMiss, lookup_aliases_recordMiss, h.aliases k hk]
  negative k hk := by
    rw [mem_negative_recordMiss, mem_negative_recordMiss, h.negative k hk]

end Token

/-! ## Eviction and insertion -/

/-- Modules leave both caches alike; their stats go to the entries, which nothing depends on. -/
theorem leave (h : AgreeOff u c c') (id : String) (r : Resident)
    (resident : LruCache String Resident) {residentBytes residentBytes' : UInt64}
    (hbytes : residentBytes = residentBytes') :
    AgreeOff u
      (({ c with resident := resident, residentBytes := residentBytes } :
        SymbolCache).foldBack id r)
      (({ c' with resident := resident, residentBytes := residentBytes' } :
        SymbolCache).foldBack id r) :=
  ⟨rfl, h.maxBytes, hbytes, h.aliases, h.negative⟩

theorem evictLoop (h : AgreeOff u c c') (fuel : Nat) :
    AgreeOff u (SymbolCache.evictLoop fuel c) (SymbolCache.evictLoop fuel c') := by
  induction fuel generalizing c c' with
  | zero => exact h
  | succ fuel ih =>
      have hguard : c.maxBytes < c.residentBytes ∧ 1 < c.resident.len ↔
          c'.maxBytes < c'.residentBytes ∧ 1 < c'.resident.len := by
        rw [h.maxBytes, h.residentBytes, h.resident]
      rw [SymbolCache.evictLoop, SymbolCache.evictLoop]
      by_cases hover : c'.maxBytes < c'.residentBytes ∧ 1 < c'.resident.len
      · rw [if_pos hover, if_pos (hguard.mpr hover), h.resident]
        cases c'.resident.popLru with
        | none => exact h
        | some e =>
            have hbytes := congrArg (saturatingSub · e.1.2.bytes) h.residentBytes
            exact ih (h.leave e.1.1 e.1.2 e.2 hbytes)
      · rw [if_neg hover, if_neg (mt hguard.mp hover)]
        exact h

theorem evictAllLoop (h : AgreeOff u c c') (fuel : Nat) (freed : Int64) :
    (SymbolCache.evictAllLoop fuel freed c).1 = (SymbolCache.evictAllLoop fuel freed c').1 ∧
      AgreeOff u (SymbolCache.evictAllLoop fuel freed c).2
        (SymbolCache.evictAllLoop fuel freed c').2 := by
  induction fuel generalizing freed c c' with
  | zero => exact ⟨rfl, h⟩
  | succ fuel ih =>
      rw [SymbolCache.evictAllLoop, SymbolCache.evictAllLoop, h.resident]
      cases c'.resident.popLru with
      | none => exact ⟨rfl, h⟩
      | some e => exact ih (h.leave e.1.1 e.1.2 e.2 h.residentBytes) _

theorem evict (h : AgreeOff u c c') {token : Option String}
    (ht : ∀ t ∈ token, canonicalToken t ≠ u) :
    (c.evict token).1 = (c'.evict token).1 ∧ AgreeOff u (c.evict token).2 (c'.evict token).2 := by
  cases token with
  | none =>
      obtain ⟨hfreed, hall⟩ := h.evictAllLoop c'.resident.len 0
      unfold SymbolCache.evict
      rw [h.resident]
      exact ⟨hfreed, { hall with residentBytes := rfl }⟩
  | some t =>
      unfold SymbolCache.evict
      simp only [h.resolveDebugId (ht t rfl)]
      cases c'.resolveDebugId t with
      | none => exact ⟨rfl, h⟩
      | some d =>
          simp only [h.resident]
          cases c'.resident.pop d with
          | none => exact ⟨rfl, h⟩
          | some e =>
              have hbytes := congrArg (saturatingSub · e.1.bytes) h.residentBytes
              exact ⟨rfl, h.leave d e.1 e.2 hbytes⟩

theorem insert (h : AgreeOff u c c') (now : UInt64) (m : ParsedModule) (origin : Origin) :
    AgreeOff u (c.insert now m origin).2 (c'.insert now m origin).2 := by
  have hstore : AgreeOff u (c.store now m origin) (c'.store now m origin) := by
    refine ⟨?_, h.maxBytes, ?_, fun k hk => ?_, fun k hk => ?_⟩
    · rw [resident_store, resident_store, h.resident]
    · unfold store
      simp only [LruCache.put_fst, h.resident, h.residentBytes]
    · show (c.aliases.insertAll _ _).lookup k = (c'.aliases.insertAll _ _).lookup k
      rw [Table.lookup_insertAll, Table.lookup_insertAll, h.aliases k hk]
    · show k ∈ c.negative.erase _ ↔ k ∈ c'.negative.erase _
      rw [Finset.mem_erase, Finset.mem_erase, h.negative k hk]
  show AgreeOff u (SymbolCache.evictLoop _ (c.store now m origin))
    (SymbolCache.evictLoop _ (c'.store now m origin))
  rw [hstore.resident]
  exact hstore.evictLoop _

end AgreeOff

end SymbolCache

namespace SymbolsState

/-- No module answers for the token: it is a known miss, or no source lists it, or the located
file does not parse. -/
def Unanswered (rd : Readers) (w : World) (s : SymbolsState) (token : String) : Prop :=
  s.cache.isResident token = false ∧
    (s.cache.isKnownMiss token = true ∨ (s.sources.locate rd w.fs token).1 = .returned none ∨
      ∃ located e, (s.sources.locate rd w.fs token).1 = .returned (some located) ∧
        ParsedModule.parse rd located.data located.name s.limits = .error e)

/-- The states agree on everything that tokens other than `u` depend on. -/
structure Indistinct (rd : Readers) (fs : FileSystem) (u : String) (s s' : SymbolsState) :
    Prop where
  sources : s.sources.Ahead rd fs s'.sources
  cache : SymbolCache.AgreeOff u s.cache s'.cache
  limits : s.limits = s'.limits

variable {rd : Readers} {fs : FileSystem} {w : World} {u token : String} {s s' : SymbolsState}

theorem Indistinct.refl (s : SymbolsState) : Indistinct rd fs u s s :=
  ⟨SourceRegistry.Ahead.refl _, SymbolCache.AgreeOff.refl _ _, rfl⟩

/-! ## The failing lookup -/

/-- The registry after a lookup that returned is ahead of the one before. -/
theorem ahead_locate {out : Option Located} {sources : SourceRegistry}
    (hl : s.sources.locate rd w.fs token = (.returned out, sources)) :
    sources.Ahead rd w.fs s.sources := by
  rw [SourceRegistry.eq_ensureIndexed_of_locate hl]
  exact SourceRegistry.ahead_ensureIndexed (SourceRegistry.listsReturn_of_locate hl)

/-- A lookup that no module answers locates no file, or one that does not parse. -/
theorem Unanswered.located (h : Unanswered rd w s token)
    (hm : canonicalToken token ∉ s.cache.negative) :
    (s.sources.locate rd w.fs token).1 = .returned none ∨
      ∃ located e, (s.sources.locate rd w.fs token).1 = .returned (some located) ∧
        ParsedModule.parse rd located.data located.name s.limits = .error e :=
  h.2.resolve_left fun hmiss => hm (SymbolCache.isKnownMiss_iff.mp hmiss)

/-- **A lookup that no module answers** is answered `not_found` or by an error, and leaves the
state indistinct from the one before. -/
theorem lookup_unanswered (h : Unanswered rd w s token) :
    ((s.lookup rd w token).1 = .returned .notFound ∨
        ∃ kind, (s.lookup rd w token).1 = .returned (.error kind)) ∧
      Indistinct rd w.fs (canonicalToken token) (s.lookup rd w token).2 s := by
  have hparses : ∀ {located : Located} {sources : SourceRegistry} {m : ParsedModule},
      canonicalToken token ∉ s.cache.negative →
      s.sources.locate rd w.fs token = (.returned (some located), sources) →
      ParsedModule.parse rd located.data located.name s.limits ≠ .ok m := by
    intro located sources m hm hl hp
    have hlocated := h.located hm
    rw [hl] at hlocated
    rcases hlocated with hnone | ⟨located', e, hsome, he⟩
    · cases hnone
    · cases hsome
      rw [hp] at he
      cases he
  have hlooked := looked_lookup rd w s token
  generalize (s.lookup rd w token).2 = s₁ at hlooked ⊢
  generalize s.parseAttempt rd w token = attempt at hlooked
  generalize (s.lookup rd w token).1 = out at hlooked ⊢
  -- A hit, a panic in locating or a module that was parsed would not be unanswered.
  cases hlooked with
  | hit hr =>
      have hres := h.1
      rw [SymbolCache.isResident_eq, hr] at hres
      cases hres
  | miss hr hm => exact ⟨Or.inl rfl, Indistinct.refl s⟩
  | unwound hr hm hl =>
      have hlocated := h.located hm
      rw [hl] at hlocated
      rcases hlocated with hnone | ⟨located, e, hsome, -⟩
      · cases hnone
      · cases hsome
  | absent hr hm hl =>
      exact ⟨Or.inl rfl, ahead_locate hl,
        SymbolCache.agreeOff_recordMiss_self s.cache w.now token, rfl⟩
  | failed hr hm hl hp =>
      exact ⟨Or.inr ⟨_, rfl⟩, ahead_locate hl, SymbolCache.AgreeOff.refl _ _, rfl⟩
  | parsed hr hm hl hp hr' => exact absurd hp (hparses hm hl)
  | lost hr hm hl hp hr' => exact absurd hp (hparses hm hl)

/-- Such a lookup gives one row, `not_found` or an error. -/
theorem resolve_unanswered (h : Unanswered rd w s token) (addr : UInt64) :
    (s.resolve rd w token addr).1 = .returned [ResolvedFrame.notFound] ∨
      ∃ kind, (s.resolve rd w token addr).1 = .returned [ResolvedFrame.error kind none] := by
  rw [resolve_eq_lookup]
  refine (lookup_unanswered h).1.imp (fun hout => ?_) fun ⟨kind, hout⟩ => ⟨kind, ?_⟩
  · rw [hout]
    rfl
  · rw [hout]
    rfl

/-! ## Later steps -/

theorem Indistinct.ensureResident (h : Indistinct rd w.fs u s s')
    (ht : canonicalToken token ≠ u) :
    (s.ensureResident rd w token).1 = (s'.ensureResident rd w token).1 ∧
      Indistinct rd w.fs u (s.ensureResident rd w token).2 (s'.ensureResident rd w token).2 := by
  unfold SymbolsState.ensureResident
  rw [SymbolCache.isResident_eq, SymbolCache.isResident_eq, h.cache.reached ht,
    h.cache.isKnownMiss ht, h.sources.locate token, h.limits]
  split_ifs
  · exact ⟨rfl, h⟩
  · exact ⟨rfl, h⟩
  · -- locating indexes what is pending, and leaves both states with one registry
    rcases s'.sources.locate rd w.fs token with ⟨(_ | located) | _, sources⟩
    · exact ⟨rfl, SourceRegistry.Ahead.refl _, h.cache.recordMiss w.now token, rfl⟩
    · simp only
      cases ParsedModule.parse rd located.data located.name s'.limits with
      | error e => exact ⟨rfl, SourceRegistry.Ahead.refl _, h.cache, rfl⟩
      | ok m =>
          exact ⟨rfl, SourceRegistry.Ahead.refl _, h.cache.insert w.now m located.origin, rfl⟩
    · exact ⟨rfl, SourceRegistry.Ahead.refl _, h.cache, rfl⟩

theorem Indistinct.lookup (h : Indistinct rd w.fs u s s') (ht : canonicalToken token ≠ u) :
    (s.lookup rd w token).1 = (s'.lookup rd w token).1 ∧
      Indistinct rd w.fs u (s.lookup rd w token).2 (s'.lookup rd w token).2 := by
  have htouch : ∀ {s s'}, Indistinct rd w.fs u s s' →
      Indistinct rd w.fs u (s.touch w token) (s'.touch w token) :=
    fun h => ⟨h.sources, h.cache.touch ht w.now, h.limits⟩
  obtain ⟨hout, hnext⟩ := h.ensureResident ht
  unfold SymbolsState.lookup
  rw [h.cache.reached ht]
  cases s'.cache.reached token with
  | some r => exact ⟨rfl, htouch h⟩
  | none =>
      rcases hs : s.ensureResident rd w token with ⟨out, s₁⟩
      rcases hs' : s'.ensureResident rd w token with ⟨out', s₁'⟩
      rw [hs, hs'] at hout hnext
      cases hout
      rcases out with (kind | (_ | _)) | _
      · exact ⟨rfl, hnext⟩
      · exact ⟨rfl, hnext⟩
      · simp only
        rw [hnext.cache.reached ht]
        cases s₁'.cache.reached token with
        -- parsed, and yet not reached by the token
        | none => exact ⟨rfl, hnext⟩
        | some r => exact ⟨rfl, htouch hnext⟩
      · exact ⟨rfl, hnext⟩

/-- An operation of a session that does not name the token `u`. -/
def Op.Avoids (u : String) : Op → Prop
  | .resolve token _ | .functionName token _ => canonicalToken token ≠ u
  | .cacheEvict token => ∀ t ∈ token, canonicalToken t ≠ u
  | .addSource .. | .dropSource _ => True
  | .importManifest _ | .restart _ _ => False

/-- An enabled local source that the operation registers does not get the id of one that is still
to be indexed. -/
def NewId (s : SymbolsState) (i : World × Op) : Prop :=
  match i.2 with
  | .addSource kind path url bucket enabled secret =>
      ∀ spec ∈ s.sources.newSource kind path url bucket enabled secret, spec.isLocal = true →
        ∀ p ∈ s.sources.pending, p.sourceId ≠ spec.sourceId
  | _ => True

instance (s : SymbolsState) (i : World × Op) : Decidable (NewId s i) :=
  match i with
  | (_, .addSource kind path url bucket enabled secret) =>
      inferInstanceAs (Decidable
        (∀ spec ∈ s.sources.newSource kind path url bucket enabled secret, spec.isLocal = true →
          ∀ p ∈ s.sources.pending, p.sourceId ≠ spec.sourceId))
  | (_, .dropSource _) | (_, .resolve _ _) | (_, .functionName _ _) | (_, .cacheEvict _)
  | (_, .importManifest _) | (_, .restart _ _) => .isTrue trivial

/-- Later operations give the same replies and keep the states indistinct. -/
theorem indistinct_step (h : Indistinct rd w.fs u s s') {op : Op} (hop : op.Avoids u)
    (hid : NewId s' (w, op)) :
    reply rd s (w, op) = reply rd s' (w, op) ∧
      Indistinct rd w.fs u (step rd s (w, op)) (step rd s' (w, op)) := by
  cases op with
  | addSource kind path url bucket enabled secret =>
      obtain ⟨hadded, hadd⟩ := SourceRegistry.add_same h.sources.nextId kind path url bucket enabled
        secret
      have hsources : (s.sources.add kind path url bucket enabled secret).2.Ahead rd w.fs
          (s'.sources.add kind path url bucket enabled secret).2 := by
        rcases hadd with ⟨heq, heq'⟩ | ⟨spec, hspec, heq, heq'⟩
        · rw [heq, heq']
          exact h.sources
        · rw [heq, heq']
          exact h.sources.append (hid spec hspec) _
      refine ⟨?_, ?_, ?_, ?_⟩
      · simp only [reply, addSource_fst, hadded]
      · rw [step, step, sources_addSource, sources_addSource]
        exact hsources
      · rw [step, step, cache_addSource, cache_addSource]
        exact h.cache
      · rw [step, step, limits_addSource, limits_addSource]
        exact h.limits
  | dropSource sourceId =>
      obtain ⟨hfound, hsources⟩ := h.sources.dropSource sourceId
      refine ⟨?_, hsources, h.cache, h.limits⟩
      simp only [reply]
      exact congrArg Reply.dropped hfound
  | resolve token addr =>
      obtain ⟨hout, hnext⟩ := h.lookup hop
      rw [step_resolve, step_resolve]
      refine ⟨?_, hnext⟩
      simp only [reply, resolve_eq_lookup, hout, h.limits]
  | functionName token addr =>
      obtain ⟨hout, hnext⟩ := h.lookup hop
      rw [step_functionName, step_functionName]
      refine ⟨?_, hnext⟩
      simp only [reply, functionName_eq_lookup, hout]
  | cacheEvict token =>
      obtain ⟨hfreed, hcache⟩ := h.cache.evict hop
      exact ⟨congrArg Reply.freed hfreed, h.sources, hcache, h.limits⟩
  | importManifest manifest => exact hop.elim
  | restart maxBytes maxModules => exact hop.elim

/-- **A failing lookup does not interfere.** Whatever the state, the later replies are the same
with and without it, in every sequence of operations that does not name the token and adds no
enabled local source under the id of one that is still to be indexed. -/
theorem trace_unanswered (rd : Readers) {w : World} {s : SymbolsState} {u : String}
    (hu : Unanswered rd w s u) (b : UInt64) {ops : List (World × Op)}
    (hops : ∀ i ∈ ops, i.1.fs = w.fs ∧ i.2.Avoids (canonicalToken u))
    (hids : Run.MeetsAlong (step rd) NewId s ops) :
    Run.trace (step rd) (reply rd) (s.resolve rd w u b).2 ops
      = Run.trace (step rd) (reply rd) s ops := by
  have hself : Indistinct rd w.fs (canonicalToken u) (s.resolve rd w u b).2 s := by
    rw [resolve_eq_lookup]
    exact (lookup_unanswered hu).2
  have hsame : List.Forall₂ (fun i i' => i = i' ∧ i.1.fs = w.fs ∧ i.2.Avoids (canonicalToken u))
      ops ops := List.forall₂_same.mpr fun i hi => ⟨rfl, hops i hi⟩
  refine (Run.trace_eq (R := fun s' s => Indistinct rd w.fs (canonicalToken u) s s')
    ?_ hself hsame hids).1.symm
  rintro s' s ⟨w', op⟩ _ h ⟨rfl, hfs, hop⟩ hid
  have hfs' : w'.fs = w.fs := hfs
  rw [← hfs'] at h ⊢
  obtain ⟨hreply, hnext⟩ := indistinct_step h hop hid
  exact ⟨hreply.symm, hnext⟩

/-! ## When the next id is new -/

/-- The operation does not make the counter of ids wrap. -/
def NoWrap (s : SymbolsState) (i : World × Op) : Prop :=
  match i.2 with
  | .addSource .. => s.sources.nextId.toNat + 1 < 2 ^ 64
  | .importManifest manifest =>
      ∀ spec ∈ manifest.sources, spec.sourceId ≠ SourceRegistry.numberedId (2 ^ 64 - 1)
  | _ => True

theorem below_lookup (h : s.sources.Below) : (s.lookup rd w token).2.sources.Below := by
  rcases sources_looked (looked_lookup rd w s token) with heq | heq
  · rw [heq]
    exact h
  · rw [heq]
    exact SourceRegistry.below_ensureIndexed h

theorem below_step (h : s.sources.Below) {i : World × Op} (hi : NoWrap s i) :
    (step rd s i).sources.Below := by
  obtain ⟨w, op⟩ := i
  cases op with
  | addSource kind path url bucket enabled secret =>
      rw [step, sources_addSource]
      exact SourceRegistry.below_add h hi kind path url bucket enabled secret
  | dropSource sourceId =>
      rw [step, sources_dropSource]
      exact SourceRegistry.below_dropSource h sourceId
  | resolve token addr =>
      rw [step_resolve]
      exact below_lookup h
  | functionName token addr =>
      rw [step_functionName]
      exact below_lookup h
  | cacheEvict token => exact h
  | importManifest manifest => exact SourceRegistry.below_restore _ hi
  | restart maxBytes maxModules =>
      apply SourceRegistry.below_restore SourceRegistry.new
      intro spec hspec hid
      have hlt := h spec hspec (2 ^ 64 - 1) (by decide) hid
      have := s.sources.nextId.toNat_lt
      omega

/-- Short of a wrap, the counter is above the ids in every reachable state. -/
theorem below_runOps (rd : Readers) (maxBytes : UInt64) (maxModules : Nat)
    {ops : List (World × Op)}
    (hops : Run.MeetsAlong (step rd) NoWrap (withBudgets maxBytes maxModules) ops) :
    (runOps rd (withBudgets maxBytes maxModules) ops).sources.Below :=
  Run.invariant_run (P := fun s : SymbolsState => s.sources.Below) (fun _ _ h hi => below_step h hi)
    SourceRegistry.below_new hops

theorem newId_of_below (h : s.sources.Below) (i : World × Op) : NewId s i := by
  obtain ⟨w, op⟩ := i
  cases op with
  | addSource kind path url bucket enabled secret =>
      intro spec hspec _ p hp
      rw [(SourceRegistry.newSource_eq_some.mp hspec).1]
      exact h.newId (SourceRegistry.isLocal_of_mem_pending hp).1
  | dropSource | resolve | functionName | cacheEvict | importManifest | restart => trivial

/-- And every source that is added from there on gets a new id. -/
theorem newId_run (h : s.sources.Below) {ops : List (World × Op)}
    (hops : Run.MeetsAlong (step rd) NoWrap s ops) : Run.MeetsAlong (step rd) NewId s ops :=
  hops.imp (J := fun s => s.sources.Below) (fun _ _ h hi => below_step h hi)
    (fun _ i h _ => newId_of_below h i) h

/-- The directory `d` is added and its good image looked up. -/
def addAndResolve : List (World × Op) :=
  [(⟨StandIn.goodAndBad, 1⟩, .addSource "dir" (some "d") none none none none),
    (⟨StandIn.goodAndBad, 2⟩, .resolve (StandIn.token 0x11) 4)]

theorem addAndResolve_avoids :
    ∀ i ∈ addAndResolve, i.1.fs = StandIn.goodAndBad ∧ i.2.Avoids (canonicalToken "00") := by
  intro i hi
  rcases List.mem_cons.mp hi with rfl | hi
  · exact ⟨rfl, trivial⟩
  · rw [List.mem_singleton.mp hi]
    refine ⟨rfl, ?_⟩
    show canonicalToken (StandIn.token 0x11) ≠ canonicalToken "00"
    decide +kernel

/-- A token without a file is looked up before the directory is added. -/
theorem trace_unanswered_addAndResolve :
    Run.trace (step StandIn.readers) (reply StandIn.readers)
        ((withBudgets 4096 4).resolve StandIn.readers ⟨StandIn.goodAndBad, 0⟩ "00" 4).2
        addAndResolve
      = Run.trace (step StandIn.readers) (reply StandIn.readers) (withBudgets 4096 4)
        addAndResolve :=
  trace_unanswered StandIn.readers ⟨by decide, Or.inr (Or.inl (by decide +kernel))⟩ 4
    addAndResolve_avoids (by decide +kernel)

/-- A manifest is imported whose largest source id is the largest number, and whose next id is
that number too. After a failing lookup the source that is added under it is never indexed. -/
theorem not_trace_unanswered :
    ¬ ∀ (before after : List (World × Op)) (w : World) (u : String) (b : UInt64),
      Unanswered StandIn.readers w (runOps StandIn.readers (withBudgets 4096 4) before) u →
      (∀ i ∈ after, i.1.fs = w.fs ∧ i.2.Avoids (canonicalToken u)) →
      Run.trace (step StandIn.readers) (reply StandIn.readers)
          ((runOps StandIn.readers (withBudgets 4096 4) before).resolve StandIn.readers w u b).2
          after
        = Run.trace (step StandIn.readers) (reply StandIn.readers)
          (runOps StandIn.readers (withBudgets 4096 4) before) after := by
  intro h
  have h₁ := h
    [(⟨StandIn.goodAndBad, 0⟩, .importManifest
      { sources := [StandIn.dirSource "src18446744073709551614" "e",
          StandIn.dirSource "src18446744073709551615" "e"]
        entries := [] })]
    addAndResolve ⟨StandIn.goodAndBad, 0⟩ "00" 4
    ⟨by decide, Or.inr (Or.inl (by decide +kernel))⟩ addAndResolve_avoids
  have hframes := Reply.frames.inj (List.cons.inj (List.cons.inj h₁).2).1
  revert hframes
  decide +kernel

end SymbolsState

end VgiSymbols
