import VgiSymbols.Cache.Manifest

set_option autoImplicit false

/-! # Modules under their own ids

A resident module is stored under its debug-id, but lookups reach it through the alias table,
where an insert claims every alias of the new module. Of these only the raw build-id can be the
debug-id of another module, by its length (`rawBuildId_of_mem_aliases`), and then it takes the
other module's key away. A run in which no insert does so keeps every resident module reachable
under its own id (`ownId_run`).
-/

namespace VgiSymbols

/-! ## Aliases that look like debug-ids -/

namespace Identity

/-- An alias that is the debug-id of another module can only be the raw build-id. -/
theorem rawBuildId_of_mem_aliases {i j : Identity} (h : j.debugIdStr ∈ i.aliases)
    (hne : j.debugIdStr ≠ i.debugIdStr) :
    ∃ b, i.rawBuildId = some b ∧ canonicalToken b = j.debugIdStr := by
  rcases mem_aliases.mp h with heq | heq | ⟨b, hb, heq⟩
  · exact absurd heq hne
  · exact absurd heq (j.debugIdStr_ne_simple _)
  · exact ⟨b, hb, heq.symm⟩

end Identity

/-- A PDB module with the bytes of a UUID for its GUID, and an age. -/
def StandIn.agedPdb (guid : Bytes) (age : UInt32) : ParsedModule :=
  .pdb
    { data := ⟨.returned (.error ())⟩
      identity :=
        { format := .pdb, arch := "unknown", debugId := DebugId.fromParts (buildIdGuid guid) age
          rawBuildId := some (hexEncode guid), codeId := none, imageBase := 0 }
      name := "b.pdb"
      byteSize := 10
      symbolCount := 0 }

namespace SymbolCache

/-! ## The two invariants -/

/-- Every resident module is stored under its debug-id. -/
def Stored (c : SymbolCache) : Prop :=
  ∀ d r, c.resident.peek d = some r → r.module.debugId = d

/-- The debug-id of every resident module is an alias of it. -/
def OwnAlias (c : SymbolCache) : Prop :=
  ∀ d r, c.resident.peek d = some r → c.aliases.lookup (canonicalToken d) = some d

theorem stored_invariant : Invariant Stored fun _ => True where
  new _ _ d r h := by cases h
  touch h now token d r hd := by
    obtain ⟨r₀, hr₀, hm, -⟩ := exists_of_peek_touch hd
    rw [← hm]
    exact h d r₀ hr₀
  recordMiss h _ _ d r hd := h d r hd
  insert {c} h now m origin d r hd := by
    by_cases hid : d = m.debugId
    · subst hid
      rw [peek_insert_self] at hd
      cases hd
      rfl
    · exact h d r (peek_of_insert_ne hid hd)
  evicted h hev d r hd := h d r (hev.peek d r hd)
  rehydrate {c} h manifest _ d r hd := by
    rw [(resident_rehydrate c manifest).1] at hd
    exact h d r hd
  exported _ _ := trivial

/-- The ids of resident modules are canonical. -/
theorem Stored.canonicalToken_eq {c : SymbolCache} (h : Stored c) {d : String} {r : Resident}
    (hd : c.resident.peek d = some r) : canonicalToken d = d := by
  rw [← h d r hd, ParsedModule.debugId, Identity.canonicalToken_debugIdStr]

/-- The module takes the key of no other resident module: its raw build-id is not the debug-id
of one. -/
def TakesNoKey (c : SymbolCache) (m : ParsedModule) : Prop :=
  ∀ b, m.identity.rawBuildId = some b → canonicalToken b ≠ m.debugId →
    c.resident.contains (canonicalToken b) = false

/-- **Exactly when an insert keeps the other modules under their ids**: when the raw build-id of
the new module is the debug-id of none that stays. -/
theorem ownAlias_insert_iff {c : SymbolCache} (h : OwnAlias c) (hs : Stored c) (now : UInt64)
    (m : ParsedModule) (origin : Origin) :
    OwnAlias (c.insert now m origin).2 ↔ (c.insert now m origin).2.TakesNoKey m := by
  have hs' := stored_invariant.insert hs now m origin
  constructor
  · intro hown b hb hne
    by_contra hres
    -- A module under that id would be reached by its own id, which now leads to the new module.
    obtain ⟨r, hr⟩ := Option.isSome_iff_exists.mp (Bool.not_eq_false _ ▸ hres)
    have halias := hown _ r hr
    have hmem : canonicalToken b ∈ m.identity.aliases :=
      Identity.mem_aliases.mpr (Or.inr (Or.inr ⟨b, hb, rfl⟩))
    rw [canonicalToken_idem, lookup_aliases_insert, if_pos hmem] at halias
    exact hne (Option.some.inj halias).symm
  · intro htakes d r hd
    rw [hs'.canonicalToken_eq hd, lookup_aliases_insert]
    by_cases hid : d = m.debugId
    · rw [if_pos (hid ▸ Identity.debugIdStr_mem_aliases _), hid]
    · -- Any other module was there before, under an id that the new module does not claim.
      rw [if_neg]
      · have hd₀ := peek_of_insert_ne hid hd
        have halias := h d r hd₀
        rwa [hs.canonicalToken_eq hd₀] at halias
      · intro hmem
        rw [← hs' d r hd] at hmem hid
        obtain ⟨b, hb, heq⟩ := Identity.rawBuildId_of_mem_aliases hmem hid
        have hnone := htakes b hb (heq ▸ hid)
        rw [heq, show r.module.identity.debugIdStr = d from hs' d r hd, LruCache.contains, hd]
          at hnone
        cases hnone

theorem TakesNoKey.insert {c : SymbolCache} {m : ParsedModule} (h : c.TakesNoKey m)
    (now : UInt64) (origin : Origin) : (c.insert now m origin).2.TakesNoKey m := by
  intro b hb hne
  have hnone := h b hb hne
  rw [LruCache.contains, Option.isSome_eq_false_iff, Option.isNone_iff_eq_none] at hnone ⊢
  cases hd : (c.insert now m origin).2.resident.peek (canonicalToken b) with
  | none => rfl
  | some r =>
      rw [peek_of_insert_ne hne hd] at hnone
      cases hnone

/-! ## Runs -/

/-- A manifest that the operation imports is canonical, as exported manifests are. -/
def CacheOp.Canonical : CacheOp → Prop
  | .rehydrate manifest => manifest.Canonical
  | _ => True

instance : DecidablePred CacheOp.Canonical
  | .rehydrate manifest => inferInstanceAs (Decidable manifest.Canonical)
  | .insert _ _ | .resolve _ _ _ | .functionName _ _ | .recordMiss _ | .evict _
  | .toManifest _ => .isTrue trivial

/-- The operation takes no other module's key. -/
def KeepsKeys (c : SymbolCache) (i : UInt64 × CacheOp) : Prop :=
  ∀ m origin, i.2 = .insert m origin → c.TakesNoKey m

/-- The step lemma. -/
theorem ownAlias_step {rd : Readers} {c : SymbolCache} {i : UInt64 × CacheOp}
    (h : OwnAlias c ∧ Stored c) (hi : i.2.Canonical ∧ KeepsKeys c i) :
    OwnAlias (step rd c i) ∧ Stored (step rd c i) := by
  obtain ⟨hown, hs⟩ := h
  obtain ⟨now, op⟩ := i
  have htouch : ∀ token, OwnAlias (c.touch now token) ∧ Stored (c.touch now token) := by
    refine fun token => ⟨fun d r hd => ?_, stored_invariant.touch hs now token⟩
    obtain ⟨r₀, hr₀, -⟩ := exists_of_peek_touch hd
    rw [aliases_touch]
    exact hown d r₀ hr₀
  have hevicted : ∀ {c'}, Evicted c c' → OwnAlias c' ∧ Stored c' := by
    refine fun hev => ⟨fun d r hd => ?_, stored_invariant.evicted hs hev⟩
    rw [hev.aliases]
    exact hown d r (hev.peek d r hd)
  cases op with
  | insert m origin =>
      exact ⟨(ownAlias_insert_iff hown hs now m origin).mpr
        ((hi.2 m origin rfl).insert now origin), stored_invariant.insert hs now m origin⟩
  | resolve token addr limits =>
      rw [step_resolve]
      exact htouch token
  | functionName token addr =>
      rw [step_functionName]
      exact htouch token
  | recordMiss token =>
      refine ⟨fun d r hd => ?_, stored_invariant.recordMiss hs now token⟩
      rw [step, lookup_aliases_recordMiss, hown d r hd, Option.some_or]
  | rehydrate manifest =>
      refine rehydrate_induction (P := fun c => OwnAlias c ∧ Stored c) (fun c e hc he => ?_)
        ⟨hown, hs⟩ hi.1
      refine ⟨fun d r hd => ?_, hc.2⟩
      rw [lookup_aliases_rehydrateEntry]
      split
      · -- The alias of a canonical entry is its own debug-id.
        next heq => rw [he, hc.2.canonicalToken_eq hd] at heq; rw [heq]
      · exact hc.1 d r hd
  | evict token => exact hevicted (evicted_evict c token)
  | toManifest sources => exact hevicted (evicted_toManifest c sources)

/-- What is done under the debug-id of a resident module is done to that module. -/
structure OwnId (rd : Readers) (c : SymbolCache) : Prop where
  ownAlias : OwnAlias c
  isResident : ∀ d r, c.resident.peek d = some r → c.isResident d = true
  resolve : ∀ d r, c.resident.peek d = some r → ∀ now addr limits,
    c.resolve rd now d addr limits = some (r.module.resolve rd addr limits,
      { c with resident := c.resident.promote d (Resident.bump now) })
  evict : ∀ d r, c.resident.peek d = some r → (c.evict (some d)).1 = r.bytes.toInt64 ∧
    ∀ a, (c.evict (some d)).2.resident.peek a = if a = d then none else c.resident.peek a

theorem OwnAlias.ownId {c : SymbolCache} (h : OwnAlias c) (rd : Readers) : OwnId rd c := by
  have hreached : ∀ d r, c.resident.peek d = some r → c.reached d = some r :=
    fun d r hd => reached_eq_some.mpr ⟨d, h d r hd, hd⟩
  refine ⟨h, fun d r hd => isResident_iff.mpr ⟨r, hreached d r hd⟩,
    fun d r hd now addr limits => ?_, fun d r hd => ?_⟩
  · have htouch : c.touch now d
        = { c with resident := c.resident.promote d (Resident.bump now) } := by
      rw [touch, resolveDebugId, h d r hd]
    rw [resolve_eq, hreached d r hd, Option.map_some, htouch]
  · obtain ⟨resident, hpop⟩ : ∃ resident, c.resident.pop d = some (r, resident) := by
      rw [LruCache.pop, hd]
      exact ⟨_, rfl⟩
    have hevict : c.evict (some d) = (r.bytes.toInt64, ({ c with
        resident := resident
        residentBytes := saturatingSub c.residentBytes r.bytes } :
          SymbolCache).foldBack d r) := by
      simp only [evict, resolveDebugId, h d r hd, hpop]
    rw [hevict]
    exact ⟨rfl, LruCache.peek_pop hpop⟩

/-- **Resident modules stay reachable under their own ids** in every run in which no insert takes
the key of another resident module. -/
theorem ownId_run (rd : Readers) (maxBytes : UInt64) (maxModules : Nat)
    {ops : List (UInt64 × CacheOp)} (hops : ∀ i ∈ ops, i.2.Canonical)
    (hkeys : Run.MeetsAlong (step rd) KeepsKeys (new maxBytes maxModules) ops) :
    OwnId rd (runOps rd (new maxBytes maxModules) ops) := by
  have hcanonical : Run.MeetsAlong (step rd) (fun _ i => i.2.Canonical)
      (new maxBytes maxModules) ops :=
    Run.MeetsAlong.of_forall_mem (C := fun i : UInt64 × CacheOp => i.2.Canonical) hops _
  have h := Run.invariant_run (P := fun c => OwnAlias c ∧ Stored c)
    (fun _ _ hc hi => ownAlias_step hc hi)
    ⟨fun _ _ hd => (by cases hd), stored_invariant.new maxBytes maxModules⟩
    (hcanonical.and hkeys)
  exact h.1.ownId rd

/-- A PDB of age 16, then two images; the second has the build-id of the first, and one more
byte. -/
theorem ownId_run_sharedPrefix :
    OwnId StandIn.readers (runOps StandIn.readers (new 4096 4)
      [(0, .insert (StandIn.agedPdb (StandIn.buildId 0x11) 0x10) .inline),
        (1, .insert (StandIn.module (StandIn.buildId 0x22) 10) .inline),
        (2, .insert (StandIn.module (StandIn.buildId 0x22 ++ [0x10]) 10) .inline),
        (3, .recordMiss "AB-CD")]) := by
  refine ownId_run StandIn.readers 4096 4 (by decide) ⟨?_, ?_, ?_, ?_, trivial⟩
  · intro m origin heq b hb _
    cases heq
    cases hb
    decide +kernel
  · intro m origin heq b hb _
    cases heq
    cases hb
    decide +kernel
  · intro m origin heq b hb _
    cases heq
    cases hb
    decide +kernel
  · intro m origin heq
    cases heq

/-- The image with the 17-byte build-id takes the key of the PDB whose debug-id has the same
digits. -/
theorem not_ownId_run :
    ¬ ∀ ops : List (UInt64 × CacheOp), (∀ i ∈ ops, i.2.Canonical) →
      OwnId StandIn.readers (runOps StandIn.readers (new 4096 4) ops) := by
  intro h
  have hown := (h
    [(0, .insert (StandIn.agedPdb (StandIn.buildId 0x11) 0x10) .inline),
      (1, .insert (StandIn.module (StandIn.buildId 0x11 ++ [0x10]) 10) .inline)]
    (by decide)).ownAlias
  obtain ⟨r, hr⟩ := Option.isSome_iff_exists.mp (show (((runOps StandIn.readers (new 4096 4)
    [(0, .insert (StandIn.agedPdb (StandIn.buildId 0x11) 0x10) .inline),
      (1, .insert (StandIn.module (StandIn.buildId 0x11 ++ [0x10]) 10) .inline)]).resident.peek
        (StandIn.rawToken 0x10)).isSome = true) by decide +kernel)
  have halias := hown _ r hr
  revert halias
  decide +kernel

end SymbolCache

end VgiSymbols
