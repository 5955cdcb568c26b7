import VgiSymbols.Cache.Manifest
import VgiSymbols.State.Negative

set_option autoImplicit false

/-! # What survives a restart

A restart exports the manifest, starts a fresh state and imports it. The manifest itself comes
back as it was, through its encoding (`export_import_export`). The known misses come back exactly
when the entries mark them, and a session keeps the two in step as long as no miss is recorded
for a token that has an entry already (`missesSurvive_run_iff`).
-/

namespace VgiSymbols

/-! ## The manifest -/

/-- Decoding what was encoded restores the manifest: it is not taken for an empty blob. -/
theorem CacheManifest.fromBytes_toBytes {codec : ManifestCodec} {manifest : CacheManifest}
    (hempty : ∀ m, codec.fromSlice [] ≠ .ok m) (hcodec : codec.RoundTrips manifest) :
    fromBytes codec (manifest.toBytes codec) = manifest := by
  obtain ⟨bytes, hto, hfrom⟩ := hcodec
  have hbytes : manifest.toBytes codec = bytes := by
    rw [toBytes, hto]
    rfl
  have hne : bytes ≠ [] := by
    rintro rfl
    exact hempty manifest hfrom
  rw [fromBytes, hbytes, if_neg (by simpa using hne), hfrom]
  rfl

/-! ### A stand-in for `serde_json`

The text of one manifest, as the derived encoder writes it. -/

namespace StandIn

/-- A `dir` source, a resolved module and a miss. -/
def hitAndMissManifest : CacheManifest where
  sources := [dirSource "src0" "d"]
  entries :=
    [{ debugId := token 0x11 ++ "0", origin := some (.dir "d/a"), format := some "ELF",
       arch := some "x86_64", name := some "a", fetchedBytes := 17, rowsResolved := 1,
       lastUsedEpoch := 1, miss := false },
     { debugId := "abcd", origin := none, format := none, arch := none, name := none,
       fetchedBytes := 0, rowsResolved := 0, lastUsedEpoch := 2, miss := true }]

/-- Its JSON text, the opening brace in front. -/
def hitAndMissText : Bytes :=
  0x7b :: ("\"sources\":[\x7b\"source_id\":\"src0\",\"kind\":\"dir\",\"path\":\"d\","
    ++ "\"url\":null,\"bucket\":null,\"enabled\":true,\"egress\":false,\"secret\":null\x7d],"
    ++ "\"entries\":[\x7b\"debug_id\":\"111111111111111111111111111111110\","
    ++ "\"origin\":\x7b\"Dir\":\x7b\"path\":\"d/a\"\x7d\x7d,\"format\":\"ELF\","
    ++ "\"arch\":\"x86_64\",\"name\":\"a\",\"fetched_bytes\":17,\"rows_resolved\":1,"
    ++ "\"last_used_epoch\":1,\"miss\":false\x7d,\x7b\"debug_id\":\"abcd\","
    ++ "\"origin\":null,\"format\":null,\"arch\":null,\"name\":null,\"fetched_bytes\":0,"
    ++ "\"rows_resolved\":0,\"last_used_epoch\":2,\"miss\":true\x7d]\x7d").toList.map
      fun c => UInt8.ofNat c.toNat

/-- The codec on that manifest and its text. -/
def codec : ManifestCodec where
  toVec m := if m = hitAndMissManifest then .ok hitAndMissText else .error "not modelled"
  fromSlice bytes :=
    if bytes = hitAndMissText then .ok hitAndMissManifest else .error "expected value"

theorem codec_roundTrips : codec.RoundTrips hitAndMissManifest := by
  refine ⟨hitAndMissText, ?_, ?_⟩
  · simp only [codec, if_true]
  · simp only [codec, if_true]

theorem codec_empty (m : CacheManifest) : codec.fromSlice [] ≠ .ok m := by
  have hne : ¬ ([] : Bytes) = hitAndMissText := (List.cons_ne_nil _ _).symm
  simp only [codec, if_neg hne]
  exact nofun

end StandIn

namespace SymbolsState

variable {rd : Readers}

/-- **The durable state round-trips.** Exporting a reachable state, encoding, decoding, importing
into a fresh state and exporting again gives the same manifest, whose entries are strictly
increasing in their debug-ids. The empty blob is nothing the decoder accepts. -/
theorem export_import_export (rd : Readers) (codec : ManifestCodec) (maxBytes : UInt64)
    (maxModules : Nat) (ops : List (World × Op)) (maxBytes' : UInt64) (maxModules' : Nat)
    (hempty : ∀ m, codec.fromSlice [] ≠ .ok m)
    (hcodec : codec.RoundTrips
      (runOps rd (withBudgets maxBytes maxModules) ops).exportManifest.1) :
    let manifest := (runOps rd (withBudgets maxBytes maxModules) ops).exportManifest.1
    ((withBudgets maxBytes' maxModules').importManifest
        (CacheManifest.fromBytes codec (manifest.toBytes codec))).exportManifest.1 = manifest
      ∧ manifest.Ordered := by
  intro manifest
  have hkeyed : (runOps rd (withBudgets maxBytes maxModules) ops).cache.Keyed :=
    cache_runOps SymbolCache.keyed_invariant rd maxBytes maxModules fun i _ => by
      cases i.2 <;> trivial
  have hordered : manifest.Ordered := SymbolCache.ordered_toManifest hkeyed _
  rw [CacheManifest.fromBytes_toBytes hempty hcodec]
  exact ⟨SymbolCache.toManifest_rehydrate hordered maxBytes' maxModules', hordered⟩

/-- A source is added, one token is resolved and one is not found. -/
def hitAndMiss : List (World × Op) :=
  [(⟨StandIn.goodAndBad, 0⟩, .addSource "dir" (some "d") none none none none),
    (⟨StandIn.goodAndBad, 1⟩, .resolve (StandIn.token 0x11) 4),
    (⟨StandIn.goodAndBad, 2⟩, .resolve "AB-CD" 4)]

theorem export_import_export_hitAndMiss :
    (((withBudgets 0 0).importManifest (CacheManifest.fromBytes StandIn.codec
        (StandIn.hitAndMissManifest.toBytes StandIn.codec))).exportManifest.1
      = StandIn.hitAndMissManifest) ∧ StandIn.hitAndMissManifest.Ordered := by
  have hexport : (runOps StandIn.readers (withBudgets defaultMaxBytes defaultMaxModules)
      hitAndMiss).exportManifest.1 = StandIn.hitAndMissManifest := by decide +kernel
  have h := export_import_export StandIn.readers StandIn.codec defaultMaxBytes defaultMaxModules
    hitAndMiss 0 0 StandIn.codec_empty (by rw [hexport]; exact StandIn.codec_roundTrips)
  simp only [hexport] at h
  exact h

/-! ## The negative cache -/

/-- The known misses of a fresh state that imported the manifest are those of the state. -/
def MissesSurvive (s : SymbolsState) : Prop :=
  ∀ maxBytes maxModules token,
    ((withBudgets maxBytes maxModules).importManifest s.exportManifest.1).cache.isKnownMiss token
      = s.cache.isKnownMiss token

/-- A miss is recorded only for a token without an entry: a token that is not resident, not a
known miss and not located has none. -/
def RecordsFreshMiss (rd : Readers) (s : SymbolsState) (i : World × Op) : Prop :=
  ∀ token, i.2.token? = some token → s.cache.isResident token = false →
    s.cache.isKnownMiss token = false →
    (s.sources.locate rd i.1.fs token).1 = .returned none →
    s.cache.entries.lookup (canonicalToken token) = none

/-- After a restart exactly the tokens are known misses whose entries say so. -/
theorem mem_negative_restart {s : SymbolsState} (h : s.cache.Canonical) (maxBytes : UInt64)
    (maxModules : Nat) {k : String} :
    k ∈ ((withBudgets maxBytes maxModules).importManifest s.exportManifest.1).cache.negative ↔
      ∃ e, s.cache.entries.lookup k = some e ∧ e.miss = true := by
  have hfresh : k ∉ (withBudgets maxBytes maxModules).cache.negative := Finset.notMem_empty _
  show k ∈ (SymbolCache.rehydrate _ (s.cache.toManifest s.sources.sources).1).negative ↔ _
  rw [SymbolCache.mem_negative_rehydrate, or_iff_left hfresh]
  constructor
  · rintro ⟨e, he, hmiss, rfl⟩
    obtain ⟨d, hd⟩ := SymbolCache.mem_entries_toManifest.mp he
    obtain ⟨e₀, he₀, rfl⟩ := SymbolCache.reported_eq_some.mp hd
    rw [SymbolCache.miss_live] at hmiss
    refine ⟨e₀, ?_, hmiss⟩
    rw [SymbolCache.debugId_live, h.keyed d e₀ he₀, h.entries d e₀ he₀, he₀]
  · rintro ⟨e, he, hmiss⟩
    refine ⟨s.cache.live k e, SymbolCache.mem_entries_toManifest.mpr
      ⟨k, SymbolCache.reported_eq_some.mpr ⟨e, he, rfl⟩⟩, ?_, ?_⟩
    · rw [SymbolCache.miss_live, hmiss]
    · rw [SymbolCache.debugId_live, h.keyed k e he, h.entries k e he]

/-- The known misses survive exactly when every one of them is marked. -/
theorem missesSurvive_iff {s : SymbolsState} (h : s.cache.Canonical) :
    s.MissesSurvive ↔ s.cache.MissesMarked := by
  constructor
  · intro hsurvive k hk
    have hcanon := h.negative k hk
    have hmiss : s.cache.isKnownMiss k = true :=
      SymbolCache.isKnownMiss_iff.mpr (by rwa [hcanon])
    rw [← hsurvive 0 0 k, SymbolCache.isKnownMiss_iff, hcanon] at hmiss
    exact (mem_negative_restart h 0 0).mp hmiss
  · intro hmarked maxBytes maxModules token
    rw [Bool.eq_iff_iff, SymbolCache.isKnownMiss_iff, SymbolCache.isKnownMiss_iff,
      mem_negative_restart h]
    exact ⟨fun ⟨e, he, hmiss⟩ => h.known _ e he hmiss, hmarked _⟩

theorem Op.imports_of_isSession {Q : CacheManifest → Prop} {op : Op}
    (h : op.isSession = true) : op.Imports Q := by
  cases op with
  | importManifest manifest => cases h
  | restart maxBytes maxModules => cases h
  | addSource kind path url bucket enabled secret => trivial
  | dropSource sourceId => trivial
  | resolve token addr => trivial
  | functionName token addr => trivial
  | cacheEvict token => trivial

/-- The state of a session: canonical, with every known miss marked. -/
def Marked (s : SymbolsState) : Prop := s.cache.Canonical ∧ s.cache.MissesMarked

/-- A lookup keeps the misses marked exactly when the miss it records, if any, is a fresh one. -/
theorem missesMarked_looked_iff {w : World} {s s' : SymbolsState} {token : String}
    {attempt : Option Located} {out : Unwind Answer} (h : s.Marked)
    (hlooked : Looked rd w s token attempt out s') :
    s'.cache.MissesMarked ↔ (s.cache.isResident token = false →
      s.cache.isKnownMiss token = false → (s.sources.locate rd w.fs token).1 = .returned none →
      s.cache.entries.lookup (canonicalToken token) = none) := by
  obtain ⟨hc, hmarked⟩ := h
  -- Only a lookup that locates nothing records a miss; after any other both sides hold.
  cases hlooked with
  | hit hr =>
      apply iff_of_true (hmarked.touch _ _)
      intro hres
      rw [SymbolCache.isResident_eq, hr] at hres
      cases hres
  | miss hr hm =>
      apply iff_of_true hmarked
      intro _ hmiss
      exact absurd (SymbolCache.isKnownMiss_iff.mpr hm) (Bool.eq_false_iff.mp hmiss)
  | unwound hr hm hl =>
      apply iff_of_true hmarked
      intro _ _ hl'
      rw [hl] at hl'
      cases hl'
  | absent hr hm hl =>
      apply (SymbolCache.missesMarked_recordMiss_iff hc hmarked w.now hm).trans
      have hres : s.cache.isResident token = false := by
        rw [SymbolCache.isResident_eq, hr]
        rfl
      have hmiss : s.cache.isKnownMiss token = false :=
        Bool.eq_false_iff.mpr fun hk => hm (SymbolCache.isKnownMiss_iff.mp hk)
      rw [hl]
      exact ⟨fun hnone _ _ _ => hnone, fun hcond => hcond hres hmiss rfl⟩
  | failed hr hm hl hp =>
      apply iff_of_true hmarked
      intro _ _ hl'
      rw [hl] at hl'
      cases hl'
  | parsed hr hm hl hp hr' =>
      apply iff_of_true ((hmarked.insert _ _ _).touch _ _)
      intro _ _ hl'
      rw [hl] at hl'
      cases hl'
  | lost hr hm hl hp hr' =>
      apply iff_of_true (hmarked.insert _ _ _)
      intro _ _ hl'
      rw [hl] at hl'
      cases hl'

/-- The step lemma of a session. -/
theorem missesMarked_step_iff {s : SymbolsState} (h : s.Marked) {i : World × Op}
    (hi : i.2.isSession = true) :
    (step rd s i).cache.MissesMarked ↔ RecordsFreshMiss rd s i := by
  obtain ⟨w, op⟩ := i
  have hnone : op.token? = none → (step rd s (w, op)).cache.MissesMarked →
      ((step rd s (w, op)).cache.MissesMarked ↔ RecordsFreshMiss rd s (w, op)) :=
    fun htoken hmarked => iff_of_true hmarked fun token ht => by
      rw [htoken] at ht
      cases ht
  have hlookup : ∀ token, op.token? = some token →
      ((step rd s (w, op)).cache.MissesMarked ↔ RecordsFreshMiss rd s (w, op)) := by
    intro token ht
    rw [step_of_token_eq_some ht, missesMarked_looked_iff h (looked_lookup rd w s token)]
    refine ⟨fun hcond token' ht' => ?_, fun hcond => hcond token ht⟩
    rw [ht] at ht'
    cases ht'
    exact hcond
  cases op with
  | addSource kind path url bucket enabled secret =>
      apply hnone rfl
      rw [step, cache_addSource]
      exact h.2
  | dropSource sourceId =>
      apply hnone rfl
      rw [step, cache_dropSource]
      exact h.2
  | resolve token addr => exact hlookup token rfl
  | functionName token addr => exact hlookup token rfl
  | cacheEvict token => exact hnone rfl (h.2.evicted (SymbolCache.evicted_evict _ _))
  | importManifest manifest => cases hi
  | restart maxBytes maxModules => cases hi

/-- **Exactly which sessions the negative cache survives.** A restart after any step would bring
the known misses back, no more and no fewer, if and only if no step records a miss for a token
that has an entry. -/
theorem missesSurvive_run_iff (rd : Readers) (maxBytes : UInt64) (maxModules : Nat)
    {ops : List (World × Op)} (hops : ∀ i ∈ ops, i.2.isSession = true) :
    Run.MeetsAlong (step rd) (fun s i => (step rd s i).MissesSurvive)
        (withBudgets maxBytes maxModules) ops ↔
      Run.MeetsAlong (step rd) (RecordsFreshMiss rd) (withBudgets maxBytes maxModules) ops := by
  have hcanonical : ∀ {s : SymbolsState} {i : World × Op}, s.cache.Canonical →
      i.2.isSession = true → (step rd s i).cache.Canonical := fun hs hi =>
    cache_step SymbolCache.canonical_invariant hs (Op.imports_of_isSession hi)
  -- Up to the first step that fails the condition the misses are marked.
  refine Run.meetsAlong_congr_of (B := fun _ i => i.2.isSession = true) (J := Marked)
    (fun s i hs hi hc => ⟨hcanonical hs.1 hi, (missesMarked_step_iff hs hi).mpr hc⟩)
    (fun s i hs hi => ?_) ⟨?_, ?_⟩ (Run.MeetsAlong.of_forall_mem hops _)
  · rw [missesSurvive_iff (hcanonical hs.1 hi), missesMarked_step_iff hs hi]
  · exact SymbolCache.canonical_invariant.new maxBytes maxModules
  · exact fun k hk => absurd hk (Finset.notMem_empty k)

/-- A token that is not found, before the directory has files and after. -/
theorem missesSurvive_run_appears :
    Run.MeetsAlong (step StandIn.readers)
      (fun s i => (step StandIn.readers s i).MissesSurvive) (withBudgets 4096 4)
      [(⟨StandIn.directory "d" [], 0⟩, .addSource "dir" (some "d") none none none none),
        (⟨StandIn.directory "d" [], 1⟩, .resolve (StandIn.token 0x11) 4),
        (⟨StandIn.goodAndBad, 2⟩, .functionName (StandIn.token 0x11) 4),
        (⟨StandIn.goodAndBad, 3⟩, .cacheEvict none)] := by
  refine (missesSurvive_run_iff StandIn.readers 4096 4 (by decide)).mpr ⟨?_, ?_, ?_, ?_, trivial⟩
  · exact fun _ ht => by cases ht
  · intro token ht _ _ _
    cases ht
    decide +kernel
  · intro token ht _ hmiss _
    cases ht
    revert hmiss
    decide +kernel
  · exact fun _ ht => by cases ht

/-- A module was evicted and its source dropped; the miss that the next lookup records is not
marked in the entry, and a restart forgets it. -/
theorem not_missesSurvive_goodAndBad :
    ¬ ∀ ops : List (World × Op), (∀ i ∈ ops, i.2.isSession = true) →
      (runOps StandIn.readers (withBudgets 4096 4) ops).MissesSurvive := by
  intro h
  have h₁ := h
    [(⟨StandIn.goodAndBad, 0⟩, .addSource "dir" (some "d") none none none none),
      (⟨StandIn.goodAndBad, 1⟩, .resolve (StandIn.token 0x11 ++ "0") 4),
      (⟨StandIn.goodAndBad, 2⟩, .cacheEvict none), (⟨StandIn.goodAndBad, 3⟩, .dropSource "src0"),
      (⟨StandIn.goodAndBad, 4⟩, .resolve (StandIn.token 0x11 ++ "0") 4)]
    (by decide) 4096 4 (StandIn.token 0x11 ++ "0")
  revert h₁
  decide +kernel

end SymbolsState

end VgiSymbols
