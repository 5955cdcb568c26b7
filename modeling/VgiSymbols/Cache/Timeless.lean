import VgiSymbols.Basic.Values
import VgiSymbols.Cache.Spec

set_option autoImplicit false

/-! # The cache without its timestamps

`timeless` forgets when a module or an entry was last used. Every operation commutes with it, so
no timestamp ever decides what an operation does.
-/

namespace VgiSymbols

/-- A resident module without the time of its last use. -/
def Resident.timeless (r : Resident) : Resident := { r with lastUsedEpoch := 0 }

/-- An entry without the time of its last use. -/
def ManifestEntry.timeless (e : ManifestEntry) : ManifestEntry := { e with lastUsedEpoch := 0 }

/-- A manifest without timestamps. -/
def CacheManifest.timeless (manifest : CacheManifest) : CacheManifest :=
  { manifest with entries := manifest.entries.map ManifestEntry.timeless }

namespace SymbolCache

/-- The cache without timestamps. -/
def timeless (c : SymbolCache) : SymbolCache :=
  { c with
    resident := c.resident.mapVal Resident.timeless
    entries := c.entries.mapVal ManifestEntry.timeless }

@[simp] theorem resolveDebugId_timeless (c : SymbolCache) (token : String) :
    c.timeless.resolveDebugId token = c.resolveDebugId token := rfl

@[simp] theorem isKnownMiss_timeless (c : SymbolCache) (token : String) :
    c.timeless.isKnownMiss token = c.isKnownMiss token := rfl

theorem reached_timeless (c : SymbolCache) (token : String) :
    c.timeless.reached token = (c.reached token).map Resident.timeless := by
  unfold reached
  rw [resolveDebugId_timeless]
  cases c.resolveDebugId token with
  | none => rfl
  | some d => exact LruCache.peek_mapVal Resident.timeless c.resident d

@[simp] theorem isResident_timeless (c : SymbolCache) (token : String) :
    c.timeless.isResident token = c.isResident token := by
  rw [isResident_eq, isResident_eq, reached_timeless, Option.isSome_map]

theorem timeless_touch (c : SymbolCache) (now : UInt64) (token : String) :
    (c.touch now token).timeless = c.timeless.touch 0 token := by
  unfold touch
  rw [resolveDebugId_timeless]
  cases c.resolveDebugId token with
  | none => rfl
  | some d =>
      have hbump : ∀ r : Resident, (r.bump now).timeless = r.timeless.bump 0 := fun _ => rfl
      have h := LruCache.promote_mapVal Resident.timeless c.resident hbump d
      exact congrArg (fun resident => { c.timeless with resident := resident }) h.symm

theorem timeless_recordMiss (c : SymbolCache) (now : UInt64) (token : String) :
    (c.recordMiss now token).timeless = c.timeless.recordMiss 0 token := by
  have h := Table.orInsert_mapVal ManifestEntry.timeless c.entries (canonicalToken token)
    (missEntry now (canonicalToken token))
  exact congrArg (fun entries => { (c.timeless.recordMiss 0 token) with entries := entries })
    h.symm

theorem timeless_foldBack (c : SymbolCache) (id : String) (r : Resident) :
    (c.foldBack id r).timeless = c.timeless.foldBack id r.timeless := by
  have hstamp : ∀ e : ManifestEntry, (r.stamp e).timeless = r.timeless.stamp e.timeless :=
    fun _ => rfl
  have h := Table.modify_mapVal ManifestEntry.timeless c.entries hstamp id
  exact congrArg (fun entries => { c.timeless with entries := entries }) h.symm

/-! ## Eviction -/

theorem timeless_evictLoop (fuel : Nat) (c : SymbolCache) :
    (evictLoop fuel c).timeless = evictLoop fuel c.timeless := by
  induction fuel generalizing c with
  | zero => rfl
  | succ fuel ih =>
      have hpop := LruCache.popLru_mapVal Resident.timeless c.resident
      have hlen : c.timeless.resident.len = c.resident.len :=
        LruCache.len_mapVal Resident.timeless c.resident
      rw [evictLoop, evictLoop, hlen]
      by_cases hguard : c.maxBytes < c.residentBytes ∧ 1 < c.resident.len
      · rw [if_pos hguard, if_pos (show c.timeless.maxBytes < c.timeless.residentBytes ∧ _ from
          hguard)]
        cases h : c.resident.popLru with
        | none =>
            rw [h] at hpop
            rw [show c.timeless.resident.popLru = none from hpop]
        | some e =>
            rw [h] at hpop
            rw [show c.timeless.resident.popLru = _ from hpop]
            refine (ih _).trans (congrArg (evictLoop fuel) ?_)
            exact timeless_foldBack _ _ _
      · rw [if_neg hguard, if_neg (show ¬ (c.timeless.maxBytes < c.timeless.residentBytes ∧ _) from
          hguard)]

theorem timeless_evictAllLoop (fuel : Nat) (freed : Int64) (c : SymbolCache) :
    evictAllLoop fuel freed c.timeless
      = ((evictAllLoop fuel freed c).1, (evictAllLoop fuel freed c).2.timeless) := by
  induction fuel generalizing freed c with
  | zero => rfl
  | succ fuel ih =>
      have hpop := LruCache.popLru_mapVal Resident.timeless c.resident
      rw [evictAllLoop, evictAllLoop]
      cases h : c.resident.popLru with
      | none =>
          rw [h] at hpop
          rw [show c.timeless.resident.popLru = none from hpop]
      | some e =>
          rw [h] at hpop
          rw [show c.timeless.resident.popLru = _ from hpop]
          refine Eq.trans (congrArg (evictAllLoop fuel _) ?_) (ih _ _)
          exact (timeless_foldBack { c with resident := e.2 } e.1.1 e.1.2).symm

theorem evict_timeless (c : SymbolCache) (token : Option String) :
    c.timeless.evict token = ((c.evict token).1, (c.evict token).2.timeless) := by
  cases token with
  | none =>
      have hlen : c.timeless.resident.len = c.resident.len :=
        LruCache.len_mapVal Resident.timeless c.resident
      unfold evict
      simp only [hlen, timeless_evictAllLoop]
      rfl
  | some t =>
      unfold evict
      simp only [resolveDebugId_timeless]
      cases c.resolveDebugId t with
      | none => rfl
      | some d =>
          have hpop : c.timeless.resident.pop d
              = (c.resident.pop d).map fun e => (e.1.timeless, e.2.mapVal Resident.timeless) :=
            LruCache.pop_mapVal Resident.timeless c.resident d
          simp only [hpop]
          cases c.resident.pop d with
          | none => rfl
          | some e =>
              have hfold := timeless_foldBack { c with
                resident := e.2
                residentBytes := saturatingSub c.residentBytes e.1.bytes } d e.1
              exact Prod.ext rfl hfold.symm

/-! ## Insertion -/

theorem timeless_store (c : SymbolCache) (now : UInt64) (m : ParsedModule) (origin : Origin) :
    (c.store now m origin).timeless = c.timeless.store 0 m origin := by
  have hput := LruCache.put_mapVal Resident.timeless c.resident m.debugId (fresh now m)
  have hentries := Table.insert_mapVal ManifestEntry.timeless c.entries m.debugId
    (entryOf m origin now)
  have hpeek : c.timeless.resident.peek m.debugId
      = (c.resident.peek m.debugId).map Resident.timeless :=
    LruCache.peek_mapVal Resident.timeless c.resident m.debugId
  simp only [timeless, store, SymbolCache.mk.injEq, LruCache.put_fst]
  refine ⟨(congrArg Prod.snd hput).symm, trivial, hentries.symm, trivial, trivial, ?_, trivial⟩
  -- The replaced module has its bytes with or without its timestamp.
  rw [show (c.resident.mapVal Resident.timeless).peek m.debugId = _ from hpeek]
  cases c.resident.peek m.debugId <;> rfl

theorem timeless_insert (c : SymbolCache) (now : UInt64) (m : ParsedModule) (origin : Origin) :
    (c.insert now m origin).2.timeless = (c.timeless.insert 0 m origin).2 := by
  have hlen : (c.store now m origin).timeless.resident.len
      = (c.store now m origin).resident.len := LruCache.len_mapVal Resident.timeless _
  show (evictLoop _ (c.store now m origin)).timeless = evictLoop _ (c.timeless.store 0 m origin)
  rw [timeless_evictLoop, ← timeless_store c now, hlen]

/-! ## The manifest -/

theorem timeless_rehydrateEntry (c : SymbolCache) (e : ManifestEntry) :
    (c.rehydrateEntry e).timeless = c.timeless.rehydrateEntry e.timeless := by
  have h := Table.insert_mapVal ManifestEntry.timeless c.entries e.debugId e
  exact congrArg (fun entries => { (c.timeless.rehydrateEntry e.timeless) with
    entries := entries }) h.symm

theorem timeless_rehydrate (c : SymbolCache) (manifest : CacheManifest) :
    (c.rehydrate manifest).timeless = c.timeless.rehydrate manifest.timeless := by
  unfold rehydrate CacheManifest.timeless
  simp only
  induction manifest.entries generalizing c with
  | nil => rfl
  | cons e l ih => rw [List.map_cons, List.foldl_cons, List.foldl_cons, ih, timeless_rehydrateEntry]

theorem timeless_syncEntries (c : SymbolCache) :
    c.syncEntries.timeless = c.timeless.syncEntries := by
  have key : ∀ (l : List (Sigma fun _ : String => Resident)) (c : SymbolCache),
      (l.foldl (fun c e => c.foldBack e.1 e.2) c).timeless
        = (l.map fun e => (⟨e.1, e.2.timeless⟩ : Sigma fun _ : String => Resident)).foldl
          (fun c e => c.foldBack e.1 e.2) c.timeless := by
    intro l
    induction l with
    | nil => exact fun c => rfl
    | cons e l ih =>
        intro c
        rw [List.map_cons, List.foldl_cons, List.foldl_cons, ih, timeless_foldBack]
  exact key c.resident.items.entries c

/-- The manifest lists the same entries in the same order. -/
theorem timeless_toManifest (c : SymbolCache) (sources : List SourceSpec) :
    c.timeless.toManifest sources
      = ((c.toManifest sources).1.timeless, (c.toManifest sources).2.timeless) := by
  have hentries : c.timeless.syncEntries.entries.entries.map (fun e => e.2)
      = (c.syncEntries.entries.entries.map fun e => e.2).map ManifestEntry.timeless := by
    rw [← timeless_syncEntries, List.map_map]
    exact List.map_map
  refine Prod.ext ?_ (timeless_syncEntries c).symm
  have hsort := List.map_insertionSort (r := fun a b : ManifestEntry => a.debugId ≤ b.debugId)
    (s := fun a b : ManifestEntry => a.debugId ≤ b.debugId) ManifestEntry.timeless
    (c.syncEntries.entries.entries.map fun e => e.2) fun a _ b _ => Iff.rfl
  exact congrArg (CacheManifest.mk sources)
    ((congrArg (List.insertionSort _) hentries).trans hsort.symm)

end SymbolCache

end VgiSymbols
