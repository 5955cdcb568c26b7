import VgiSymbols.Cache.Runs
import Mathlib.Data.Finset.Lattice.Lemmas

set_option autoImplicit false

/-! # The manifest of a cache

What exporting a cache writes and what importing a manifest does to one, entry by entry. In a
cache that stores every entry under its own debug-id (`Keyed`, which every operation keeps), the
entries of the exported manifest have distinct ids, in increasing order, and importing it in a
fresh cache and exporting again gives it back (`ordered_toManifest`, `toManifest_rehydrate`).
-/

namespace VgiSymbols

/-- The debug-ids of the entries are strictly increasing, and so pairwise distinct. -/
def CacheManifest.Ordered (manifest : CacheManifest) : Prop :=
  manifest.entries.Pairwise fun a b => a.debugId < b.debugId

/-- The keys an ordered manifest is imported under are distinct. -/
theorem CacheManifest.Ordered.nodup_ids {manifest : CacheManifest} (h : manifest.Ordered) :
    ((manifest.entries.map fun e => (e.debugId, e)).map Prod.fst).Nodup := by
  rw [List.map_map]
  exact List.pairwise_map.mpr (h.imp fun hlt => String.ne_of_lt hlt)

/-- The debug-ids of the entries are canonical tokens, as in every manifest that a cache exports
(`canonical_invariant`). -/
def CacheManifest.Canonical (manifest : CacheManifest) : Prop :=
  ∀ e ∈ manifest.entries, canonicalToken e.debugId = e.debugId

instance (manifest : CacheManifest) : Decidable manifest.Canonical :=
  inferInstanceAs (Decidable (∀ e ∈ manifest.entries, canonicalToken e.debugId = e.debugId))

namespace SymbolCache

/-! ## Importing -/

/-- The tokens a manifest marks as missing. -/
def missTokens (manifest : CacheManifest) : Finset String :=
  ((manifest.entries.filter (·.miss)).map fun e => canonicalToken e.debugId).toFinset

theorem mem_missTokens {manifest : CacheManifest} {k : String} :
    k ∈ missTokens manifest ↔
      ∃ e ∈ manifest.entries, e.miss = true ∧ canonicalToken e.debugId = k := by
  simp [missTokens, and_assoc]

/-- Rehydrating inserts the entries and their aliases, and adds the misses. -/
theorem rehydrate_eq (c : SymbolCache) (manifest : CacheManifest) :
    c.rehydrate manifest = { c with
      aliases := c.aliases.insertList
        (manifest.entries.map fun e => (canonicalToken e.debugId, e.debugId))
      entries := c.entries.insertList (manifest.entries.map fun e => (e.debugId, e))
      negative := missTokens manifest ∪ c.negative } := by
  unfold rehydrate missTokens
  generalize manifest.entries = l
  induction l generalizing c with
  | nil =>
      have hneg : (([] : List String).toFinset) ∪ c.negative = c.negative :=
        Finset.empty_union c.negative
      simp only [List.filter_nil, List.map_nil, hneg]
      rfl
  | cons e l ih =>
      rw [List.foldl_cons, ih]
      simp only [rehydrateEntry, List.map_cons, Table.insertList_cons, List.filter_cons]
      congr 1
      cases e.miss with
      | false => simp
      | true =>
          simp only [if_true, List.map_cons, List.toFinset_cons, Finset.insert_union]
          exact Finset.union_insert _ _ _

/-- Importing a manifest once more changes nothing. -/
theorem rehydrate_rehydrate (c : SymbolCache) (manifest : CacheManifest) :
    (c.rehydrate manifest).rehydrate manifest = c.rehydrate manifest := by
  rw [rehydrate_eq (c.rehydrate manifest), rehydrate_eq c]
  simp only [Table.insertList_insertList, ← Finset.union_assoc, Finset.union_self]

theorem mem_negative_rehydrate {c : SymbolCache} {manifest : CacheManifest} {k : String} :
    k ∈ (c.rehydrate manifest).negative ↔
      (∃ e ∈ manifest.entries, e.miss = true ∧ canonicalToken e.debugId = k)
        ∨ k ∈ c.negative := by
  rw [rehydrate_eq, Finset.mem_union, mem_missTokens]

/-- What the entries of an ordered manifest say, they say after it was imported. -/
theorem lookup_rehydrate_of_mem {c : SymbolCache} {manifest : CacheManifest}
    (h : manifest.Ordered) {e : ManifestEntry} (he : e ∈ manifest.entries) :
    (c.rehydrate manifest).entries.lookup e.debugId = some e := by
  rw [rehydrate_eq]
  exact Table.lookup_insertList_of_mem h.nodup_ids (List.mem_map.mpr ⟨e, he, rfl⟩)

/-- An entry that the manifest does not mention is left as it is. -/
theorem lookup_rehydrate_of_forall_ne {c : SymbolCache} {manifest : CacheManifest} {d : String}
    (h : ∀ e ∈ manifest.entries, e.debugId ≠ d) :
    (c.rehydrate manifest).entries.lookup d = c.entries.lookup d := by
  rw [rehydrate_eq]
  apply Table.lookup_insertList_of_notMem
  rw [List.map_map, List.mem_map]
  rintro ⟨e, he, heq⟩
  exact h e he heq

/-! ## Exporting -/

/-- An entry with the live stats of the resident module of its debug-id. -/
def live (c : SymbolCache) (d : String) (e : ManifestEntry) : ManifestEntry :=
  ((c.resident.peek d).map fun r => r.stamp e).getD e

@[simp] theorem debugId_live (c : SymbolCache) (d : String) (e : ManifestEntry) :
    (c.live d e).debugId = e.debugId := by
  unfold live
  cases c.resident.peek d <;> rfl

@[simp] theorem origin_live (c : SymbolCache) (d : String) (e : ManifestEntry) :
    (c.live d e).origin = e.origin := by
  unfold live
  cases c.resident.peek d <;> rfl

@[simp] theorem miss_live (c : SymbolCache) (d : String) (e : ManifestEntry) :
    (c.live d e).miss = e.miss := by
  unfold live
  cases c.resident.peek d <;> rfl

/-- The entry of a debug-id as it is exported. -/
def reported (c : SymbolCache) (d : String) : Option ManifestEntry :=
  (c.entries.lookup d).map (c.live d)

theorem reported_eq_some {c : SymbolCache} {d : String} {e : ManifestEntry} :
    c.reported d = some e ↔ ∃ e₀, c.entries.lookup d = some e₀ ∧ c.live d e₀ = e :=
  Option.map_eq_some_iff

theorem lookup_syncEntries (c : SymbolCache) (d : String) :
    c.syncEntries.entries.lookup d = c.reported d := by
  -- Every resident id stands in the list once, so its stats are written once.
  have key : ∀ (l : List (Sigma fun _ : String => Resident)) (c₁ : SymbolCache), l.NodupKeys →
      (l.foldl (fun c e => c.foldBack e.1 e.2) c₁).entries.lookup d
        = (c₁.entries.lookup d).map fun e => ((l.dlookup d).map fun r => r.stamp e).getD e := by
    intro l
    induction l with
    | nil => intro c₁ _; simp
    | cons a l ih =>
        intro c₁ hl
        obtain ⟨hmem, hl⟩ := List.nodupKeys_cons.mp hl
        rw [List.foldl_cons, ih _ hl, lookup_foldBack]
        obtain ⟨id, r⟩ := a
        by_cases hd : d = id
        · subst hd
          rw [if_pos rfl, List.dlookup_eq_none.mpr hmem, List.dlookup_cons_eq]
          cases c₁.entries.lookup d <;> rfl
        · rw [if_neg hd, List.dlookup_cons_ne _ _ hd]
  exact key c.resident.items.entries c c.resident.items.nodupKeys

theorem mem_entries_toManifest {c : SymbolCache} {sources : List SourceSpec}
    {e : ManifestEntry} :
    e ∈ (c.toManifest sources).1.entries ↔ ∃ d, c.reported d = some e := by
  have hperm : e ∈ (c.toManifest sources).1.entries ↔
      e ∈ c.syncEntries.entries.entries.map fun e => e.2 := List.mem_insertionSort _
  rw [hperm, List.mem_map]
  constructor
  · rintro ⟨⟨d, e⟩, hmem, rfl⟩
    exact ⟨d, by rw [← lookup_syncEntries]; exact AList.mem_lookup_iff.mpr hmem⟩
  · rintro ⟨d, hd⟩
    rw [← lookup_syncEntries] at hd
    exact ⟨⟨d, e⟩, AList.mem_lookup_iff.mp hd, rfl⟩

/-! ## Keyed caches -/

/-- Every entry is stored under its own debug-id. -/
def Keyed (c : SymbolCache) : Prop := ∀ d e, c.entries.lookup d = some e → e.debugId = d

theorem keyed_rehydrateEntry {c : SymbolCache} (h : Keyed c) (e : ManifestEntry) :
    Keyed (c.rehydrateEntry e) := by
  intro d e' he'
  rw [lookup_rehydrateEntry] at he'
  split at he'
  · next heq => cases he'; exact heq.symm
  · exact h d e' he'

/-- Every operation stores entries under their own ids. -/
theorem keyed_invariant : Invariant Keyed fun _ => True where
  new _ _ d e h := by cases h
  touch h now token d e he := h d e (by rwa [entries_touch] at he)
  recordMiss {c} h now token d e he := by
    rcases lookup_entries_recordMiss he with hd | ⟨rfl, rfl⟩
    · exact h d e hd
    · rfl
  insert h now m origin d e he := by
    obtain ⟨e₀, he₀, hid, -⟩ := entries_insert he
    rw [hid]
    split at he₀
    · next heq =>
        obtain rfl := Option.some.inj he₀
        exact heq.symm
    · exact h d e₀ he₀
  evicted h hev d e he := by
    obtain ⟨e₀, he₀, hid, -⟩ := hev.entries d e he
    rw [hid]
    exact h d e₀ he₀
  rehydrate h manifest _ :=
    rehydrate_induction (P := Keyed) (Q := fun _ => True)
      (fun _ e hc _ => keyed_rehydrateEntry hc e) h fun _ _ => trivial
  exported _ _ := trivial

theorem Keyed.syncEntries {c : SymbolCache} (h : Keyed c) : Keyed c.syncEntries :=
  keyed_invariant.evicted h (evicted_toManifest c [])

/-- The values of a keyed table have the keys for ids. -/
theorem Keyed.map_debugId {c : SymbolCache} (h : Keyed c) :
    (c.entries.entries.map fun e => e.2).map ManifestEntry.debugId = c.entries.keys := by
  rw [List.map_map]
  exact List.map_congr_left fun e he => h e.1 e.2 (AList.mem_lookup_iff.mpr he)

/-- Once exported, the cache holds the entries that the manifest holds. -/
theorem lookup_toManifest_of_mem {c : SymbolCache} (h : Keyed c) {sources : List SourceSpec}
    {e : ManifestEntry} (he : e ∈ (c.toManifest sources).1.entries) :
    (c.toManifest sources).2.entries.lookup e.debugId = some e := by
  obtain ⟨d, hd⟩ := mem_entries_toManifest.mp he
  rw [← lookup_syncEntries] at hd
  rw [h.syncEntries d e hd]
  exact hd

/-! ## Canonical caches -/

/-- The entries are stored under their own ids, which are canonical tokens, as known misses are;
and what an entry marks as missing is a known miss. -/
structure Canonical (c : SymbolCache) : Prop where
  keyed : Keyed c
  entries : ∀ d e, c.entries.lookup d = some e → canonicalToken d = d
  negative : ∀ k ∈ c.negative, canonicalToken k = k
  known : ∀ d e, c.entries.lookup d = some e → e.miss = true → d ∈ c.negative

theorem Canonical.rehydrateEntry {c : SymbolCache} (h : Canonical c) {e : ManifestEntry}
    (he : canonicalToken e.debugId = e.debugId) : Canonical (c.rehydrateEntry e) where
  keyed := keyed_rehydrateEntry h.keyed e
  entries d e' hd := by
    rw [lookup_rehydrateEntry] at hd
    split at hd
    · next heq => rw [heq, he]
    · exact h.entries d e' hd
  negative k hk := by
    rcases mem_negative_rehydrateEntry.mp hk with ⟨-, rfl⟩ | hk
    · exact canonicalToken_idem _
    · exact h.negative k hk
  known d e' hd hmiss := by
    rw [lookup_rehydrateEntry] at hd
    rw [mem_negative_rehydrateEntry]
    split at hd
    · next heq =>
        cases hd
        exact Or.inl ⟨hmiss, by rw [heq, he]⟩
    · exact Or.inr (h.known d e' hd hmiss)

/-- Every operation keeps a cache canonical, if the manifests it imports are. -/
theorem canonical_invariant : Invariant Canonical CacheManifest.Canonical where
  new maxBytes maxModules :=
    ⟨keyed_invariant.new maxBytes maxModules, fun _ _ h => (by cases h),
      fun _ h => absurd h (Finset.notMem_empty _), fun _ _ h => (by cases h)⟩
  touch h now token := {
    keyed := keyed_invariant.touch h.keyed now token
    entries := by
      rw [entries_touch]
      exact h.entries
    negative := by
      rw [negative_touch]
      exact h.negative
    known := by
      rw [entries_touch, negative_touch]
      exact h.known }
  recordMiss {c} h now token := {
    keyed := keyed_invariant.recordMiss h.keyed now token
    entries := fun d e hd => by
      rcases lookup_entries_recordMiss hd with hd | ⟨rfl, -⟩
      · exact h.entries d e hd
      · exact canonicalToken_idem token
    negative := fun k hk => by
      rcases mem_negative_recordMiss.mp hk with rfl | hk
      · exact canonicalToken_idem token
      · exact h.negative k hk
    known := fun d e hd hmiss => by
      rw [mem_negative_recordMiss]
      rcases lookup_entries_recordMiss hd with hd | ⟨rfl, -⟩
      · exact Or.inr (h.known d e hd hmiss)
      · exact Or.inl rfl }
  insert {c} h now m origin := {
    keyed := keyed_invariant.insert h.keyed now m origin
    entries := fun d e hd => by
      obtain ⟨e₀, he₀, -⟩ := entries_insert hd
      split at he₀
      · next heq => rw [heq, ParsedModule.debugId, Identity.canonicalToken_debugIdStr]
      · exact h.entries d e₀ he₀
    negative := fun k hk => by
      rw [negative_insert] at hk
      exact h.negative k (Finset.mem_of_mem_erase hk)
    known := fun d e hd hmiss => by
      obtain ⟨e₀, he₀, -, hm⟩ := entries_insert hd
      rw [hmiss] at hm
      rw [negative_insert, Finset.mem_erase]
      -- The entry of the module itself marks no miss.
      split at he₀
      · obtain rfl := Option.some.inj he₀
        cases hm
      · next hne => exact ⟨hne, h.known d e₀ he₀ hm.symm⟩ }
  evicted {c c'} h hev := {
    keyed := keyed_invariant.evicted h.keyed hev
    entries := fun d e hd => by
      obtain ⟨e₀, he₀, -⟩ := hev.entries d e hd
      exact h.entries d e₀ he₀
    negative := by
      rw [hev.negative]
      exact h.negative
    known := fun d e hd hmiss => by
      obtain ⟨e₀, he₀, -, hm⟩ := hev.entries d e hd
      rw [hev.negative]
      exact h.known d e₀ he₀ (hm ▸ hmiss) }
  rehydrate h _ hm :=
    rehydrate_induction (P := Canonical) (fun _ _ hc he => hc.rehydrateEntry he) h hm
  exported h sources e he := by
    obtain ⟨d, e₀, he₀, hid, -⟩ := entries_toManifest he
    rw [hid, h.keyed d e₀ he₀]
    exact h.entries d e₀ he₀

/-! ## Marked misses -/

/-- Every known miss is marked in its entry. -/
def MissesMarked (c : SymbolCache) : Prop :=
  ∀ k ∈ c.negative, ∃ e, c.entries.lookup k = some e ∧ e.miss = true

theorem MissesMarked.touch {c : SymbolCache} (h : MissesMarked c) (now : UInt64)
    (token : String) : MissesMarked (c.touch now token) := by
  intro k hk
  rw [negative_touch] at hk
  rw [entries_touch]
  exact h k hk

theorem MissesMarked.evicted {c c' : SymbolCache} (h : MissesMarked c) (hev : Evicted c c') :
    MissesMarked c' := by
  intro k hk
  rw [hev.negative] at hk
  obtain ⟨e, he, hmiss⟩ := h k hk
  obtain ⟨e', he', hs⟩ := exists_of_map_static (hev.static k) he
  exact ⟨e', he', (ManifestEntry.eq_of_static hs).2.2.trans hmiss⟩

/-- An insert overwrites one entry, and takes the miss of that debug-id out. -/
theorem MissesMarked.insert {c : SymbolCache} (h : MissesMarked c) (now : UInt64)
    (m : ParsedModule) (origin : Origin) : MissesMarked (c.insert now m origin).2 := by
  refine MissesMarked.evicted (c := c.store now m origin) (fun k hk => ?_)
    (evicted_insert c now m origin)
  have hk' : k ∈ c.negative.erase (canonicalToken m.debugId) := hk
  rw [ParsedModule.debugId, Identity.canonicalToken_debugIdStr, Finset.mem_erase] at hk'
  obtain ⟨e, he, hmiss⟩ := h k hk'.2
  exact ⟨e, (AList.lookup_insert_ne hk'.1).trans he, hmiss⟩

/-- **Recording a miss keeps the misses marked exactly when the token has no entry**, since an
entry is not overwritten. -/
theorem missesMarked_recordMiss_iff {c : SymbolCache} (hc : Canonical c) (h : MissesMarked c)
    (now : UInt64) {token : String} (hneg : canonicalToken token ∉ c.negative) :
    MissesMarked (c.recordMiss now token) ↔ c.entries.lookup (canonicalToken token) = none := by
  constructor
  · intro hmarked
    obtain ⟨e, he, hmiss⟩ := hmarked _ (mem_negative_recordMiss.mpr (Or.inl rfl))
    cases hd : c.entries.lookup (canonicalToken token) with
    | none => rfl
    | some e₀ =>
        -- The entry that was there would have to be a miss entry, of a known miss.
        rw [lookup_recordMiss_of_eq_some hd] at he
        cases he
        exact absurd (hc.known _ _ hd hmiss) hneg
  · intro hnone k hk
    rcases mem_negative_recordMiss.mp hk with rfl | hk
    · exact ⟨_, by rw [lookup_recordMiss, hnone, Option.none_or, if_pos rfl], rfl⟩
    · obtain ⟨e, he, hmiss⟩ := h k hk
      exact ⟨e, lookup_recordMiss_of_eq_some he now token, hmiss⟩

/-! ## The round trip -/

/-- The order of the exported entries. -/
abbrev IdLE (a b : ManifestEntry) : Prop := a.debugId ≤ b.debugId

instance : Std.Total IdLE := ⟨fun a b => String.le_total a.debugId b.debugId⟩

instance : IsTrans ManifestEntry IdLE := ⟨fun _ _ _ h h' => String.le_trans h h'⟩

/-- **What is exported is ordered**: the ids of the entries are strictly increasing. -/
theorem ordered_toManifest {c : SymbolCache} (h : Keyed c) (sources : List SourceSpec) :
    (c.toManifest sources).1.Ordered := by
  have hperm : ((c.toManifest sources).1.entries).Perm
      (c.syncEntries.entries.entries.map fun e => e.2) := List.perm_insertionSort _ _
  have hnodup : ((c.toManifest sources).1.entries.map ManifestEntry.debugId).Nodup := by
    rw [(hperm.map _).nodup_iff, h.syncEntries.map_debugId]
    exact c.syncEntries.entries.keys_nodup
  have hsorted : (c.toManifest sources).1.entries.Pairwise IdLE :=
    List.pairwise_insertionSort IdLE _
  exact hsorted.imp₂ (fun a b hle hne => String.not_le.mp fun hge =>
    hne (String.le_antisymm hle hge)) (List.pairwise_map.mp hnodup)

/-- A fresh cache that imported an ordered manifest exports that manifest. -/
theorem toManifest_rehydrate {manifest : CacheManifest} (h : manifest.Ordered)
    (maxBytes : UInt64) (maxModules : Nat) :
    (((new maxBytes maxModules).rehydrate manifest).toManifest manifest.sources).1
      = manifest := by
  have hids := h.nodup_ids
  -- No module is resident, so nothing is folded back and the values are the given entries.
  have hvalues : ((new maxBytes maxModules).rehydrate manifest).syncEntries.entries.entries.map
      (fun e => e.2) = manifest.entries.reverse := by
    have hresident := (resident_rehydrate (new maxBytes maxModules) manifest).1
    rw [syncEntries, hresident, rehydrate_eq]
    show (Table.insertList ∅ _).entries.map _ = _
    rw [Table.entries_insertList_empty hids, List.map_reverse, List.map_map, List.map_map]
    exact congrArg List.reverse (List.map_id _)
  have hsorted : manifest.entries.Pairwise IdLE := h.imp fun hlt =>
    String.not_lt.mp fun hgt => String.lt_irrefl _ (String.lt_trans hlt hgt)
  have heq : manifest.entries.reverse.insertionSort IdLE = manifest.entries := by
    refine List.Perm.eq_of_pairwise (fun a b ha hb hab hba => ?_)
      (List.pairwise_insertionSort IdLE _) hsorted
      ((List.perm_insertionSort IdLE _).trans (List.reverse_perm _))
    have ha' : a ∈ manifest.entries := by simpa using ha
    rw [List.map_map] at hids
    exact List.inj_on_of_nodup_map hids ha' hb (String.le_antisymm hab hba)
  show CacheManifest.mk manifest.sources (List.insertionSort IdLE _) = manifest
  rw [hvalues, heq]

end SymbolCache

end VgiSymbols
