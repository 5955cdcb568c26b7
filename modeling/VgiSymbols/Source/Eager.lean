import VgiSymbols.Basic.Run
import VgiSymbols.Source.Numbered

set_option autoImplicit false

/-! # The lazy index and the eager one

`eagerLocate` locates a token without an index: it lists the enabled local sources from scratch,
in order, and takes the first file that answers. The registry indexes a source once, some time
before it is first needed, and forgets everything when a source is dropped; `Distinct` is what it
keeps while the source ids stay distinct, and in every registry reached so `locate` answers as
`eagerLocate` does (`locate_eq_eagerLocate`).
-/

namespace VgiSymbols

open Unwind

/-! ## Locating from scratch -/

/-- The rows of an index over the sources: the enabled local ones in order, the files of each in
listing order. -/
def eagerRows (rd : Readers) (fs : FileSystem) :
    List SourceSpec → Unwind (List (List String × (PathBuf × Bool)))
  | [] => .returned []
  | s :: rest =>
      if s.isLocal then do
        let files ← s.list rd fs
        let rows ← eagerRows rd fs rest
        return SourceRegistry.indexRows s files ++ rows
      else eagerRows rd fs rest

/-- The first file of the sources that answers to the token. -/
def eagerLocate (rd : Readers) (fs : FileSystem) (sources : List SourceSpec) (token : String) :
    Unwind (Option Located) := do
  let rows ← eagerRows rd fs sources
  let canon := canonicalToken token
  return (Table.firstMatch rows canon).bind (SourceRegistry.readLocated fs canon)

variable {rd : Readers} {fs : FileSystem}

theorem eagerRows_eq {sources : List SourceSpec} (h : ListsReturn rd fs sources) :
    eagerRows rd fs sources = .returned (fileRows rd fs sources) := by
  induction sources with
  | nil => rfl
  | cons s rest ih =>
      have ih' := ih fun s' hs' => h s' (by simp [hs'])
      rw [eagerRows]
      cases hl : s.isLocal with
      | false =>
          rw [if_neg (by simp), ih']
          simp [fileRows, hl]
      | true =>
          obtain ⟨files, hfiles⟩ := h s (by simp) hl
          rw [if_pos rfl, hfiles, ih']
          simp [fileRows, hl, listing_eq hfiles]

theorem eagerRows_panicked {sources : List SourceSpec} (h : ¬ ListsReturn rd fs sources) :
    eagerRows rd fs sources = .panicked := by
  induction sources with
  | nil => exact absurd (fun s hs => by cases hs) h
  | cons s rest ih =>
      rw [eagerRows]
      cases hl : s.isLocal with
      | false =>
          rw [if_neg (by simp)]
          refine ih fun hrest => h fun s' hs' hl' => ?_
          rcases List.mem_cons.mp hs' with rfl | hs'
          · rw [hl] at hl'
            cases hl'
          · exact hrest s' hs' hl'
      | true =>
          rw [if_pos rfl]
          cases hlist : s.list rd fs with
          | panicked => rfl
          | returned files =>
              have hpanic : eagerRows rd fs rest = .panicked := by
                refine ih fun hrest => h fun s' hs' hl' => ?_
                rcases List.mem_cons.mp hs' with rfl | hs'
                · exact ⟨files, hlist⟩
                · exact hrest s' hs' hl'
              rw [returned_bind, hpanic]
              rfl

/-- The located file is a file of an enabled local source of the list that answers to the token;
its origin tells the kind of the source and the text of the path, its data are those of the
file. -/
def FoundIn (rd : Readers) (fs : FileSystem) (sources : List SourceSpec) (token : String)
    (located : Located) : Prop :=
  ∃ s ∈ sources, s.isLocal = true ∧ ∃ ix : Indexed, s.Holds rd fs ix ∧
    canonicalToken token ∈ ix.aliases ∧ fs.mapFile ix.path = some located.data ∧
    located.origin =
      if s.kind = "glob" then .glob (toStringLossy ix.path) else .dir (toStringLossy ix.path)

theorem foundIn_of_eagerLocate (hfs : fs.Unchanged) {sources : List SourceSpec} {token : String}
    {located : Located} (h : eagerLocate rd fs sources token = .returned (some located)) :
    FoundIn rd fs sources token located := by
  obtain ⟨rows, hrows, h⟩ := bind_eq_returned.mp h
  have hlist : ListsReturn rd fs sources := by
    by_contra hpanic
    rw [eagerRows_panicked hpanic] at hrows
    cases hrows
  rw [eagerRows_eq hlist] at hrows
  cases hrows
  obtain ⟨entry, hentry, hread⟩ := Option.bind_eq_some_iff.mp (returned.inj h)
  obtain ⟨row, hrow, hmem, rfl⟩ := Table.exists_of_firstMatch hentry
  obtain ⟨s, hs, hix⟩ := List.mem_flatMap.mp hrow
  obtain ⟨hs, hlocal⟩ := List.mem_filter.mp hs
  obtain ⟨ix, hmemix, rfl⟩ := List.mem_map.mp hix
  obtain ⟨data, hdata, rfl⟩ := Option.map_eq_some_iff.mp hread
  have hholds := (mem_listing_iff (hlist s hs hlocal)).mp hmemix
  obtain ⟨data', -, hmap, -⟩ := hholds.2.exists_identity
  have heq : data = data' := Option.some.inj (hdata.symm.trans (hfs _ _ hmap))
  refine ⟨s, hs, hlocal, ix, hholds, hmem, heq ▸ hmap, ?_⟩
  by_cases hkind : s.kind = "glob"
  · simp [hkind]
  · simp [hkind]

namespace SourceRegistry

/-! ## Operations -/

/-- The operations of the registry. -/
inductive RegistryOp where
  | add (kind : String) (path url bucket : Option String) (enabled : Option Bool)
      (secret : Option String)
  | dropSource (sourceId : String)
  | restore (specs : List SourceSpec)
  | locate (token : String)

/-- The registry after an operation. -/
def step (rd : Readers) (fs : FileSystem) (reg : SourceRegistry) : RegistryOp → SourceRegistry
  | .add kind path url bucket enabled secret =>
      (reg.add kind path url bucket enabled secret).2
  | .dropSource sourceId => (reg.dropSource sourceId).2
  | .restore specs => reg.restore specs
  | .locate token => (reg.locate rd fs token).2

/-- The source ids are pairwise distinct. -/
def DistinctIds (reg : SourceRegistry) : Prop := (reg.sources.map SourceSpec.sourceId).Nodup

instance (reg : SourceRegistry) : Decidable reg.DistinctIds :=
  inferInstanceAs (Decidable (reg.sources.map SourceSpec.sourceId).Nodup)

/-- The ids are distinct; marked as indexed are registered sources only, the local ones of a
prefix of the list, which all were listed; and the index is theirs. -/
structure Distinct (rd : Readers) (fs : FileSystem) (reg : SourceRegistry) : Prop where
  ids : reg.DistinctIds
  marked : ∀ id ∈ reg.indexed, ∃ s ∈ reg.sources, s.sourceId = id
  synced : reg.Synced rd fs
  listed : ∀ s ∈ reg.sources, s.isLocal = true → s.sourceId ∈ reg.indexed →
    (s.list rd fs).Returns

variable {reg : SourceRegistry}

/-- A registry that has indexed nothing. -/
theorem Unindexed.distinct (h : reg.Unindexed) (hids : reg.DistinctIds) : reg.Distinct rd fs where
  ids := hids
  marked id hmem := by
    rw [h.2] at hmem
    exact absurd hmem (Finset.notMem_empty id)
  synced := h.synced
  listed s _ _ hmem := by
    rw [h.2] at hmem
    exact absurd hmem (Finset.notMem_empty _)

theorem distinct_new : new.Distinct rd fs := Unindexed.distinct ⟨rfl, rfl⟩ List.nodup_nil

/-- A source under a new id is not marked: only registered ids are. -/
theorem Distinct.append (h : reg.Distinct rd fs) {s : SourceSpec} {nextId : UInt64}
    (hids : ({ reg with sources := reg.sources ++ [s], nextId := nextId } :
      SourceRegistry).DistinctIds) :
    ({ reg with sources := reg.sources ++ [s], nextId := nextId } :
      SourceRegistry).Distinct rd fs := by
  have hfresh : s.sourceId ∉ reg.indexed := by
    intro hmem
    obtain ⟨s', hs', hid⟩ := h.marked _ hmem
    rw [DistinctIds, List.map_append, List.nodup_append] at hids
    exact hids.2.2 _ (List.mem_map.mpr ⟨s', hs', hid⟩) _ (by simp) rfl
  refine ⟨hids, fun id hmem => ?_, h.synced.append hfresh nextId, fun s' hs' hlocal hmem => ?_⟩
  · obtain ⟨s', hs', hid⟩ := h.marked id hmem
    exact ⟨s', List.mem_append_left _ hs', hid⟩
  · rcases List.mem_append.mp hs' with hs' | hs'
    · exact h.listed s' hs' hlocal hmem
    · rw [List.mem_singleton.mp hs'] at hmem
      exact absurd hmem hfresh

theorem distinct_ensureIndexed (h : reg.Distinct rd fs) :
    (reg.ensureIndexed rd fs).2.Distinct rd fs where
  ids := by
    rw [DistinctIds, sources_ensureIndexed]
    exact h.ids
  marked id hmem := by
    rw [sources_ensureIndexed]
    rcases mem_indexed_indexPending _ _ hmem with hmem | ⟨s, hs, -, hid⟩
    · exact h.marked id hmem
    · exact ⟨s, (isLocal_of_mem_pending hs).1, hid⟩
  synced := synced_ensureIndexed_of_nodup h.synced (h.ids.sublist (List.filter_sublist.map _))
  listed := listed_ensureIndexed h.ids h.listed

/-- The step lemma: as long as the ids stay distinct, so does the registry. -/
theorem distinct_step (h : reg.Distinct rd fs) {op : RegistryOp}
    (hids : (step rd fs reg op).DistinctIds) : (step rd fs reg op).Distinct rd fs := by
  cases op with
  | add kind path url bucket enabled secret =>
      rw [step] at hids ⊢
      rcases add_cases reg kind path url bucket enabled secret with heq | ⟨s, -, heq⟩
      · rw [heq]
        exact h
      · rw [heq] at hids ⊢
        exact h.append hids
  | dropSource sourceId =>
      rw [step] at hids ⊢
      rcases dropSource_cases reg sourceId with heq | heq
      · rw [heq]
        exact h
      · rw [heq] at hids ⊢
        exact Unindexed.distinct ⟨rfl, rfl⟩ hids
  | restore specs => exact Unindexed.distinct ⟨rfl, rfl⟩ hids
  | locate token =>
      rw [step, locate_snd]
      exact distinct_ensureIndexed h

/-- What the registry locates is what a scan from scratch would locate. -/
theorem Distinct.locate_fst (h : reg.Distinct rd fs) (token : String) :
    (reg.locate rd fs token).1 = eagerLocate rd fs reg.sources token := by
  by_cases hlist : ListsReturn rd fs reg.sources
  · rw [locate_eq h.synced (listsReturn_pending hlist), eagerLocate, eagerRows_eq hlist]
    rfl
  · -- A source that cannot be listed is still pending.
    rw [locate_panicked (fun hp => hlist (listsReturn_of_listed h.listed hp)), eagerLocate,
      eagerRows_panicked hlist]
    rfl

/-- **The lazy index equals the eager index.** After every run of the registry's operations that
keeps the source ids distinct, on files that do not change, `locate` gives what a scan of the
current sources from scratch gives, and what it finds is a file of one of them. -/
theorem locate_eq_eagerLocate (rd : Readers) (fs : FileSystem) (hfs : fs.Unchanged)
    (ops : List RegistryOp)
    (hids : Run.MeetsAlong (step rd fs) (fun reg op => (step rd fs reg op).DistinctIds) new ops)
    (token : String) :
    let reg := Run.run (step rd fs) new ops
    (reg.locate rd fs token).1 = eagerLocate rd fs reg.sources token ∧
      ∀ located, (reg.locate rd fs token).1 = .returned (some located) →
        FoundIn rd fs reg.sources token located := by
  intro reg
  have h : reg.Distinct rd fs :=
    Run.invariant_run (P := fun reg : SourceRegistry => reg.Distinct rd fs)
      (fun _ _ h hi => distinct_step h hi) distinct_new hids
  refine ⟨h.locate_fst token, fun located hlocated => ?_⟩
  rw [h.locate_fst token] at hlocated
  exact foundIn_of_eagerLocate hfs hlocated

/-- The directory is added, indexed, dropped, added again, and restored from a manifest. -/
theorem locate_eq_eagerLocate_sharedPrefix :
    let reg := Run.run (step StandIn.readers StandIn.sharedPrefix) new
      [.add "dir" (some "d") none none none none, .locate (StandIn.token 0x11),
        .dropSource "src0", .add "dir" (some "d") none none none none,
        .restore [StandIn.dirSource "src1" "d"], .locate (StandIn.rawToken 0xbb)]
    (reg.locate StandIn.readers StandIn.sharedPrefix (StandIn.rawToken 0xbb)).1
        = eagerLocate StandIn.readers StandIn.sharedPrefix reg.sources (StandIn.rawToken 0xbb) ∧
      ∀ located, (reg.locate StandIn.readers StandIn.sharedPrefix (StandIn.rawToken 0xbb)).1
          = .returned (some located) →
        FoundIn StandIn.readers StandIn.sharedPrefix reg.sources (StandIn.rawToken 0xbb) located :=
  locate_eq_eagerLocate StandIn.readers StandIn.sharedPrefix (StandIn.directory_unchanged _ _) _
    (by decide +kernel) (StandIn.rawToken 0xbb)

end SourceRegistry

end VgiSymbols
