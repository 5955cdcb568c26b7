import VgiSymbols.Source.Unique

set_option autoImplicit false

/-! # The registry without ids

What a lookup sees of the registry: the enabled local sources in order, which of them are indexed,
and the index. Ids and all other sources are forgotten (`SourceRegistry.localIndex`). As long as
the ids are distinct, indexing and locating are operations of this abstraction
(`localIndex_ensureIndexed`, `localIndex_locate`), so nothing else can matter to them.
-/

namespace VgiSymbols

open Unwind

/-- What indexing looks at in a source. -/
def SourceSpec.anonymous (s : SourceSpec) : SourceSpec :=
  { s with sourceId := "", url := none, bucket := none, egress := false, secret := none }

/-- The enabled local sources, each with whether it is indexed, and the index. -/
structure LocalIndex where
  sources : List (SourceSpec × Bool)
  index : Table String (PathBuf × Bool)

namespace LocalIndex

/-- Index the sources that are not indexed yet, in order, up to the first whose listing unwinds. -/
def indexSources (rd : Readers) (fs : FileSystem) :
    List (SourceSpec × Bool) → Table String (PathBuf × Bool) → Unwind Unit × LocalIndex
  | [], index => (.returned (), ⟨[], index⟩)
  | (s, true) :: rest, index =>
      let (out, l) := indexSources rd fs rest index
      (out, ⟨(s, true) :: l.sources, l.index⟩)
  | (s, false) :: rest, index =>
      match s.list rd fs with
      | .panicked => (.panicked, ⟨(s, false) :: rest, index⟩)
      | .returned files =>
          let (out, l) :=
            indexSources rd fs rest (index.orInsertAll (SourceRegistry.indexRows s files))
          (out, ⟨(s, true) :: l.sources, l.index⟩)

def ensureIndexed (rd : Readers) (fs : FileSystem) (l : LocalIndex) : Unwind Unit × LocalIndex :=
  indexSources rd fs l.sources l.index

/-- Locate a debug file for a token. -/
def locate (rd : Readers) (fs : FileSystem) (l : LocalIndex) (token : String) :
    Unwind (Option Located) × LocalIndex :=
  match l.ensureIndexed rd fs with
  | (.panicked, l) => (.panicked, l)
  | (.returned (), l) =>
      let canon := canonicalToken token
      (.returned ((l.index.lookup canon).bind (SourceRegistry.readLocated fs canon)), l)

end LocalIndex

namespace SourceRegistry

variable {rd : Readers} {fs : FileSystem}

/-- The sources with whether they are marked as indexed. -/
def marks (indexed : Finset String) (sources : List SourceSpec) : List (SourceSpec × Bool) :=
  sources.map fun s => (s.anonymous, decide (s.sourceId ∈ indexed))

theorem marks_cons_of_mem {indexed : Finset String} {s : SourceSpec} (h : s.sourceId ∈ indexed)
    (sources : List SourceSpec) :
    marks indexed (s :: sources) = (s.anonymous, true) :: marks indexed sources := by
  rw [marks, List.map_cons, decide_eq_true h]
  rfl

theorem marks_cons_of_notMem {indexed : Finset String} {s : SourceSpec}
    (h : s.sourceId ∉ indexed) (sources : List SourceSpec) :
    marks indexed (s :: sources) = (s.anonymous, false) :: marks indexed sources := by
  rw [marks, List.map_cons, decide_eq_false h]
  rfl

/-- The abstraction. -/
def localIndex (reg : SourceRegistry) : LocalIndex where
  sources := marks reg.indexed (reg.sources.filter SourceSpec.isLocal)
  index := reg.index

/-! ## Indexing -/

theorem indexed_subset_indexPending (rd : Readers) (fs : FileSystem) (l : List SourceSpec)
    (reg : SourceRegistry) :
    reg.indexed ⊆ (indexPending rd fs l reg).2.indexed := by
  induction l generalizing reg with
  | nil => exact Finset.Subset.refl _
  | cons s l ih =>
      rw [indexPending]
      split
      · exact Finset.Subset.refl _
      · exact fun id hid => ih _ (Finset.mem_insert_of_mem hid)

/-- Of sources with distinct ids those that are pending are indexed, whatever else there is. -/
theorem indexSources_marks (rd : Readers) (fs : FileSystem) {sources : List SourceSpec}
    (hids : IdsDistinct sources) (reg : SourceRegistry) :
    LocalIndex.indexSources rd fs (marks reg.indexed sources) reg.index =
      let pending := sources.filter fun s => decide (s.sourceId ∉ reg.indexed)
      ((indexPending rd fs pending reg).1,
        ⟨marks (indexPending rd fs pending reg).2.indexed sources,
          (indexPending rd fs pending reg).2.index⟩) := by
  induction sources generalizing reg with
  | nil => rfl
  | cons s sources ih =>
      obtain ⟨hs, hids⟩ := List.nodup_cons.mp hids
      simp only at ih ⊢
      by_cases hmem : s.sourceId ∈ reg.indexed
      · -- the source is marked, and stays so
        have hstays := indexed_subset_indexPending rd fs
          (sources.filter fun s => decide (s.sourceId ∉ reg.indexed)) reg hmem
        rw [List.filter_cons_of_neg (by simp [hmem]), marks_cons_of_mem hmem,
          marks_cons_of_mem hstays, LocalIndex.indexSources, ih hids]
      · rw [marks_cons_of_notMem hmem, LocalIndex.indexSources,
          List.filter_cons_of_pos (by simp [hmem]), indexPending]
        show (match s.list rd fs with
          | .panicked => _
          | .returned files => _) = _
        cases s.list rd fs with
        | panicked => simp only [marks_cons_of_notMem hmem]
        | returned files =>
            -- the marks of the other sources do not depend on that of this one
            let reg₁ : SourceRegistry :=
              { reg with
                index := reg.index.orInsertAll (indexRows s files)
                indexed := insert s.sourceId reg.indexed }
            have hother : ∀ s' ∈ sources,
                (s'.sourceId ∈ reg.indexed ↔ s'.sourceId ∈ reg₁.indexed) := by
              intro s' hs'
              have hne : s'.sourceId ≠ s.sourceId := fun h =>
                hs (h ▸ List.mem_map.mpr ⟨s', hs', rfl⟩)
              simp [reg₁, hne]
            have hmarks : marks reg.indexed sources = marks reg₁.indexed sources :=
              List.map_congr_left fun s' hs' => by rw [decide_eq_decide.mpr (hother s' hs')]
            have hpending : (sources.filter fun s' => decide (s'.sourceId ∉ reg.indexed))
                = sources.filter fun s' => decide (s'.sourceId ∉ reg₁.indexed) :=
              List.filter_congr fun s' hs' =>
                decide_eq_decide.mpr (not_congr (hother s' hs'))
            have hstays := indexed_subset_indexPending rd fs
              (sources.filter fun s' => decide (s'.sourceId ∉ reg₁.indexed)) reg₁
              (Finset.mem_insert_self _ _)
            have hrest := ih hids reg₁
            rw [hmarks, hpending]
            simp only
            rw [marks_cons_of_mem hstays]
            show ((LocalIndex.indexSources rd fs (marks reg₁.indexed sources) reg₁.index).1,
              LocalIndex.mk ((s.anonymous, true) ::
                (LocalIndex.indexSources rd fs (marks reg₁.indexed sources) reg₁.index).2.sources)
                (LocalIndex.indexSources rd fs (marks reg₁.indexed sources) reg₁.index).2.index)
              = _
            rw [hrest]

/-- **Indexing is an operation of the abstraction.** -/
theorem localIndex_ensureIndexed {reg : SourceRegistry} (hids : IdsDistinct reg.sources) :
    reg.localIndex.ensureIndexed rd fs =
      ((reg.ensureIndexed rd fs).1, (reg.ensureIndexed rd fs).2.localIndex) := by
  have hlocal : IdsDistinct (reg.sources.filter SourceSpec.isLocal) :=
    List.Nodup.sublist (List.filter_sublist.map _) hids
  have hpending : (reg.sources.filter SourceSpec.isLocal).filter
      (fun s => decide (s.sourceId ∉ reg.indexed)) = reg.pending := by
    rw [List.filter_filter, pending]
    exact List.filter_congr fun s _ => Bool.and_comm _ _
  have h := indexSources_marks rd fs hlocal reg
  simp only [hpending] at h
  rw [LocalIndex.ensureIndexed, localIndex, h, localIndex, sources_ensureIndexed]
  rfl

/-- **Locating is an operation of the abstraction.** -/
theorem localIndex_locate {reg : SourceRegistry} (hids : IdsDistinct reg.sources)
    (token : String) :
    reg.localIndex.locate rd fs token =
      ((reg.locate rd fs token).1, (reg.locate rd fs token).2.localIndex) := by
  rw [LocalIndex.locate, localIndex_ensureIndexed hids, locate]
  rcases reg.ensureIndexed rd fs with ⟨_ | _, reg'⟩ <;> rfl

/-! ## Adding sources -/

/-- The next id is not marked. -/
theorem Unique.notMem_indexed {reg : SourceRegistry} (h : reg.Unique) :
    numberedId reg.nextId.toNat ∉ reg.indexed := by
  intro hmem
  obtain ⟨s, hs, hid⟩ := h.marked _ hmem
  exact h.below.newId hs hid

/-- Two registries add the same source, up to its id, or nothing. -/
theorem add_anonymous (reg reg' : SourceRegistry) (kind : String)
    (path url bucket : Option String) (enabled : Option Bool) (secret : Option String) :
    ((reg.add kind path url bucket enabled secret).2 = reg ∧
      (reg'.add kind path url bucket enabled secret).2 = reg') ∨
      ∃ s s' : SourceSpec, s.sourceId = numberedId reg.nextId.toNat ∧
        s'.sourceId = numberedId reg'.nextId.toNat ∧ s.anonymous = s'.anonymous ∧
        (reg.add kind path url bucket enabled secret).2
          = { reg with sources := reg.sources ++ [s], nextId := reg.nextId + 1 } ∧
        (reg'.add kind path url bucket enabled secret).2
          = { reg' with sources := reg'.sources ++ [s'], nextId := reg'.nextId + 1 } := by
  unfold add
  simp only
  -- whether a locator is missing does not depend on the registry
  split
  · exact Or.inl ⟨rfl, rfl⟩
  · refine Or.inr ⟨_, _, rfl, rfl, ?_, rfl, rfl⟩
    rfl

/-- A source that is disabled, or neither a directory nor a glob, is not local. -/
theorem add_not_local (reg : SourceRegistry) {kind : String} (path url bucket : Option String)
    {enabled : Option Bool} (secret : Option String)
    (h : enabled = some false ∨
      (asciiLower (trim kind) ≠ "dir" ∧ asciiLower (trim kind) ≠ "glob")) :
    (reg.add kind path url bucket enabled secret).2 = reg ∨
      ∃ s : SourceSpec, s.isLocal = false ∧
        (reg.add kind path url bucket enabled secret).2
          = { reg with sources := reg.sources ++ [s], nextId := reg.nextId + 1 } := by
  unfold add
  simp only
  split
  · exact Or.inl rfl
  · refine Or.inr ⟨_, ?_, rfl⟩
    rcases h with rfl | ⟨hdir, hglob⟩
    · rfl
    · simp [SourceSpec.isLocal, hdir, hglob]

/-- A source that is not local is not seen. -/
theorem localIndex_append_of_not_local (reg : SourceRegistry) {s : SourceSpec}
    (hs : s.isLocal = false) (nextId : UInt64) :
    ({ reg with sources := reg.sources ++ [s], nextId := nextId } : SourceRegistry).localIndex
      = reg.localIndex := by
  rw [localIndex, localIndex, List.filter_append, List.filter_cons_of_neg (by simp [hs]),
    List.filter_nil, List.append_nil]

/-- A new local source is seen, as not indexed. -/
theorem localIndex_append_of_local {reg : SourceRegistry} {s : SourceSpec}
    (hs : s.isLocal = true) (hfresh : s.sourceId ∉ reg.indexed) (nextId : UInt64) :
    ({ reg with sources := reg.sources ++ [s], nextId := nextId } : SourceRegistry).localIndex
      = { reg.localIndex with
          sources := reg.localIndex.sources ++ [(s.anonymous, false)] } := by
  rw [localIndex, localIndex, List.filter_append, List.filter_cons_of_pos hs, List.filter_nil,
    marks, List.map_append, List.map_singleton, decide_eq_false hfresh]
  rfl

/-- **Adding a source is an operation of the abstraction.** -/
theorem localIndex_add {reg reg' : SourceRegistry} (h : reg.localIndex = reg'.localIndex)
    (hunique : reg.Unique) (hunique' : reg'.Unique) (kind : String)
    (path url bucket : Option String) (enabled : Option Bool) (secret : Option String) :
    (reg.add kind path url bucket enabled secret).2.localIndex
      = (reg'.add kind path url bucket enabled secret).2.localIndex := by
  have hadd := add_anonymous reg reg' kind path url bucket enabled secret
  rcases hadd with ⟨heq, heq'⟩ | ⟨s, s', hid, hid', hsame, heq, heq'⟩
  · rw [heq, heq', h]
  rw [heq, heq']
  have hkind : s.anonymous.isLocal = s'.anonymous.isLocal := by rw [hsame]
  by_cases hs : s.isLocal = true
  · have hs' : s'.isLocal = true := hkind ▸ hs
    have hfresh : s.sourceId ∉ reg.indexed := by
      rw [hid]
      exact hunique.notMem_indexed
    have hfresh' : s'.sourceId ∉ reg'.indexed := by
      rw [hid']
      exact hunique'.notMem_indexed
    rw [localIndex_append_of_local hs hfresh, localIndex_append_of_local hs' hfresh', h, hsame]
  · have hs : s.isLocal = false := Bool.eq_false_of_not_eq_true hs
    have hs' : s'.isLocal = false := hkind ▸ hs
    rw [localIndex_append_of_not_local reg hs, localIndex_append_of_not_local reg' hs', h]

theorem localIndex_add_not_local (reg : SourceRegistry) {kind : String}
    (path url bucket : Option String) {enabled : Option Bool} (secret : Option String)
    (h : enabled = some false ∨
      (asciiLower (trim kind) ≠ "dir" ∧ asciiLower (trim kind) ≠ "glob")) :
    (reg.add kind path url bucket enabled secret).2.localIndex = reg.localIndex := by
  rcases add_not_local reg path url bucket secret h with heq | ⟨s, hs, heq⟩
  · rw [heq]
  · rw [heq, localIndex_append_of_not_local reg hs]

theorem nextId_add_le (reg : SourceRegistry) (kind : String) (path url bucket : Option String)
    (enabled : Option Bool) (secret : Option String) :
    (reg.add kind path url bucket enabled secret).2.nextId.toNat ≤ reg.nextId.toNat + 1 := by
  rcases add_cases reg kind path url bucket enabled secret with heq | ⟨s, -, heq⟩
  · rw [heq]
    exact Nat.le_succ _
  · rw [heq]
    calc (reg.nextId + 1).toNat = (reg.nextId.toNat + 1) % 2 ^ 64 := UInt64.toNat_add _ _
      _ ≤ reg.nextId.toNat + 1 := Nat.mod_le _ _

end SourceRegistry

end VgiSymbols
