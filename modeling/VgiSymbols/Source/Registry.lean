import VgiSymbols.Source.Listing

set_option autoImplicit false

/-! # What the registry locates

The registry invariant `Synced` says that the index is the first-match index of a prefix of the
source list, the sources that are marked as indexed. From it `locate_eq` reads off the answer
of the registry: the first listed file, in source order, that answers to the token (`fileFor`).
-/

namespace VgiSymbols

open Unwind

variable {rd : Readers} {fs : FileSystem}

/-! ## The files of a source list -/

/-- The files a source lists; none when listing unwinds. -/
def listing (rd : Readers) (fs : FileSystem) (s : SourceSpec) : List Indexed :=
  (s.list rd fs).catchUnwind.getD []

/-- The index rows of the enabled local sources, in source order and listing order. -/
def fileRows (rd : Readers) (fs : FileSystem) (sources : List SourceSpec) :
    List (List String × (PathBuf × Bool)) :=
  (sources.filter SourceSpec.isLocal).flatMap fun s =>
    SourceRegistry.indexRows s (listing rd fs s)

theorem fileRows_subset {rd : Readers} {fs : FileSystem} {sources sources' : List SourceSpec}
    (h : sources ⊆ sources') : fileRows rd fs sources ⊆ fileRows rd fs sources' := by
  intro row hrow
  obtain ⟨s, hs, hrow⟩ := List.mem_flatMap.mp hrow
  obtain ⟨hs, hlocal⟩ := List.mem_filter.mp hs
  exact List.mem_flatMap.mpr ⟨s, List.mem_filter.mpr ⟨h hs, hlocal⟩, hrow⟩

/-- The first listed file that answers to the canonical token `k`. -/
def fileFor (rd : Readers) (fs : FileSystem) (sources : List SourceSpec) (k : String) :
    Option (PathBuf × Bool) :=
  Table.firstMatch (fileRows rd fs sources) k

/-- Listing the enabled local sources comes back: no file they list makes the probe panic. -/
def ListsReturn (rd : Readers) (fs : FileSystem) (sources : List SourceSpec) : Prop :=
  ∀ s ∈ sources, s.isLocal = true → (s.list rd fs).Returns

theorem listsReturn_of_total (hrd : rd.Total) (sources : List SourceSpec) :
    ListsReturn rd fs sources :=
  fun s _ _ => list_returns hrd s

theorem listing_eq {s : SourceSpec} {files : List Indexed}
    (h : s.list rd fs = .returned files) : listing rd fs s = files := by
  rw [listing, h]
  rfl

/-- A file of a source: visited by its walk, and a debug file. -/
def SourceSpec.Holds (rd : Readers) (fs : FileSystem) (s : SourceSpec) (ix : Indexed) : Prop :=
  ix.path ∈ s.walk fs ∧ ix.Probed rd fs

theorem mem_listing_iff {s : SourceSpec} (h : (s.list rd fs).Returns) {ix : Indexed} :
    ix ∈ listing rd fs s ↔ s.Holds rd fs ix := by
  obtain ⟨files, hfiles⟩ := h
  rw [listing_eq hfiles]
  exact mem_list_iff hfiles

theorem probed_of_mem_listing {s : SourceSpec} {ix : Indexed} (h : ix ∈ listing rd fs s) :
    ix.Probed rd fs := by
  unfold listing at h
  cases hlist : s.list rd fs with
  | panicked =>
      rw [hlist] at h
      cases h
  | returned files =>
      rw [hlist] at h
      exact ((mem_list_iff hlist).mp h).2

/-- When listing comes back, no file is first for a token exactly when no source has a file that
answers to it. -/
theorem fileFor_eq_none_iff {sources : List SourceSpec} (h : ListsReturn rd fs sources)
    {k : String} :
    fileFor rd fs sources k = none ↔
      ∀ s ∈ sources, s.isLocal = true → ∀ ix, s.Holds rd fs ix → k ∉ ix.aliases := by
  rw [fileFor, Table.firstMatch_eq_none]
  constructor
  · intro hnone s hs hlocal ix hix
    refine hnone (ix.aliases, (ix.path, s.kind == "glob")) (List.mem_flatMap.mpr ⟨s, ?_, ?_⟩)
    · exact List.mem_filter.mpr ⟨hs, hlocal⟩
    · exact List.mem_map.mpr ⟨ix, (mem_listing_iff (h s hs hlocal)).mpr hix, rfl⟩
  · intro hall row hrow
    obtain ⟨s, hs, hmem⟩ := List.mem_flatMap.mp hrow
    obtain ⟨hs, hlocal⟩ := List.mem_filter.mp hs
    obtain ⟨ix, hix, rfl⟩ := List.mem_map.mp hmem
    exact hall s hs hlocal ix ((mem_listing_iff (h s hs hlocal)).mp hix)

theorem fileRows_append (l₁ l₂ : List SourceSpec) :
    fileRows rd fs (l₁ ++ l₂) = fileRows rd fs l₁ ++ fileRows rd fs l₂ := by
  simp [fileRows]

/-- A row of the index is a probed file under its own aliases. -/
theorem exists_of_mem_fileRows {sources : List SourceSpec}
    {row : List String × (PathBuf × Bool)} (h : row ∈ fileRows rd fs sources) :
    ∃ ix : Indexed, ix.Probed rd fs ∧ row.1 = ix.aliases ∧ row.2.1 = ix.path := by
  obtain ⟨s, -, hs⟩ := List.mem_flatMap.mp h
  obtain ⟨ix, hix, rfl⟩ := List.mem_map.mp hs
  exact ⟨ix, probed_of_mem_listing hix, rfl, rfl⟩

/-- What is known of an indexed file: it maps to data of some identity, whose aliases it is
listed under, and it has a name. -/
theorem exists_of_row {sources : List SourceSpec} {row : List String × (PathBuf × Bool)}
    (h : row ∈ fileRows rd fs sources) :
    ∃ data identity name, fs.mapFile row.2.1 = some data ∧
      probeIdentity rd data = .returned (.ok identity) ∧ row.1 = identity.aliases ∧
      fileName row.2.1 = some name := by
  obtain ⟨ix, hix, haliases, hpath⟩ := exists_of_mem_fileRows h
  obtain ⟨data, identity, hdata, hid, ha⟩ := hix.exists_identity
  obtain ⟨name, hname⟩ := fs.fileName_of_map ix.path data hdata
  refine ⟨data, identity, name, ?_, hid, haliases.trans ha, ?_⟩
  · rw [hpath]; exact hdata
  · rw [hpath]; exact hname

/-- A file is listed under the aliases of the identity its data probes to. -/
theorem aliases_of_row {sources : List SourceSpec} {row : List String × (PathBuf × Bool)}
    (h : row ∈ fileRows rd fs sources) {data : Bytes} {identity : Identity}
    (hdata : fs.mapFile row.2.1 = some data)
    (hid : probeIdentity rd data = .returned (.ok identity)) : row.1 = identity.aliases := by
  obtain ⟨data', identity', -, hdata', hid', ha, -⟩ := exists_of_row h
  have hdataEq : data' = data := Option.some.inj (hdata'.symm.trans hdata)
  rw [hdataEq, hid] at hid'
  cases hid'
  exact ha

/-- Rows of one path have the same aliases. -/
theorem aliases_eq_of_path_eq {sources : List SourceSpec}
    {row row' : List String × (PathBuf × Bool)} (h : row ∈ fileRows rd fs sources)
    (h' : row' ∈ fileRows rd fs sources) (hpath : row.2.1 = row'.2.1) : row.1 = row'.1 := by
  obtain ⟨data, identity, -, hdata, hid, ha, -⟩ := exists_of_row h
  rw [ha, aliases_of_row h' (hpath ▸ hdata) hid]

/-! ## The registry -/

namespace SourceRegistry

/-- The index is the first-match index of a prefix of the sources: the enabled local sources
of the prefix are marked as indexed, those behind it are not. -/
def Synced (rd : Readers) (fs : FileSystem) (reg : SourceRegistry) : Prop :=
  ∃ done todo, reg.sources = done ++ todo ∧
    (∀ s ∈ done, s.isLocal = true → s.sourceId ∈ reg.indexed) ∧
    (∀ s ∈ todo, s.isLocal = true → s.sourceId ∉ reg.indexed) ∧
    ∀ k, reg.index.lookup k = fileFor rd fs done k

/-- Nothing is indexed, as after a restore or a drop. -/
def Unindexed (reg : SourceRegistry) : Prop := reg.index = ∅ ∧ reg.indexed = ∅

theorem Unindexed.synced {reg : SourceRegistry} (h : reg.Unindexed) : reg.Synced rd fs := by
  refine ⟨[], reg.sources, rfl, fun s hs => (by cases hs), fun s _ _ => ?_, fun k => ?_⟩
  · rw [h.2]
    exact Finset.notMem_empty _
  · rw [h.1]
    rfl

theorem indexPending_eq (l : List SourceSpec) (reg : SourceRegistry)
    (h : ∀ s ∈ l, (s.list rd fs).Returns) :
    indexPending rd fs l reg = (.returned (), { reg with
      index := reg.index.orInsertAll (l.flatMap fun s => indexRows s (listing rd fs s))
      indexed := l.foldl (fun ids s => insert s.sourceId ids) reg.indexed }) := by
  induction l generalizing reg with
  | nil => rfl
  | cons s l ih =>
      obtain ⟨files, hfiles⟩ := h s (by simp)
      rw [indexPending, hfiles]
      simp only
      rw [ih _ fun s' hs' => h s' (by simp [hs'])]
      simp only [List.flatMap_cons, List.foldl_cons, listing_eq hfiles, Table.orInsertAll,
        List.foldl_append]

/-- Indexing a list and then another. -/
theorem indexPending_append (l l' : List SourceSpec) (reg : SourceRegistry) :
    indexPending rd fs (l ++ l') reg =
      match indexPending rd fs l reg with
      | (.panicked, reg) => (.panicked, reg)
      | (.returned (), reg) => indexPending rd fs l' reg := by
  induction l generalizing reg with
  | nil => rfl
  | cons s l ih =>
      rw [List.cons_append, indexPending, indexPending]
      cases s.list rd fs with
      | panicked => rfl
      | returned files => exact ih _

theorem sources_indexPending (l : List SourceSpec) (reg : SourceRegistry) :
    (indexPending rd fs l reg).2.sources = reg.sources := by
  induction l generalizing reg with
  | nil => rfl
  | cons s l ih =>
      rw [indexPending]
      split
      · rfl
      · exact ih _

theorem nextId_indexPending (l : List SourceSpec) (reg : SourceRegistry) :
    (indexPending rd fs l reg).2.nextId = reg.nextId := by
  induction l generalizing reg with
  | nil => rfl
  | cons s l ih =>
      rw [indexPending]
      split
      · rfl
      · exact ih _

/-- A source that was marked as indexed was listed. -/
theorem mem_indexed_indexPending {x : String} (l : List SourceSpec) (reg : SourceRegistry)
    (h : x ∈ (indexPending rd fs l reg).2.indexed) :
    x ∈ reg.indexed ∨ ∃ s ∈ l, (s.list rd fs).Returns ∧ s.sourceId = x := by
  induction l generalizing reg with
  | nil => exact Or.inl h
  | cons s l ih =>
      rw [indexPending] at h
      split at h
      · exact Or.inl h
      · next files hfiles =>
          rcases ih _ h with h | ⟨s', hs', h⟩
          · rcases Finset.mem_insert.mp h with h | h
            · exact Or.inr ⟨s, by simp, ⟨files, hfiles⟩, h.symm⟩
            · exact Or.inl h
          · exact Or.inr ⟨s', by simp [hs'], h⟩

theorem mem_foldl_insert {x : String} (l : List SourceSpec) (ids : Finset String) :
    x ∈ l.foldl (fun ids s => insert s.sourceId ids) ids ↔
      x ∈ ids ∨ ∃ s ∈ l, s.sourceId = x := by
  induction l generalizing ids with
  | nil => simp
  | cons s l ih =>
      rw [List.foldl_cons, ih, Finset.mem_insert]
      simp only [List.mem_cons, exists_eq_or_imp]
      tauto

/-- The ids that are marked after some sources were indexed. -/
theorem mem_indexed_done {done : List SourceSpec} {reg : SourceRegistry}
    (hdone : ∀ s ∈ done, (s.list rd fs).Returns)
    {id : String} :
    id ∈ (indexPending rd fs done reg).2.indexed ↔
      id ∈ reg.indexed ∨ ∃ s ∈ done, s.sourceId = id := by
  rw [indexPending_eq done reg hdone]
  exact mem_foldl_insert _ _

/-- The pending sources of a registry that has indexed a prefix of its sources. -/
theorem pending_eq {reg : SourceRegistry} {done todo : List SourceSpec}
    (hsources : reg.sources = done ++ todo)
    (hdone : ∀ s ∈ done, s.isLocal = true → s.sourceId ∈ reg.indexed)
    (htodo : ∀ s ∈ todo, s.isLocal = true → s.sourceId ∉ reg.indexed) :
    reg.pending = todo.filter SourceSpec.isLocal := by
  rw [pending, hsources, List.filter_append]
  -- Of the indexed prefix nothing is pending, behind it every enabled local source is.
  have h1 : done.filter (fun s => s.isLocal && decide (s.sourceId ∉ reg.indexed)) = [] := by
    rw [List.filter_eq_nil_iff]
    intro s hs hcon
    simp only [Bool.and_eq_true, decide_eq_true_eq] at hcon
    exact hcon.2 (hdone s hs hcon.1)
  have h2 : todo.filter (fun s => s.isLocal && decide (s.sourceId ∉ reg.indexed))
      = todo.filter SourceSpec.isLocal := by
    apply List.filter_congr
    intro s hs
    cases hl : s.isLocal
    · rfl
    · simp [htodo s hs hl]
  rw [h1, h2, List.nil_append]

/-- The sources that are pending after some of them were indexed: those whose id was not among
the ids of these. -/
theorem pending_indexPending {done : List SourceSpec} {reg : SourceRegistry}
    (hdone : ∀ s ∈ done, (s.list rd fs).Returns) :
    (indexPending rd fs done reg).2.pending
      = reg.pending.filter fun s => decide (∀ d ∈ done, s.sourceId ≠ d.sourceId) := by
  rw [SourceRegistry.pending, sources_indexPending, SourceRegistry.pending, List.filter_filter]
  apply List.filter_congr
  intro s _
  have hiff : s.sourceId ∉ (indexPending rd fs done reg).2.indexed ↔
      s.sourceId ∉ reg.indexed ∧ ∀ d ∈ done, s.sourceId ≠ d.sourceId := by
    rw [mem_indexed_done hdone, not_or]
    refine and_congr_right fun _ => ⟨fun h d hd hid => h ⟨d, hd, hid.symm⟩, ?_⟩
    rintro h ⟨d, hd, hid⟩
    exact h d hd hid.symm
  rw [decide_eq_decide.mpr hiff, Bool.decide_and]
  cases s.isLocal <;> simp [Bool.and_comm]

theorem mem_pending_iff {reg : SourceRegistry} {s : SourceSpec} :
    s ∈ reg.pending ↔ s ∈ reg.sources ∧ s.isLocal = true ∧ s.sourceId ∉ reg.indexed := by
  rw [pending, List.mem_filter, Bool.and_eq_true_iff, decide_eq_true_iff]

theorem isLocal_of_mem_pending {reg : SourceRegistry} {s : SourceSpec} (h : s ∈ reg.pending) :
    s ∈ reg.sources ∧ s.isLocal = true := by
  obtain ⟨hmem, hlocal, -⟩ := mem_pending_iff.mp h
  exact ⟨hmem, hlocal⟩

theorem listsReturn_pending {reg : SourceRegistry}
    (h : ListsReturn rd fs reg.sources) : ListsReturn rd fs reg.pending :=
  fun s hs hl => h s (isLocal_of_mem_pending hs).1 hl

theorem ensureIndexed_eq {reg : SourceRegistry} (h : ListsReturn rd fs reg.pending) :
    reg.ensureIndexed rd fs = (.returned (), { reg with
      index := reg.index.orInsertAll (reg.pending.flatMap fun s => indexRows s (listing rd fs s))
      indexed := reg.pending.foldl (fun ids s => insert s.sourceId ids) reg.indexed }) :=
  indexPending_eq _ _ fun s hs => h s hs (isLocal_of_mem_pending hs).2

/-- The ids that are marked once `ensureIndexed` has returned. -/
theorem mem_indexed_ensureIndexed {reg : SourceRegistry} (h : ListsReturn rd fs reg.pending)
    {id : String} :
    id ∈ (reg.ensureIndexed rd fs).2.indexed ↔
      id ∈ reg.indexed ∨ ∃ s ∈ reg.pending, s.sourceId = id :=
  mem_indexed_done fun s hs => h s hs (isLocal_of_mem_pending hs).2

/-- The sources that were listed before the first one whose listing unwinds. -/
theorem exists_interruption {pending : List SourceSpec}
    (h : ¬ ∀ s ∈ pending, (s.list rd fs).Returns) :
    ∃ done bad rest, pending = done ++ bad :: rest ∧ (∀ s ∈ done, (s.list rd fs).Returns) ∧
      ¬ (bad.list rd fs).Returns := by
  have hsome : (pending.find? fun s => decide (¬ (s.list rd fs).Returns)).isSome := by
    rw [List.find?_isSome]
    simp only [not_forall] at h
    obtain ⟨s, hs, hbad⟩ := h
    exact ⟨s, hs, decide_eq_true hbad⟩
  obtain ⟨bad, hfind⟩ := Option.isSome_iff_exists.mp hsome
  obtain ⟨hbad, done, rest, hpending, hdone⟩ := List.find?_eq_some_iff_append.mp hfind
  refine ⟨done, bad, rest, hpending, fun s hs => ?_, of_decide_eq_true hbad⟩
  have hgood := hdone s hs
  simpa using hgood

/-- **An interruption leaves the sources before it indexed.** -/
theorem ensureIndexed_interrupted {reg : SourceRegistry} {done rest : List SourceSpec}
    {bad : SourceSpec} (hpending : reg.pending = done ++ bad :: rest)
    (hdone : ∀ s ∈ done, (s.list rd fs).Returns) (hbad : ¬ (bad.list rd fs).Returns) :
    reg.ensureIndexed rd fs = (.panicked, (indexPending rd fs done reg).2) := by
  have hpanicked : bad.list rd fs = .panicked := by
    by_contra hne
    exact hbad (returns_iff_ne_panicked.mpr hne)
  rw [ensureIndexed, hpending, indexPending_append, indexPending_eq done reg hdone]
  simp only
  rw [indexPending, hpanicked]

theorem ensureIndexed_panicked {reg : SourceRegistry} (h : ¬ ListsReturn rd fs reg.pending) :
    (reg.ensureIndexed rd fs).1 = .panicked := by
  obtain ⟨done, bad, rest, hpending, hdone, hbad⟩ :=
    exists_interruption fun hall => h fun s hs _ => hall s hs
  rw [ensureIndexed_interrupted hpending hdone hbad]

theorem sources_ensureIndexed (reg : SourceRegistry) :
    (reg.ensureIndexed rd fs).2.sources = reg.sources :=
  sources_indexPending _ _

theorem nextId_ensureIndexed (reg : SourceRegistry) :
    (reg.ensureIndexed rd fs).2.nextId = reg.nextId :=
  nextId_indexPending _ _

/-- What is in the index after `ensureIndexed` has returned: what was there before, and otherwise
the first file of the pending sources. -/
theorem lookup_ensureIndexed_of_returns {reg : SourceRegistry}
    (h : ListsReturn rd fs reg.pending) (k : String) :
    (reg.ensureIndexed rd fs).2.index.lookup k
      = (reg.index.lookup k).or (fileFor rd fs reg.pending k) := by
  have hlocal : reg.pending.filter SourceSpec.isLocal = reg.pending :=
    List.filter_eq_self.mpr fun s hs => (isLocal_of_mem_pending hs).2
  rw [ensureIndexed_eq h, fileFor, fileRows, hlocal]
  exact Table.lookup_orInsertAll _ _ _

/-- The index and the pending sources of a synced registry have the first file of its sources. -/
theorem Synced.lookup_or {reg : SourceRegistry} (hsync : reg.Synced rd fs) (k : String) :
    (reg.index.lookup k).or (fileFor rd fs reg.pending k) = fileFor rd fs reg.sources k := by
  obtain ⟨done, todo, hsources, hdone, htodo, hindex⟩ := hsync
  have htodo' : fileRows rd fs (todo.filter SourceSpec.isLocal) = fileRows rd fs todo := by
    simp only [fileRows, List.filter_filter, Bool.and_self]
  rw [hindex, pending_eq hsources hdone htodo, hsources, fileFor, fileFor, fileFor, htodo',
    fileRows_append, Table.firstMatch_append]

/-- **The lazy index is the eager index** once `ensureIndexed` has returned. -/
theorem lookup_ensureIndexed {reg : SourceRegistry} (hsync : reg.Synced rd fs)
    (h : ListsReturn rd fs reg.pending) (k : String) :
    (reg.ensureIndexed rd fs).2.index.lookup k = fileFor rd fs reg.sources k := by
  rw [lookup_ensureIndexed_of_returns h, hsync.lookup_or]

theorem synced_ensureIndexed {reg : SourceRegistry} (hsync : reg.Synced rd fs)
    (h : ListsReturn rd fs reg.pending) : (reg.ensureIndexed rd fs).2.Synced rd fs := by
  refine ⟨reg.sources, [], ?_, fun s hs hl => ?_, fun s hs => (by cases hs),
    lookup_ensureIndexed hsync h⟩
  · rw [sources_ensureIndexed, List.append_nil]
  · rw [mem_indexed_ensureIndexed h]
    by_cases hid : s.sourceId ∈ reg.indexed
    · exact Or.inl hid
    · exact Or.inr ⟨s, mem_pending_iff.mpr ⟨hs, hl, hid⟩, rfl⟩

/-- What `locate` answers when every pending source can be listed: the file that the index or
the pending sources have, read. -/
theorem locate_of_returns {reg : SourceRegistry} (h : ListsReturn rd fs reg.pending)
    (token : String) :
    reg.locate rd fs token =
      (.returned (((reg.index.lookup (canonicalToken token)).or
        (fileFor rd fs reg.pending (canonicalToken token))).bind
          (readLocated fs (canonicalToken token))), (reg.ensureIndexed rd fs).2) := by
  have hret : (reg.ensureIndexed rd fs).1 = .returned () := by
    rw [ensureIndexed_eq h]
  unfold locate
  cases hei : reg.ensureIndexed rd fs with
  | mk r reg' =>
      rw [hei] at hret
      cases hret
      have hl := lookup_ensureIndexed_of_returns h (canonicalToken token)
      rw [hei] at hl
      simp only
      rw [hl]

/-- **What `locate` answers.** The first listed file that answers to the token, read. -/
theorem locate_eq {reg : SourceRegistry} (hsync : reg.Synced rd fs)
    (h : ListsReturn rd fs reg.pending) (token : String) :
    reg.locate rd fs token =
      (.returned ((fileFor rd fs reg.sources (canonicalToken token)).bind
        (readLocated fs (canonicalToken token))), (reg.ensureIndexed rd fs).2) := by
  rw [locate_of_returns h, hsync.lookup_or]

/-- A located file is read at its path; the origin keeps the text of the path. -/
theorem path_readLocated {canon : String} {entry : PathBuf × Bool} {located : Located}
    (h : readLocated fs canon entry = some located) :
    fs.read entry.1 = some located.data ∧
      located.origin.path = some (toStringLossy entry.1) := by
  obtain ⟨data, hread, rfl⟩ := Option.map_eq_some_iff.mp h
  refine ⟨hread, ?_⟩
  show (if entry.2 then Origin.glob (toStringLossy entry.1)
    else Origin.dir (toStringLossy entry.1)).path = some (toStringLossy entry.1)
  split <;> rfl

/-- `locate` unwinds when the listing of a pending source does. -/
theorem locate_panicked {reg : SourceRegistry} (h : ¬ ListsReturn rd fs reg.pending)
    (token : String) :
    reg.locate rd fs token = (.panicked, (reg.ensureIndexed rd fs).2) := by
  have hpan := ensureIndexed_panicked h
  unfold locate
  cases hei : reg.ensureIndexed rd fs with
  | mk r reg' =>
      rw [hei] at hpan
      cases hpan
      rfl

theorem locate_snd (reg : SourceRegistry) (token : String) :
    (reg.locate rd fs token).2 = (reg.ensureIndexed rd fs).2 := by
  unfold locate
  cases reg.ensureIndexed rd fs with
  | mk r reg' => cases r <;> rfl

/-- What `locate` leaves behind, however it went. -/
theorem eq_ensureIndexed_of_locate {reg reg' : SourceRegistry} {token : String}
    {out : Unwind (Option Located)} (h : reg.locate rd fs token = (out, reg')) :
    reg' = (reg.ensureIndexed rd fs).2 := by
  rw [← locate_snd reg token, h]

/-- `locate` comes back exactly when the listing of every pending source does. -/
theorem locate_returns_iff {reg : SourceRegistry} {token : String} :
    (reg.locate rd fs token).1.Returns ↔ ListsReturn rd fs reg.pending := by
  constructor
  · intro h
    by_contra hlist
    rw [locate_panicked hlist] at h
    exact not_returns_panicked h
  · intro h
    rw [locate, ensureIndexed_eq h]
    exact returns_returned _

theorem listsReturn_of_locate {reg : SourceRegistry} {token : String} {o : Option Located}
    {reg' : SourceRegistry} (h : reg.locate rd fs token = (.returned o, reg')) :
    ListsReturn rd fs reg.pending :=
  locate_returns_iff.mp ⟨o, by rw [h]⟩

/-- What a lookup that came back located. -/
theorem bind_of_locate {reg : SourceRegistry} (hsync : reg.Synced rd fs) {token : String}
    {o : Option Located} {reg' : SourceRegistry}
    (h : reg.locate rd fs token = (.returned o, reg')) :
    (fileFor rd fs reg.sources (canonicalToken token)).bind
      (readLocated fs (canonicalToken token)) = o := by
  have hl := locate_eq hsync (listsReturn_of_locate h) token
  rw [h] at hl
  exact (Unwind.returned.inj (Prod.mk.inj hl).1).symm

/-- The file that the index has for the token, once every pending source is indexed. -/
def indexedFile (rd : Readers) (fs : FileSystem) (reg : SourceRegistry) (token : String) :
    Option PathBuf :=
  ((reg.ensureIndexed rd fs).2.index.lookup (canonicalToken token)).map Prod.fst

theorem indexedFile_of_returns {reg : SourceRegistry} (h : ListsReturn rd fs reg.pending)
    (token : String) :
    reg.indexedFile rd fs token = ((reg.index.lookup (canonicalToken token)).or
      (fileFor rd fs reg.pending (canonicalToken token))).map Prod.fst := by
  rw [indexedFile, lookup_ensureIndexed_of_returns h]

theorem indexedFile_eq {reg : SourceRegistry} (hsync : reg.Synced rd fs)
    (h : ListsReturn rd fs reg.pending) (token : String) :
    reg.indexedFile rd fs token
      = (fileFor rd fs reg.sources (canonicalToken token)).map Prod.fst := by
  rw [indexedFile_of_returns h, hsync.lookup_or]

/-- That file is the one that was located. -/
theorem indexedFile_of_locate {reg reg' : SourceRegistry} {token : String} {located : Located}
    (h : reg.locate rd fs token = (.returned (some located), reg')) :
    ∃ path, reg.indexedFile rd fs token = some path ∧ fs.read path = some located.data ∧
      located.name = (fileName path).getD (canonicalToken token) ∧
      located.origin.path = some (toStringLossy path) := by
  have hlist := listsReturn_of_locate h
  rw [locate_of_returns hlist, Prod.mk.injEq, Unwind.returned.injEq] at h
  obtain ⟨entry, hentry, hread⟩ := Option.bind_eq_some_iff.mp h.1
  obtain ⟨hdata, hpath⟩ := path_readLocated hread
  refine ⟨entry.1, ?_, hdata, ?_, hpath⟩
  · rw [indexedFile_of_returns hlist, hentry, Option.map_some]
  · obtain ⟨data, -, rfl⟩ := Option.map_eq_some_iff.mp hread
    rfl

/-! ## Interrupted indexing

When the local sources have distinct ids, an indexing run that unwinds leaves a registry that is
still synced, on a shorter prefix. -/

theorem synced_indexPending {done todo : List SourceSpec} {reg : SourceRegistry}
    (hids : ((todo.filter SourceSpec.isLocal).map SourceSpec.sourceId).Nodup)
    (hsources : reg.sources = done ++ todo)
    (hdone : ∀ s ∈ done, s.isLocal = true → s.sourceId ∈ reg.indexed)
    (htodo : ∀ s ∈ todo, s.isLocal = true → s.sourceId ∉ reg.indexed)
    (hindex : ∀ k, reg.index.lookup k = fileFor rd fs done k) :
    (indexPending rd fs (todo.filter SourceSpec.isLocal) reg).2.Synced rd fs := by
  induction todo generalizing done reg with
  | nil => exact ⟨done, [], hsources, hdone, fun s hs => (by cases hs), hindex⟩
  | cons s todo ih =>
      have hsources' : reg.sources = (done ++ [s]) ++ todo := by simpa using hsources
      cases hl : s.isLocal with
      | false =>
          -- Not an enabled local source: it is skipped and has no rows.
          rw [List.filter_cons_of_neg (by simp [hl])]
          rw [List.filter_cons_of_neg (by simp [hl])] at hids
          refine ih hids hsources' (fun s' hs' hl' => ?_) (fun s' hs' => htodo s' (by simp [hs']))
            fun k => ?_
          · rcases List.mem_append.mp hs' with hs' | hs'
            · exact hdone s' hs' hl'
            · rw [List.mem_singleton.mp hs', hl] at hl'
              cases hl'
          · have hnil : fileRows rd fs [s] = [] := by simp [fileRows, hl]
            rw [hindex, fileFor, fileFor, fileRows_append, hnil, List.append_nil]
      | true =>
          rw [List.filter_cons_of_pos hl, indexPending]
          rw [List.filter_cons_of_pos hl, List.map_cons, List.nodup_cons] at hids
          split
          · -- Its listing unwinds: `s` and what is behind it stay unindexed.
            exact ⟨done, s :: todo, hsources, hdone, htodo, hindex⟩
          · next files hfiles =>
              -- Its files are indexed and its id is marked, no id of the sources behind it.
              refine ih hids.2 hsources' (fun s' hs' hl' => ?_) (fun s' hs' hl' => ?_)
                fun k => ?_
              · rcases List.mem_append.mp hs' with hs' | hs'
                · exact Finset.mem_insert_of_mem (hdone s' hs' hl')
                · rw [List.mem_singleton.mp hs']
                  exact Finset.mem_insert_self _ _
              · refine fun hmem => (Finset.mem_insert.mp hmem).elim (fun heq => hids.1 ?_)
                  (htodo s' (by simp [hs']) hl')
                rw [← heq]
                exact List.mem_map.mpr ⟨s', List.mem_filter.mpr ⟨hs', hl'⟩, rfl⟩
              · have hrows : fileRows rd fs [s] = indexRows s files := by
                  simp [fileRows, hl, listing_eq hfiles]
                rw [Table.lookup_orInsertAll, hindex, fileFor, fileFor, fileRows_append, hrows,
                  Table.firstMatch_append]

theorem synced_ensureIndexed_of_nodup {reg : SourceRegistry} (hsync : reg.Synced rd fs)
    (hids : ((reg.sources.filter SourceSpec.isLocal).map SourceSpec.sourceId).Nodup) :
    (reg.ensureIndexed rd fs).2.Synced rd fs := by
  obtain ⟨done, todo, hsources, hdone, htodo, hindex⟩ := hsync
  rw [ensureIndexed, pending_eq hsources hdone htodo]
  refine synced_indexPending ?_ hsources hdone htodo hindex
  rw [hsources, List.filter_append, List.map_append] at hids
  exact (List.nodup_append.mp hids).2.1

end SourceRegistry

end VgiSymbols
