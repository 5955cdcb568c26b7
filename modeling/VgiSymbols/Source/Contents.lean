import VgiSymbols.Source.Ahead

set_option autoImplicit false

/-! # The contents of one file

A walk does not look into files. So if only the contents of the file `p` tell two file systems
apart (`SameBut`), a source visits the same paths in both and lists the same, but for `p`
(`listed_sameBut`). The registries that look at them have the same index off the names of `p`
(`AgreeOff`), and locate the same under every other token (`AgreeOff.locate`).
-/

namespace VgiSymbols

open Unwind

variable {rd : Readers} {fs fs' : FileSystem} {sources : List SourceSpec} {p : PathBuf}
  {K : Set String}

/-- The file systems differ in the contents of the file `p` at most. -/
structure FileSystem.SameBut (p : PathBuf) (fs fs' : FileSystem) : Prop where
  readDir : fs.readDir = fs'.readDir
  isFile : fs.isFile = fs'.isFile
  isDir : fs.isDir = fs'.isDir
  glob : fs.glob = fs'.glob
  mapFile : ∀ q, q ≠ p → fs.mapFile q = fs'.mapFile q
  read : ∀ q, q ≠ p → fs.read q = fs'.read q

/-- The probe of the file `p` comes back, and derives no alias outside of `K`. -/
def NamedIn (rd : Readers) (fs : FileSystem) (p : PathBuf) (K : Set String) : Prop :=
  ∃ o, aliasesOf rd fs p = .returned o ∧ ∀ ix ∈ o, ∀ k ∈ ix.aliases, k ∈ K

/-! ## The walk -/

theorem walkDirLoop_sameBut (h : fs.SameBut p fs') (maxFiles fuel : Nat) (stack : List PathBuf)
    (visited : Nat) (paths : List PathBuf) :
    walkDirLoop fs maxFiles fuel stack visited paths
      = walkDirLoop fs' maxFiles fuel stack visited paths := by
  induction fuel generalizing stack visited paths with
  | zero => rfl
  | succ fuel ih =>
      cases stack with
      | nil => rfl
      | cons dir stack => simp only [walkDirLoop, h.readDir, h.isFile, ih]

theorem walkMatches_sameBut (h : fs.SameBut p fs') (maxFiles : Nat) (entries : List PathBuf)
    (visited : Nat) (paths : List PathBuf) :
    walkMatches fs maxFiles entries visited paths
      = walkMatches fs' maxFiles entries visited paths := by
  induction entries generalizing visited paths with
  | nil => rfl
  | cons entry rest ih => simp only [walkMatches, h.isDir, ih]

theorem walkPatterns_sameBut (h : fs.SameBut p fs') (maxFiles : Nat) (patterns : List String)
    (visited : Nat) (paths : List PathBuf) :
    walkPatterns fs maxFiles patterns visited paths
      = walkPatterns fs' maxFiles patterns visited paths := by
  induction patterns generalizing visited paths with
  | nil => rfl
  | cons pattern rest ih => simp only [walkPatterns, h.glob, walkMatches_sameBut h, ih]

/-- The walk does not look into files. -/
theorem walk_sameBut (h : fs.SameBut p fs') (s : SourceSpec) : s.walk fs = s.walk fs' := by
  have hdir : ∀ root, walkDirLoop fs maxIndexFiles (fs.dirs root) [root] 0 []
      = walkDirLoop fs' maxIndexFiles (fs'.dirs root) [root] 0 [] := by
    intro root
    -- both bounds on the number of directories are enough
    calc walkDirLoop fs maxIndexFiles (fs.dirs root) [root] 0 []
        = walkDirLoop fs maxIndexFiles (fs.dirs root + fs'.dirs root) [root] 0 [] :=
          (walkDirLoop_fuel _ _ _ _ _ _ (by simp)).symm
      _ = walkDirLoop fs' maxIndexFiles (fs'.dirs root + fs.dirs root) [root] 0 [] := by
          rw [walkDirLoop_sameBut h, Nat.add_comm]
      _ = walkDirLoop fs' maxIndexFiles (fs'.dirs root) [root] 0 [] :=
          walkDirLoop_fuel _ _ _ _ _ _ (by simp)
  simp only [SourceSpec.walk, hdir, walkPatterns_sameBut h]

theorem aliasesOf_sameBut (h : fs.SameBut p fs') {q : PathBuf} (hq : q ≠ p) :
    aliasesOf rd fs q = aliasesOf rd fs' q := by
  unfold aliasesOf
  rw [h.mapFile q hq]

/-! ## Listings -/

/-- The files of a listing other than `p` are those of the walk other than `p`. -/
theorem filter_listed {s : SourceSpec} {files : List Indexed}
    (h : s.list rd fs = .returned files) (p : PathBuf) :
    (files.filter fun ix => ix.path ≠ p)
      = ((s.walk fs).filter fun path => path ≠ p).filterMap fun path =>
          (aliasesOf rd fs path).catchUnwind.join := by
  have hreturns := returns_list_iff.mp ⟨files, h⟩
  rw [list_eq_collect, collect_eq_filterMap hreturns] at h
  obtain rfl := returned.inj h
  rw [List.filter_filterMap, List.filterMap_filter]
  apply List.filterMap_congr
  intro path hpath
  obtain ⟨o, ho⟩ := hreturns path hpath
  rw [ho]
  cases o with
  | none => simp
  | some ix =>
      have hix : ix.path = path := path_of_aliasesOf ho
      by_cases hp : path = p
      · simp [Option.filter, hix, hp]
      · simp [Option.filter, hix, hp]

theorem NamedIn.returns (h : NamedIn rd fs p K) : (aliasesOf rd fs p).Returns :=
  let ⟨o, ho, _⟩ := h
  ⟨o, ho⟩

/-- So in both file systems a listing comes back or in neither, and the files listed are the same,
but for `p`. -/
theorem listed_sameBut (h : fs.SameBut p fs') (hp : (aliasesOf rd fs p).Returns)
    (hp' : (aliasesOf rd fs' p).Returns) (s : SourceSpec) :
    s.list rd fs = .panicked ∧ s.list rd fs' = .panicked ∨
      ∃ files files', s.list rd fs = .returned files ∧ s.list rd fs' = .returned files' ∧
        (files.filter fun ix => ix.path ≠ p) = files'.filter fun ix => ix.path ≠ p := by
  have hiff : (s.list rd fs).Returns ↔ (s.list rd fs').Returns := by
    rw [returns_list_iff, returns_list_iff, walk_sameBut h]
    refine forall₂_congr fun path _ => ?_
    by_cases hpath : path = p
    · rw [hpath]
      exact iff_of_true hp hp'
    · rw [aliasesOf_sameBut h hpath]
  cases hl : s.list rd fs with
  | panicked =>
      have hno : ¬ (s.list rd fs').Returns := fun h' => by
        have hret := hiff.mpr h'
        rw [hl] at hret
        exact not_returns_panicked hret
      exact Or.inl ⟨rfl, not_not.mp fun hne => hno (returns_iff_ne_panicked.mpr hne)⟩
  | returned files =>
      obtain ⟨files', hl'⟩ := hiff.mp ⟨files, hl⟩
      refine Or.inr ⟨files, files', rfl, hl', ?_⟩
      rw [filter_listed hl, filter_listed hl', walk_sameBut h]
      refine List.filterMap_congr fun path hpath => ?_
      rw [aliasesOf_sameBut h (of_decide_eq_true (List.mem_filter.mp hpath).2)]

/-- Off the names of `p`, the rows of a listing are those of its other files. -/
theorem firstMatch_others {s : SourceSpec} {files : List Indexed} (hp : NamedIn rd fs p K)
    (h : s.list rd fs = .returned files) {k : String} (hk : k ∉ K) :
    Table.firstMatch (SourceRegistry.indexRows s files) k
      = Table.firstMatch (SourceRegistry.indexRows s (files.filter fun ix => ix.path ≠ p)) k := by
  have hrows : SourceRegistry.indexRows s (files.filter fun ix => ix.path ≠ p)
      = (SourceRegistry.indexRows s files).filter fun row => row.2.1 ≠ p := by
    rw [SourceRegistry.indexRows, SourceRegistry.indexRows, List.filter_map]
    rfl
  rw [hrows]
  refine (Table.firstMatch_filter_of_notMem fun row hrow hpath => ?_).symm
  obtain ⟨ix, hix, rfl⟩ := List.mem_map.mp hrow
  obtain ⟨o, ho, hnames⟩ := hp
  have hprobed := ((mem_list_iff h).mp hix).2
  have hpath : ix.path = p := by simpa using hpath
  intro hmem
  rw [Indexed.Probed, hpath, ho, returned.injEq] at hprobed
  exact hk (hnames ix hprobed k hmem)

namespace SourceRegistry

/-- The registries have the same sources, and the same index off `K`, where `p` is not in it. -/
structure AgreeOff (p : PathBuf) (K : Set String) (reg reg' : SourceRegistry) : Prop where
  sources : reg.sources = reg'.sources
  nextId : reg.nextId = reg'.nextId
  indexed : reg.indexed = reg'.indexed
  index : ∀ k, k ∉ K → reg.index.lookup k = reg'.index.lookup k
  others : ∀ k, k ∉ K → ∀ entry ∈ reg.index.lookup k, entry.1 ≠ p

variable {reg reg' : SourceRegistry}

/-- A registry that indexed nothing. -/
theorem agreeOff_of_empty (h : reg.index = ∅) : reg.AgreeOff p K reg := by
  refine ⟨rfl, rfl, rfl, fun _ _ => rfl, fun k _ entry hentry => ?_⟩
  rw [h] at hentry
  cases hentry

namespace AgreeOff

/-- One source is indexed. -/
theorem orInsertAll (h : reg.AgreeOff p K reg') {s : SourceSpec} {files files' : List Indexed}
    (hp : NamedIn rd fs p K) (hp' : NamedIn rd fs' p K) (hl : s.list rd fs = .returned files)
    (hl' : s.list rd fs' = .returned files')
    (hfiles : (files.filter fun ix => ix.path ≠ p) = files'.filter fun ix => ix.path ≠ p) :
    AgreeOff p K
      { reg with
        index := reg.index.orInsertAll (indexRows s files)
        indexed := insert s.sourceId reg.indexed }
      { reg' with
        index := reg'.index.orInsertAll (indexRows s files')
        indexed := insert s.sourceId reg'.indexed } where
  sources := h.sources
  nextId := h.nextId
  indexed := by rw [h.indexed]
  index k hk := by
    rw [Table.lookup_orInsertAll, Table.lookup_orInsertAll, h.index k hk,
      firstMatch_others hp hl hk, firstMatch_others hp' hl' hk, hfiles]
  others k hk entry hentry := by
    rw [Option.mem_def, Table.lookup_orInsertAll, Option.or_eq_some_iff] at hentry
    rcases hentry with hentry | ⟨-, hentry⟩
    · exact h.others k hk entry hentry
    · rw [firstMatch_others hp hl hk] at hentry
      obtain ⟨row, hrow, -, rfl⟩ := Table.exists_of_firstMatch hentry
      obtain ⟨ix, hix, rfl⟩ := List.mem_map.mp hrow
      exact of_decide_eq_true (List.mem_filter.mp hix).2

section Locate

variable (h : reg.AgreeOff p K reg') (hfs : fs.SameBut p fs') (hp : NamedIn rd fs p K)
  (hp' : NamedIn rd fs' p K)
include h hfs hp hp'

theorem indexPending (l : List SourceSpec) :
    (SourceRegistry.indexPending rd fs l reg).1 = (SourceRegistry.indexPending rd fs' l reg').1 ∧
      (SourceRegistry.indexPending rd fs l reg).2.AgreeOff p K
        (SourceRegistry.indexPending rd fs' l reg').2 := by
  induction l generalizing reg reg' with
  | nil => exact ⟨rfl, h⟩
  | cons s l ih =>
      rw [SourceRegistry.indexPending, SourceRegistry.indexPending]
      rcases listed_sameBut hfs hp.returns hp'.returns s
        with ⟨hl, hl'⟩ | ⟨files, files', hl, hl', hfiles⟩
      · rw [hl, hl']
        exact ⟨rfl, h⟩
      · rw [hl, hl']
        exact ih (h.orInsertAll hp hp' hl hl' hfiles)

/-- **A token that is no name of `p` is located alike**, whatever `p` holds. -/
theorem locate {token : String} (hk : canonicalToken token ∉ K) :
    (reg.locate rd fs token).1 = (reg'.locate rd fs' token).1 ∧
      (reg.locate rd fs token).2.AgreeOff p K (reg'.locate rd fs' token).2 := by
  have hpending : reg.pending = reg'.pending := by
    rw [SourceRegistry.pending, SourceRegistry.pending, h.sources, h.indexed]
  obtain ⟨hout, hnext⟩ := h.indexPending hfs hp hp' reg.pending
  have hensure : reg.ensureIndexed rd fs = SourceRegistry.indexPending rd fs reg.pending reg := rfl
  have hensure' : reg'.ensureIndexed rd fs'
      = SourceRegistry.indexPending rd fs' reg.pending reg' := by rw [hpending]; rfl
  unfold SourceRegistry.locate
  rw [hensure, hensure']
  generalize SourceRegistry.indexPending rd fs reg.pending reg = r at hout hnext
  generalize SourceRegistry.indexPending rd fs' reg.pending reg' = r' at hout hnext
  obtain ⟨out, reg₁⟩ := r
  obtain ⟨out', reg₁'⟩ := r'
  obtain rfl : out = out' := hout
  cases out with
  | panicked => exact ⟨rfl, hnext⟩
  | returned u =>
      refine ⟨?_, hnext⟩
      simp only
      rw [← hnext.index _ hk]
      cases hl : reg₁.index.lookup (canonicalToken token) with
      | none => rfl
      | some entry =>
          have hne := hnext.others _ hk entry hl
          rw [Option.bind_some, Option.bind_some, readLocated, readLocated, hfs.read _ hne]

end Locate

/-! ## Configuration changes -/

theorem add (h : reg.AgreeOff p K reg') (kind : String) (path url bucket : Option String)
    (enabled : Option Bool) (secret : Option String) :
    (reg.add kind path url bucket enabled secret).1
        = (reg'.add kind path url bucket enabled secret).1 ∧
      (reg.add kind path url bucket enabled secret).2.AgreeOff p K
        (reg'.add kind path url bucket enabled secret).2 := by
  obtain ⟨hadded, hadd⟩ := add_same h.nextId kind path url bucket enabled secret
  refine ⟨hadded, ?_⟩
  rcases hadd with ⟨heq, heq'⟩ | ⟨s, -, heq, heq'⟩
  · rw [heq, heq']
    exact h
  · rw [heq, heq']
    exact ⟨congrArg (· ++ [s]) h.sources, rfl, h.indexed, h.index, h.others⟩

theorem dropSource (h : reg.AgreeOff p K reg') (sourceId : String) :
    (reg.dropSource sourceId).1 = (reg'.dropSource sourceId).1 ∧
      (reg.dropSource sourceId).2.AgreeOff p K (reg'.dropSource sourceId).2 := by
  unfold SourceRegistry.dropSource
  rw [h.sources]
  simp only
  split
  · exact ⟨rfl, rfl, h.nextId, rfl, fun _ _ => rfl, fun k _ entry hentry => by cases hentry⟩
  · exact ⟨rfl, rfl, h.nextId, h.indexed, h.index, h.others⟩

end AgreeOff

/-- Restored sources bring no index. -/
theorem agreeOff_restore (h : reg.nextId = reg'.nextId) (specs : List SourceSpec) :
    (reg.restore specs).AgreeOff p K (reg'.restore specs) := by
  have hsame : reg.restore specs = reg'.restore specs := by
    rw [SourceRegistry.restore, SourceRegistry.restore, h]
  rw [hsame]
  exact agreeOff_of_empty rfl

end SourceRegistry

/-! ## A file system without the contents of one file -/

/-- The same tree, with the file `p` unreadable. -/
def FileSystem.without (fs : FileSystem) (p : PathBuf) : FileSystem where
  readDir := fs.readDir
  isFile := fs.isFile
  isDir := fs.isDir
  mapFile q := if q = p then none else fs.mapFile q
  read q := if q = p then none else fs.read q
  glob := fs.glob
  dirs := fs.dirs
  dirs_lt := fs.dirs_lt
  fileName_of_map q data h := by
    split at h
    · cases h
    · exact fs.fileName_of_map q data h

theorem FileSystem.Unchanged.without (hfs : fs.Unchanged) (p : PathBuf) :
    (fs.without p).Unchanged := by
  intro q data h
  have h' : (if q = p then none else fs.mapFile q) = some data := h
  show (if q = p then none else fs.read q) = some data
  split at h'
  · cases h'
  · next hq => rw [if_neg hq, hfs q data h']

theorem FileSystem.sameBut_without (fs : FileSystem) (p : PathBuf) :
    fs.SameBut p (fs.without p) where
  readDir := rfl
  isFile := rfl
  isDir := rfl
  glob := rfl
  mapFile _ hq := (if_neg hq).symm
  read _ hq := (if_neg hq).symm

theorem aliasesOf_without (fs : FileSystem) (p : PathBuf) :
    aliasesOf rd (fs.without p) p = .returned none := by
  have hmap : (fs.without p).mapFile p = none := if_pos rfl
  rw [aliasesOf, hmap]

theorem namedIn_without (fs : FileSystem) (p : PathBuf) (K : Set String) :
    NamedIn rd (fs.without p) p K :=
  ⟨none, aliasesOf_without fs p, fun _ h => by cases h⟩

theorem listsReturn_without (h : ListsReturn rd fs sources) (p : PathBuf) :
    ListsReturn rd (fs.without p) sources := by
  intro s hs hlocal
  rw [returns_list_iff, ← walk_sameBut (fs.sameBut_without p)]
  intro path hpath
  by_cases hp : path = p
  · rw [hp, aliasesOf_without]
    exact returns_returned _
  · rw [← aliasesOf_sameBut (fs.sameBut_without p) hp]
    exact returns_list_iff.mp (h s hs hlocal) path hpath

/-- Without the contents of `p`, a source lists its other files, in the same order. -/
theorem listing_without {s : SourceSpec} (h : (s.list rd fs).Returns) (p : PathBuf)
    (h' : (s.list rd (fs.without p)).Returns) :
    listing rd (fs.without p) s = (listing rd fs s).filter fun ix => ix.path ≠ p := by
  obtain ⟨files, hl⟩ := h
  obtain ⟨files', hl'⟩ := h'
  have hnone : ∀ ix ∈ files', ix.path ≠ p := by
    intro ix hix hpath
    have hprobed := ((mem_list_iff hl').mp hix).2
    rw [Indexed.Probed, hpath, aliasesOf_without] at hprobed
    cases hprobed
  rw [listing_eq hl, listing_eq hl', filter_listed hl,
    ← List.filter_eq_self.mpr fun ix hix => decide_eq_true (hnone ix hix), filter_listed hl',
    walk_sameBut (fs.sameBut_without p)]
  refine List.filterMap_congr fun path hpath => ?_
  rw [aliasesOf_sameBut (fs.sameBut_without p) (of_decide_eq_true (List.mem_filter.mp hpath).2)]

/-- So its index rows are those of the other files. -/
theorem fileRows_without (h : ListsReturn rd fs sources) (p : PathBuf) :
    fileRows rd (fs.without p) sources
      = (fileRows rd fs sources).filter fun row => row.2.1 ≠ p := by
  have h' := listsReturn_without h p
  unfold fileRows
  rw [List.filter_flatMap]
  apply List.flatMap_congr
  intro s hs
  obtain ⟨hs, hlocal⟩ := List.mem_filter.mp hs
  rw [listing_without (h s hs hlocal) p (h' s hs hlocal), SourceRegistry.indexRows,
    SourceRegistry.indexRows, List.filter_map]
  rfl

/-- A token that is not answered by `p` has the first file it had. -/
theorem fileFor_without (h : ListsReturn rd fs sources) {p : PathBuf} {k : String}
    (hk : ∀ entry, fileFor rd fs sources k = some entry → entry.1 ≠ p) :
    fileFor rd (fs.without p) sources k = fileFor rd fs sources k := by
  cases hf : fileFor rd fs sources k with
  | none =>
      rw [fileFor, Table.firstMatch_eq_none] at hf ⊢
      rw [fileRows_without h]
      exact fun row hrow => hf row (List.mem_filter.mp hrow).1
  | some entry =>
      rw [fileFor, fileRows_without h]
      apply Table.firstMatch_filter hf
      intro row _ hrow
      rw [hrow]
      exact decide_eq_true (hk entry hf)

end VgiSymbols
