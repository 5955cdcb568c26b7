import Mathlib.Data.Set.Basic
import VgiSymbols.Source.Globs

set_option autoImplicit false

/-! # What a source can see

A scope is a part of the file system: some paths, and some glob patterns. It is closed if no
listing and no match leads out of it; links in a directory may, for they are not followed. A source
in a closed scope walks through paths of the scope alone (`walk_subset`), and file systems that
agree on the scope list the same for it (`list_agree`).
-/

namespace VgiSymbols

open Unwind

/-- Some paths, and some concrete glob patterns. -/
structure Scope where
  paths : Set PathBuf
  patterns : Set String

/-- What is listed or matched in the scope is in the scope. Entries that are neither directories
nor regular files are left out. -/
structure Scope.Closed (scope : Scope) (fs : FileSystem) : Prop where
  listed : ∀ dir ∈ scope.paths, ∀ entries, fs.readDir dir = some entries → ∀ entry ∈ entries,
    entry.fileType = some .dir ∨ entry.fileType = some .file → entry.path ∈ scope.paths
  matched : ∀ q ∈ scope.patterns, ∀ entries, fs.glob q = some entries →
    ∀ path ∈ entries, path ∈ scope.paths

/-- The file systems look the same in the scope. -/
structure FileSystem.AgreeOn (scope : Scope) (fs fs' : FileSystem) : Prop where
  readDir : ∀ path ∈ scope.paths, fs.readDir path = fs'.readDir path
  isFile : ∀ path ∈ scope.paths, fs.isFile path = fs'.isFile path
  isDir : ∀ path ∈ scope.paths, fs.isDir path = fs'.isDir path
  mapFile : ∀ path ∈ scope.paths, fs.mapFile path = fs'.mapFile path
  read : ∀ path ∈ scope.paths, fs.read path = fs'.read path
  glob : ∀ q ∈ scope.patterns, fs.glob q = fs'.glob q

/-- The source starts in the scope. -/
def SourceSpec.InScope (scope : Scope) (s : SourceSpec) : Prop :=
  ∀ p, s.path = some p →
    (s.kind = "glob" → ∀ q ∈ expandBraces p, q ∈ scope.patterns) ∧
      (s.kind ≠ "glob" → (p : PathBuf) ∈ scope.paths)

variable {rd : Readers} {scope : Scope} {fs fs' : FileSystem}

/-! ## Directories -/

/-- The files visited when the entries of a directory end, or the cap is reached. -/
def found : Except (List PathBuf) (List PathBuf × Nat × List PathBuf) → List PathBuf
  | .error paths => paths
  | .ok (_, _, paths) => paths

theorem mem_found_walkEntries {maxFiles visited : Nat} {entries : List DirEntry}
    {stack paths : List PathBuf} {path : PathBuf}
    (h : path ∈ found (walkEntries maxFiles entries stack visited paths)) :
    path ∈ paths ∨ ∃ entry ∈ entries, entry.fileType = some .file ∧ entry.path = path := by
  induction entries generalizing stack visited paths with
  | nil => exact Or.inl h
  | cons entry rest ih =>
      have hmore : (∃ e ∈ rest, e.fileType = some .file ∧ e.path = path) →
          ∃ e ∈ entry :: rest, e.fileType = some .file ∧ e.path = path :=
        fun ⟨e, he, hpath⟩ => ⟨e, List.mem_cons_of_mem _ he, hpath⟩
      rw [walkEntries] at h
      split at h
      case h_1 hdir => exact (ih h).imp_right hmore
      case h_2 hfile =>
          by_cases hcap : maxFiles < visited + 1
          · rw [if_pos hcap] at h
            exact Or.inl h
          · rw [if_neg hcap] at h
            rcases ih h with hmem | hmem
            · rcases List.mem_append.mp hmem with hmem | hmem
              · exact Or.inl hmem
              · exact Or.inr ⟨entry, List.mem_cons_self, hfile, (List.mem_singleton.mp hmem).symm⟩
            · exact Or.inr (hmore hmem)
      case h_3 hdir hfile => exact (ih h).imp_right hmore

theorem mem_subdirs {entries : List DirEntry} {path : PathBuf}
    (h : path ∈ subdirs (some entries)) :
    ∃ entry ∈ entries, entry.fileType = some .dir ∧ entry.path = path := by
  obtain ⟨entry, hentry, hpath⟩ := List.mem_map.mp h
  obtain ⟨hentry, hdir⟩ := List.mem_filter.mp hentry
  exact ⟨entry, hentry, of_decide_eq_true hdir, hpath⟩

/-- The walk stays in the scope, and the part of the file system outside it is not asked. -/
theorem walkDirLoop_agree (hclosed : scope.Closed fs) (hagree : fs.AgreeOn scope fs')
    {maxFiles fuel visited : Nat} {stack paths : List PathBuf}
    (hstack : ∀ dir ∈ stack, dir ∈ scope.paths) (hpaths : ∀ path ∈ paths, path ∈ scope.paths) :
    walkDirLoop fs maxFiles fuel stack visited paths
        = walkDirLoop fs' maxFiles fuel stack visited paths ∧
      ∀ path ∈ walkDirLoop fs maxFiles fuel stack visited paths, path ∈ scope.paths := by
  induction fuel generalizing stack visited paths with
  | zero => exact ⟨rfl, hpaths⟩
  | succ fuel ih =>
      cases stack with
      | nil => exact ⟨rfl, hpaths⟩
      | cons dir stack =>
          obtain ⟨hdir, hstack⟩ := List.forall_mem_cons.mp hstack
          rw [walkDirLoop, walkDirLoop, ← hagree.readDir dir hdir, ← hagree.isFile dir hdir]
          cases hread : fs.readDir dir with
          | none =>
              refine ih hstack ?_
              split
              · intro path hpath
                rcases List.mem_append.mp hpath with hpath | hpath
                · exact hpaths path hpath
                · exact List.mem_singleton.mp hpath ▸ hdir
              · exact hpaths
          | some entries =>
              have hlisted := hclosed.listed dir hdir entries hread
              have hfound : ∀ path ∈ found (walkEntries maxFiles entries stack visited paths),
                  path ∈ scope.paths := by
                intro path hpath
                rcases mem_found_walkEntries hpath with hmem | ⟨entry, hentry, hfile, rfl⟩
                · exact hpaths path hmem
                · exact hlisted entry hentry (Or.inr hfile)
              simp only
              cases hentries : walkEntries maxFiles entries stack visited paths with
              | error paths' =>
                  rw [hentries] at hfound
                  exact ⟨rfl, hfound⟩
              | ok r =>
                  rw [hentries] at hfound
                  obtain ⟨stack', visited', paths'⟩ := r
                  refine ih (fun dir' hdir' => ?_) hfound
                  rw [walkEntries_stack hentries, List.mem_append, List.mem_reverse] at hdir'
                  rcases hdir' with hdir' | hdir'
                  · obtain ⟨entry, hentry, htype, rfl⟩ := mem_subdirs hdir'
                    exact hlisted entry hentry (Or.inl htype)
                  · exact hstack dir' hdir'

/-! ## Globs -/

theorem matched_agree (hclosed : scope.Closed fs) (hagree : fs.AgreeOn scope fs')
    {patterns : List String} (hpatterns : ∀ q ∈ patterns, q ∈ scope.patterns) :
    fs.matched patterns = fs'.matched patterns ∧
      ∀ path ∈ fs.matched patterns, path ∈ scope.paths := by
  have hentries : ∀ q ∈ patterns, ∀ path ∈ (fs.glob q).getD [], path ∈ scope.paths := by
    intro q hq path hpath
    cases hglob : fs.glob q with
    | none =>
        rw [hglob] at hpath
        cases hpath
    | some entries =>
        rw [hglob] at hpath
        exact hclosed.matched q (hpatterns q hq) entries hglob path hpath
  constructor
  · apply List.flatMap_congr
    intro q hq
    rw [← hagree.glob q (hpatterns q hq)]
    exact List.filter_congr fun path hpath => by rw [hagree.isDir path (hentries q hq path hpath)]
  · intro path hpath
    obtain ⟨q, hq, hpath⟩ := List.mem_flatMap.mp hpath
    exact hentries q hq path (List.mem_filter.mp hpath).1

/-! ## Sources -/

/-- More fuel than the walk of a directory needs. -/
theorem walkDirLoop_more (fs : FileSystem) (maxFiles : Nat) (root : PathBuf) {fuel : Nat}
    (h : fs.dirs root ≤ fuel) :
    walkDirLoop fs maxFiles (fs.dirs root) [root] 0 []
      = walkDirLoop fs maxFiles fuel [root] 0 [] := by
  obtain ⟨k, rfl⟩ := Nat.exists_eq_add_of_le h
  exact (walkDirLoop_fuel _ _ _ _ _ _ (by simp)).symm

/-- **A source sees its scope alone.** -/
theorem walk_agree (hclosed : scope.Closed fs) (hagree : fs.AgreeOn scope fs') {s : SourceSpec}
    (hs : s.InScope scope) :
    s.walk fs = s.walk fs' ∧ ∀ path ∈ s.walk fs, path ∈ scope.paths := by
  unfold SourceSpec.walk
  cases hpath : s.path with
  | none => exact ⟨rfl, fun _ h => absurd h List.not_mem_nil⟩
  | some p =>
      obtain ⟨hglob, hdir⟩ := hs p hpath
      simp only
      by_cases hkind : s.kind = "glob"
      · obtain ⟨heq, hmem⟩ := matched_agree hclosed hagree (hglob hkind)
        rw [if_pos hkind, if_pos hkind, walkPatterns_eq (Nat.zero_le _),
          walkPatterns_eq (Nat.zero_le _), ← heq]
        exact ⟨rfl, fun path hpath => hmem path (List.mem_of_mem_take hpath)⟩
      · rw [if_neg hkind, if_neg hkind,
          walkDirLoop_more fs _ p (Nat.le_max_left _ (fs'.dirs p)),
          walkDirLoop_more fs' _ p (Nat.le_max_right (fs.dirs p) _)]
        exact walkDirLoop_agree hclosed hagree (List.forall_mem_singleton.mpr (hdir hkind))
          fun _ h => absurd h List.not_mem_nil

theorem aliasesOf_agree (hagree : fs.AgreeOn scope fs') {path : PathBuf}
    (hpath : path ∈ scope.paths) : aliasesOf rd fs path = aliasesOf rd fs' path := by
  unfold aliasesOf
  rw [hagree.mapFile path hpath]

/-- File systems that agree on the scope list the same. -/
theorem list_agree (hclosed : scope.Closed fs) (hagree : fs.AgreeOn scope fs') {s : SourceSpec}
    (hs : s.InScope scope) : s.list rd fs = s.list rd fs' := by
  obtain ⟨heq, hmem⟩ := walk_agree hclosed hagree hs
  rw [list_eq_collect, list_eq_collect, ← heq]
  exact collect_congr fun path hpath => aliasesOf_agree hagree (hmem path hpath)

/-- What is listed is in the scope. -/
theorem path_mem_of_list (hclosed : scope.Closed fs) {s : SourceSpec} (hs : s.InScope scope)
    {files : List Indexed} (h : s.list rd fs = .returned files) :
    ∀ ix ∈ files, ix.path ∈ scope.paths := by
  intro ix hix
  have hself : fs.AgreeOn scope fs := ⟨fun _ _ => rfl, fun _ _ => rfl, fun _ _ => rfl,
    fun _ _ => rfl, fun _ _ => rfl, fun _ _ => rfl⟩
  exact (walk_agree hclosed hself hs).2 _ ((mem_list_iff h).mp hix).1

/-! ## The registry -/

namespace SourceRegistry

/-- The enabled local sources start in the scope, and the index points into it. -/
structure Confined (scope : Scope) (reg : SourceRegistry) : Prop where
  sources : ∀ s ∈ reg.sources, s.isLocal = true → s.InScope scope
  index : ∀ k entry, reg.index.lookup k = some entry → entry.1 ∈ scope.paths

theorem indexPending_agree (rd : Readers) (hclosed : scope.Closed fs)
    (hagree : fs.AgreeOn scope fs') {l : List SourceSpec} (hl : ∀ s ∈ l, s.InScope scope) {reg : SourceRegistry}
    (hreg : reg.Confined scope) :
    indexPending rd fs l reg = indexPending rd fs' l reg ∧
      (indexPending rd fs l reg).2.Confined scope := by
  induction l generalizing reg with
  | nil => exact ⟨rfl, hreg⟩
  | cons s l ih =>
      obtain ⟨hs, hl⟩ := List.forall_mem_cons.mp hl
      rw [indexPending, indexPending, ← list_agree hclosed hagree hs]
      cases hlist : s.list rd fs with
      | panicked => exact ⟨rfl, hreg⟩
      | returned files =>
          refine ih hl ⟨hreg.sources, fun k entry hentry => ?_⟩
          rw [Table.lookup_orInsertAll] at hentry
          cases hold : reg.index.lookup k with
          | some old =>
              rw [hold] at hentry
              cases hentry
              exact hreg.index k _ hold
          | none =>
              rw [hold] at hentry
              obtain ⟨row, hrow, -, rfl⟩ := Table.exists_of_firstMatch hentry
              obtain ⟨ix, hix, rfl⟩ := List.mem_map.mp hrow
              exact path_mem_of_list hclosed hs hlist ix hix

theorem readLocated_agree (hagree : fs.AgreeOn scope fs') {entry : PathBuf × Bool}
    (hentry : entry.1 ∈ scope.paths) (canon : String) :
    readLocated fs canon entry = readLocated fs' canon entry := by
  unfold readLocated
  rw [hagree.read entry.1 hentry]

theorem ensureIndexed_agree (rd : Readers) (hclosed : scope.Closed fs)
    (hagree : fs.AgreeOn scope fs') {reg : SourceRegistry} (hreg : reg.Confined scope) :
    reg.ensureIndexed rd fs = reg.ensureIndexed rd fs' ∧
      (reg.ensureIndexed rd fs).2.Confined scope :=
  indexPending_agree rd hclosed hagree (fun s hs =>
    hreg.sources s (isLocal_of_mem_pending hs).1 (isLocal_of_mem_pending hs).2) hreg

/-- **Locating sees the scope alone.** -/
theorem locate_agree (rd : Readers) (hclosed : scope.Closed fs) (hagree : fs.AgreeOn scope fs')
    {reg : SourceRegistry} (hreg : reg.Confined scope) (token : String) :
    reg.locate rd fs token = reg.locate rd fs' token := by
  obtain ⟨heq, hnext⟩ := ensureIndexed_agree rd hclosed hagree hreg
  unfold locate
  rw [← heq]
  rcases hindex : reg.ensureIndexed rd fs with ⟨out, reg'⟩
  rw [hindex] at hnext
  cases out with
  | panicked => rfl
  | returned u =>
      simp only
      cases hlookup : reg'.index.lookup (canonicalToken token) with
      | none => rfl
      | some entry =>
          have hentry := hnext.index _ _ hlookup
          rw [Option.bind_some, Option.bind_some, readLocated_agree hagree hentry]

end SourceRegistry

end VgiSymbols
