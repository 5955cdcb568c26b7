import VgiSymbols.Basic.Traversal
import VgiSymbols.Source.Listing

set_option autoImplicit false

/-! # Indexing a directory tree

`index_dir` keeps the directories that are still to be listed on a stack, and counts the regular
files it comes to. On a directory tree the stack visits each directory once, so the files are
probed once each (`walkDirLoop_eq`), up to the cap on their number (`indexDir_tree`).
-/

namespace VgiSymbols

open Unwind Traversal

variable {rd : Readers} {fs : FileSystem}

/-! ## Trees -/

/-- The regular files a listing names. -/
def regularFiles (entries : List DirEntry) : List PathBuf :=
  (entries.filter fun e => e.fileType = some .file).map DirEntry.path

theorem regularFiles_cons {entry : DirEntry} (h : entry.fileType = some .file)
    (rest : List DirEntry) : regularFiles (entry :: rest) = entry.path :: regularFiles rest := by
  simp [regularFiles, h]

theorem regularFiles_cons_of_ne {entry : DirEntry} (h : entry.fileType ≠ some .file)
    (rest : List DirEntry) : regularFiles (entry :: rest) = regularFiles rest := by
  simp [regularFiles, h]

theorem subdirs_cons {entry : DirEntry} (h : entry.fileType = some .dir) (rest : List DirEntry) :
    subdirs (some (entry :: rest)) = entry.path :: subdirs (some rest) := by
  simp [subdirs, h]

theorem subdirs_cons_of_ne {entry : DirEntry} (h : entry.fileType ≠ some .dir)
    (rest : List DirEntry) : subdirs (some (entry :: rest)) = subdirs (some rest) := by
  simp [subdirs, h]

/-- What is listed in a directory: nothing if it cannot be read. -/
def FileSystem.entries (fs : FileSystem) (dir : PathBuf) : List DirEntry :=
  (fs.readDir dir).getD []

/-- The directories listed in a directory. -/
def FileSystem.below (fs : FileSystem) (dir : PathBuf) : List PathBuf := subdirs (fs.readDir dir)

/-- The regular files listed in a directory. -/
def FileSystem.files (fs : FileSystem) (dir : PathBuf) : List PathBuf :=
  regularFiles (fs.entries dir)

/-- A regular file in a directory that is reached from `root` through readable directories and
without links. -/
def FileSystem.HasFile (fs : FileSystem) (root path : PathBuf) : Prop :=
  ∃ dir, Reach fs.below root dir ∧ path ∈ fs.files dir

/-- The directories that are reached from `root` form a tree: they are not files, a directory
lists no path twice, and no path is listed in two directories. -/
structure DirectoryTree (fs : FileSystem) (root : PathBuf) : Prop where
  isFile : ∀ dir, Reach fs.below root dir → fs.isFile dir = false
  nodup : ∀ dir, Reach fs.below root dir → ((fs.entries dir).map DirEntry.path).Nodup
  parent : ∀ dir dir' path, Reach fs.below root dir → Reach fs.below root dir' →
    path ∈ (fs.entries dir).map DirEntry.path → path ∈ (fs.entries dir').map DirEntry.path →
    dir = dir'

theorem below_eq (dir : PathBuf) :
    fs.below dir =
      ((fs.entries dir).filter fun e => e.fileType = some .dir).map DirEntry.path := by
  unfold FileSystem.below FileSystem.entries
  cases fs.readDir dir <;> rfl

theorem below_sublist (dir : PathBuf) :
    (fs.below dir).Sublist ((fs.entries dir).map DirEntry.path) := by
  rw [below_eq]
  exact List.filter_sublist.map _

theorem files_sublist (dir : PathBuf) :
    (fs.files dir).Sublist ((fs.entries dir).map DirEntry.path) :=
  List.filter_sublist.map _

theorem DirectoryTree.isForest {root : PathBuf} (h : DirectoryTree fs root) :
    IsForest fs.below root where
  nodup dir hdir := (h.nodup dir hdir).sublist (below_sublist dir)
  parent dir dir' path hdir hdir' hpath hpath' :=
    h.parent dir dir' path hdir hdir' ((below_sublist dir).subset hpath)
      ((below_sublist dir').subset hpath')

/-! ## The walk -/

/-- The entries of one directory: its files are visited as far as the cap allows. -/
theorem walkEntries_eq {maxFiles visited : Nat} (hvisited : visited ≤ maxFiles)
    (entries : List DirEntry) (stack paths : List PathBuf) :
    walkEntries maxFiles entries stack visited paths =
      if visited + (regularFiles entries).length ≤ maxFiles then
        .ok ((subdirs (some entries)).reverse ++ stack, visited + (regularFiles entries).length,
          paths ++ regularFiles entries)
      else .error (paths ++ (regularFiles entries).take (maxFiles - visited)) := by
  induction entries generalizing visited stack paths with
  | nil =>
      rw [walkEntries, regularFiles, List.filter_nil, List.map_nil, List.length_nil, Nat.add_zero,
        if_pos hvisited, List.append_nil]
      rfl
  | cons entry rest ih =>
      by_cases hdir : entry.fileType = some .dir
      · have hne : entry.fileType ≠ some .file := by
          rw [hdir]
          decide
        simp only [walkEntries, hdir]
        rw [ih hvisited, regularFiles_cons_of_ne hne, subdirs_cons hdir, List.reverse_cons,
          List.append_assoc, List.singleton_append]
      by_cases hfile : entry.fileType = some .file
      · simp only [walkEntries, hfile]
        rw [regularFiles_cons hfile, subdirs_cons_of_ne hdir, List.length_cons]
        by_cases hcap : maxFiles < visited + 1
        · -- the cap is reached in front of this file
          rw [if_pos hcap, if_neg (by omega), show maxFiles - visited = 0 by omega, List.take_zero,
            List.append_nil]
        · have htake : (entry.path :: regularFiles rest).take (maxFiles - visited) =
              entry.path :: (regularFiles rest).take (maxFiles - (visited + 1)) := by
            rw [show maxFiles - visited = maxFiles - (visited + 1) + 1 by omega,
              List.take_succ_cons]
          rw [if_neg hcap, ih (by omega), htake, Nat.add_right_comm, Nat.add_assoc]
          simp only [List.append_assoc, List.singleton_append]
      · rw [regularFiles_cons_of_ne hfile, subdirs_cons_of_ne hdir, ← ih hvisited, walkEntries]
        split
        · exact absurd ‹_› hdir
        · exact absurd ‹_› hfile
        · rfl

/-- The walk visits the files of each directory that the stack comes to. -/
theorem walkDirLoop_eq {maxFiles visited fuel : Nat} {stack : List PathBuf}
    (hvisited : visited ≤ maxFiles)
    (hdirs : ∀ dir ∈ visits fs.below fuel stack, fs.isFile dir = false) (paths : List PathBuf) :
    walkDirLoop fs maxFiles fuel stack visited paths =
      paths ++ ((visits fs.below fuel stack).flatMap fs.files).take (maxFiles - visited) := by
  induction fuel generalizing stack visited paths with
  | zero => simp [walkDirLoop, visits]
  | succ fuel ih =>
      cases stack with
      | nil => simp [walkDirLoop, visits]
      | cons dir stack =>
          rw [visits, List.forall_mem_cons] at hdirs
          obtain ⟨hdir, hdirs⟩ := hdirs
          rw [walkDirLoop, visits, List.flatMap_cons]
          cases hread : fs.readDir dir with
          | none =>
              have hbelow : fs.below dir = [] := by rw [FileSystem.below, hread]; rfl
              have hfiles : fs.files dir = [] := by
                rw [FileSystem.files, FileSystem.entries, hread]; rfl
              rw [hbelow] at hdirs ⊢
              rw [hfiles]
              simp only [hdir, Bool.false_eq_true, if_false]
              exact ih hvisited hdirs paths
          | some entries =>
              have hbelow : fs.below dir = subdirs (some entries) := by rw [FileSystem.below, hread]
              have hfiles : fs.files dir = regularFiles entries := by
                rw [FileSystem.files, FileSystem.entries, hread]; rfl
              rw [hbelow] at hdirs ⊢
              rw [hfiles]
              simp only
              rw [walkEntries_eq hvisited]
              by_cases hcap : visited + (regularFiles entries).length ≤ maxFiles
              · rw [if_pos hcap]
                simp only
                rw [ih hcap hdirs, List.append_assoc, List.take_append,
                  List.take_of_length_le (by omega : (regularFiles entries).length ≤ _),
                  Nat.sub_add_eq]
              · rw [if_neg hcap, List.take_append_of_le_length (by omega)]

/-! ## The files of a tree -/

theorem FileSystem.below_lt (fs : FileSystem) (dir : PathBuf) :
    ((fs.below dir).map fs.dirs).sum < fs.dirs dir := fs.dirs_lt dir

theorem mem_visits_root {root dir : PathBuf} :
    dir ∈ visits fs.below (fs.dirs root) [root] ↔ Reach fs.below root dir := by
  rw [mem_visits fs.below_lt (by simp)]
  simp

/-- The regular files of a tree, in the order of the walk. -/
def FileSystem.walkFiles (fs : FileSystem) (root : PathBuf) : List PathBuf :=
  (visits fs.below (fs.dirs root) [root]).flatMap fs.files

theorem mem_walkFiles {root path : PathBuf} : path ∈ fs.walkFiles root ↔ fs.HasFile root path := by
  rw [FileSystem.walkFiles, List.mem_flatMap]
  exact exists_congr fun dir => and_congr_left fun _ => mem_visits_root

/-- Each directory is visited once, and each file is in one directory. -/
theorem DirectoryTree.nodup_walkFiles {root : PathBuf} (h : DirectoryTree fs root) :
    (fs.walkFiles root).Nodup := by
  have hdirs : (visits fs.below (fs.dirs root) [root]).Nodup :=
    h.isForest.nodup_visits fs.below_lt (by simp)
      (fun dir hdir => List.mem_singleton.mp hdir ▸ Relation.ReflTransGen.refl)
      (List.pairwise_singleton _ _)
  refine List.nodup_flatMap.mpr ⟨fun dir hdir => ?_, ?_⟩
  · exact (h.nodup dir (mem_visits_root.mp hdir)).sublist (files_sublist dir)
  · apply hdirs.pairwise_of_forall_ne
    intro dir hdir dir' hdir' hne path hpath hpath'
    exact hne (h.parent dir dir' path (mem_visits_root.mp hdir) (mem_visits_root.mp hdir')
      ((files_sublist dir).subset hpath) ((files_sublist dir').subset hpath'))

/-- The files up to the cap are probed, in their order. -/
theorem DirectoryTree.indexDir_eq {root : PathBuf} (h : DirectoryTree fs root) (maxFiles : Nat) :
    indexDir rd fs root maxFiles =
      collect (aliasesOf rd fs) ((fs.walkFiles root).take maxFiles) := by
  have hfiles : ∀ dir ∈ visits fs.below (fs.dirs root) [root], fs.isFile dir = false :=
    fun dir hdir => h.isFile dir (mem_visits_root.mp hdir)
  calc indexDir rd fs root maxFiles
      = collect (aliasesOf rd fs) (walkDirLoop fs maxFiles (fs.dirs root) [root] 0 []) :=
        indexDirLoop_eq rd fs maxFiles _ [root] 0 []
    _ = collect (aliasesOf rd fs) ((fs.walkFiles root).take maxFiles) := by
        rw [walkDirLoop_eq (Nat.zero_le _) hfiles, List.nil_append, Nat.sub_zero,
          FileSystem.walkFiles]

/-- The paths of the indexed files are among those probed, in their order. -/
theorem paths_sublist_of_collect {paths : List PathBuf} {out : List Indexed}
    (h : collect (aliasesOf rd fs) paths = .returned out) :
    (out.map Indexed.path).Sublist paths := by
  induction paths generalizing out with
  | nil =>
      cases h
      exact List.Sublist.slnil
  | cons path paths ih =>
      rw [collect] at h
      obtain ⟨ix?, hix, h⟩ := bind_eq_returned.mp h
      obtain ⟨rest, hrest, h⟩ := bind_eq_returned.mp h
      cases h
      cases ix? with
      | none => exact (ih hrest).cons path
      | some ix =>
          rw [Option.toList_some, List.singleton_append, List.map_cons, path_of_aliasesOf hix]
          exact (ih hrest).cons_cons path

/-- **Indexing a directory tree.** The regular files of the tree are probed once each, in some
order and up to the cap. The result is the recognized ones of those probed, each once with its
own aliases. The loop ends by itself: with more fuel it does the same. -/
theorem indexDir_tree {root : PathBuf} (htree : DirectoryTree fs root) (maxFiles : Nat) :
    ∃ files probed : List PathBuf,
      files.Nodup ∧ (∀ path, path ∈ files ↔ fs.HasFile root path) ∧
      probed <+: files ∧
      (files.length ≤ maxFiles → probed = files) ∧
      (maxFiles < files.length → probed.length = maxFiles) ∧
      indexDir rd fs root maxFiles = collect (aliasesOf rd fs) probed ∧
      (∀ out, indexDir rd fs root maxFiles = .returned out →
        (out.map Indexed.path).Nodup ∧
        ∀ ix, ix ∈ out ↔ ix.path ∈ probed ∧ ix.Probed rd fs) ∧
      ∀ k, indexDirLoop rd fs maxFiles (fs.dirs root + k) [root] 0 [] =
        indexDir rd fs root maxFiles := by
  have hnodup := htree.nodup_walkFiles
  have hindex : indexDir rd fs root maxFiles =
      collect (aliasesOf rd fs) ((fs.walkFiles root).take maxFiles) := htree.indexDir_eq maxFiles
  refine ⟨fs.walkFiles root, (fs.walkFiles root).take maxFiles, hnodup, fun path => mem_walkFiles,
    List.take_prefix _ _, List.take_of_length_le, fun hcap => ?_, hindex, fun out hout => ?_,
    indexDir_fuel root maxFiles⟩
  · rw [List.length_take, Nat.min_eq_left (Nat.le_of_lt hcap)]
  · rw [hindex] at hout
    have hprobed := hnodup.sublist (List.take_sublist maxFiles (fs.walkFiles root))
    exact ⟨hprobed.sublist (paths_sublist_of_collect hout), fun ix => mem_collect_aliasesOf hout⟩

namespace StandIn

/-- The directories of `nested`; the last one cannot be read. -/
def nestedDirs : List PathBuf := ["d", "d/sub", "d/locked"]

/-- The files of `nested`: two images, and a file that is none. -/
def nestedFiles : List (PathBuf × Bytes) :=
  [("d/a", 1 :: buildId 0x11), ("d/sub/b", 2 :: buildId 0x22), ("d/sub/c", [0])]

/-- The directory `d` with an image, a link, and two directories. -/
def nested : FileSystem where
  readDir p :=
    if p = "d" then
      some [⟨"d/a", some .file⟩, ⟨"d/sub", some .dir⟩, ⟨"d/link", some .other⟩,
        ⟨"d/locked", some .dir⟩]
    else if p = "d/sub" then some [⟨"d/sub/b", some .file⟩, ⟨"d/sub/c", some .file⟩]
    else none
  isFile p := (nestedFiles.lookup p).isSome
  isDir p := nestedDirs.contains p
  mapFile p := if (fileName p).isSome then nestedFiles.lookup p else none
  read p := nestedFiles.lookup p
  glob _ := none
  dirs p := if p = "d" then 3 else 1
  dirs_lt p := by
    split
    · decide
    · split <;> decide
  fileName_of_map p data h := by
    split at h
    · next hname => exact Option.isSome_iff_exists.mp hname
    · cases h

theorem mem_nestedDirs {dir : PathBuf} (h : Reach nested.below "d" dir) : dir ∈ nestedDirs := by
  have hbelow : ∀ dir ∈ nestedDirs, ∀ sub ∈ nested.below dir, sub ∈ nestedDirs := by decide
  induction h with
  | refl => decide
  | tail _ hsub ih => exact hbelow _ ih _ hsub

theorem directoryTree_nested : DirectoryTree nested "d" where
  isFile dir hdir :=
    (by decide : ∀ dir ∈ nestedDirs, nested.isFile dir = false) dir (mem_nestedDirs hdir)
  nodup dir hdir :=
    (by decide : ∀ dir ∈ nestedDirs, ((nested.entries dir).map DirEntry.path).Nodup) dir
      (mem_nestedDirs hdir)
  parent dir dir' path hdir hdir' hpath hpath' :=
    (by decide : ∀ dir ∈ nestedDirs, ∀ dir' ∈ nestedDirs,
      ∀ path ∈ (nested.entries dir).map DirEntry.path,
        path ∈ (nested.entries dir').map DirEntry.path → dir = dir') dir (mem_nestedDirs hdir) dir'
          (mem_nestedDirs hdir') path hpath hpath'

end StandIn

/-- Of the three files of a tree two are probed if the cap is two. -/
theorem indexDir_nested :
    ∃ files probed : List PathBuf,
      files.Nodup ∧ (∀ path, path ∈ files ↔ StandIn.nested.HasFile "d" path) ∧
      probed <+: files ∧ 2 < files.length ∧ probed.length = 2 ∧
      indexDir StandIn.readers StandIn.nested "d" 2 =
        collect (aliasesOf StandIn.readers StandIn.nested) probed ∧
      (∀ out, indexDir StandIn.readers StandIn.nested "d" 2 = .returned out →
        (out.map Indexed.path).Nodup ∧
        ∀ ix, ix ∈ out ↔ ix.path ∈ probed ∧ ix.Probed StandIn.readers StandIn.nested) ∧
      ∀ k, indexDirLoop StandIn.readers StandIn.nested 2 (StandIn.nested.dirs "d" + k) ["d"] 0 [] =
        indexDir StandIn.readers StandIn.nested "d" 2 := by
  obtain ⟨files, probed, hnodup, hfiles, hprefix, -, hcap, hrest⟩ :=
    @indexDir_tree StandIn.readers _ _ StandIn.directoryTree_nested 2
  have hreach : ∀ dir ∈ StandIn.nestedDirs, Reach StandIn.nested.below "d" dir := by
    refine List.forall_mem_cons.mpr ⟨.refl, fun dir hdir => .single ?_⟩
    exact (by decide : ∀ dir ∈ StandIn.nestedDirs.tail, dir ∈ StandIn.nested.below "d") dir hdir
  have hlisted : ∀ path ∈ StandIn.nestedFiles.map Prod.fst,
      ∃ dir ∈ StandIn.nestedDirs, path ∈ StandIn.nested.files dir := by decide
  have hall : StandIn.nestedFiles.map Prod.fst ⊆ files := by
    intro path hpath
    obtain ⟨dir, hdir, hfile⟩ := hlisted path hpath
    exact (hfiles path).mpr ⟨dir, hreach dir hdir, hfile⟩
  have hlength : 2 < files.length :=
    ((by decide : (StandIn.nestedFiles.map Prod.fst).Nodup).subperm hall).length_le
  exact ⟨files, probed, hnodup, hfiles, hprefix, hlength, hcap hlength, hrest⟩

end VgiSymbols
