import VgiSymbols.Core.Source

set_option autoImplicit false

/-! # What a source lists

Which files a source visits does not depend on what they hold: `SourceSpec.walk` is the walk
without the probes, and a listing is the probe of every file of the walk (`list_eq_collect`).
So a source lists the files of its walk that probe as debug files (`mem_list_iff`), and its
listing comes back exactly when every one of these probes does (`returns_list_iff`). The walk of
a directory tree ends before its fuel does (`indexDir_fuel`).
-/

namespace VgiSymbols

open Unwind

variable {rd : Readers} {fs : FileSystem}

/-! ## Probed files -/

/-- The file is there and probing it gives these aliases. -/
def Indexed.Probed (rd : Readers) (fs : FileSystem) (ix : Indexed) : Prop :=
  aliasesOf rd fs ix.path = .returned (some ix)

theorem path_of_aliasesOf {path : PathBuf} {ix : Indexed}
    (h : aliasesOf rd fs path = .returned (some ix)) : ix.path = path := by
  unfold aliasesOf at h
  split at h
  · cases h
  · obtain ⟨r, -, h⟩ := bind_eq_returned.mp h
    cases r with
    | error e => cases h
    | ok identity => cases h; rfl

theorem Indexed.Probed.exists_identity {ix : Indexed} (h : ix.Probed rd fs) :
    ∃ data identity, fs.mapFile ix.path = some data ∧
      probeIdentity rd data = .returned (.ok identity) ∧ ix.aliases = identity.aliases := by
  unfold Indexed.Probed aliasesOf at h
  split at h
  · cases h
  · next data hdata =>
      obtain ⟨r, hr, h⟩ := bind_eq_returned.mp h
      cases r with
      | error e => cases h
      | ok identity =>
          refine ⟨data, identity, hdata, hr, ?_⟩
          have := Option.some.inj (Unwind.returned.inj h)
          rw [← this]

theorem mem_collect_aliasesOf {paths : List PathBuf} {out : List Indexed}
    (h : collect (aliasesOf rd fs) paths = .returned out) {ix : Indexed} :
    ix ∈ out ↔ ix.path ∈ paths ∧ ix.Probed rd fs := by
  rw [mem_collect h]
  constructor
  · rintro ⟨path, hpath, hix⟩
    obtain rfl := path_of_aliasesOf hix
    exact ⟨hpath, hix⟩
  · rintro ⟨hpath, hix⟩
    exact ⟨_, hpath, hix⟩

theorem aliasesOf_returns (hrd : rd.Total) (path : PathBuf) : (aliasesOf rd fs path).Returns := by
  unfold aliasesOf
  split
  · exact returns_returned _
  · apply Returns.bind (probeIdentity_returns hrd _)
    intro r
    cases r <;> exact returns_returned _

/-! ## The walk -/

/-- The files among the entries of a directory, behind those visited before. -/
def walkEntries (maxFiles : Nat) : List DirEntry → List PathBuf → Nat → List PathBuf →
    Except (List PathBuf) (List PathBuf × Nat × List PathBuf)
  | [], stack, visited, paths => .ok (stack, visited, paths)
  | entry :: rest, stack, visited, paths =>
      match entry.fileType with
      | some .dir => walkEntries maxFiles rest (entry.path :: stack) visited paths
      | some .file =>
          if maxFiles < visited + 1 then .error paths
          else walkEntries maxFiles rest stack (visited + 1) (paths ++ [entry.path])
      | _ => walkEntries maxFiles rest stack visited paths

def walkDirLoop (fs : FileSystem) (maxFiles : Nat) :
    Nat → List PathBuf → Nat → List PathBuf → List PathBuf
  | 0, _, _, paths => paths
  | _ + 1, [], _, paths => paths
  | fuel + 1, dir :: stack, visited, paths =>
      match fs.readDir dir with
      | none =>
          walkDirLoop fs maxFiles fuel stack visited
            (if fs.isFile dir then paths ++ [dir] else paths)
      | some entries =>
          match walkEntries maxFiles entries stack visited paths with
          | .error paths => paths
          | .ok (stack, visited, paths) => walkDirLoop fs maxFiles fuel stack visited paths

def walkMatches (fs : FileSystem) (maxFiles : Nat) :
    List PathBuf → Nat → List PathBuf → Except (List PathBuf) (Nat × List PathBuf)
  | [], visited, paths => .ok (visited, paths)
  | entry :: rest, visited, paths =>
      if fs.isDir entry then walkMatches fs maxFiles rest visited paths
      else if maxFiles < visited + 1 then .error paths
      else walkMatches fs maxFiles rest (visited + 1) (paths ++ [entry])

def walkPatterns (fs : FileSystem) (maxFiles : Nat) :
    List String → Nat → List PathBuf → List PathBuf
  | [], _, paths => paths
  | pattern :: rest, visited, paths =>
      match fs.glob pattern with
      | none => walkPatterns fs maxFiles rest visited paths
      | some matched =>
          match walkMatches fs maxFiles matched visited paths with
          | .error paths => paths
          | .ok (visited, paths) => walkPatterns fs maxFiles rest visited paths

/-- The files a source visits, in order. -/
def SourceSpec.walk (fs : FileSystem) (s : SourceSpec) : List PathBuf :=
  match s.path with
  | none => []
  | some p =>
      if s.kind = "glob" then walkPatterns fs maxIndexFiles (expandBraces p) 0 []
      else walkDirLoop fs maxIndexFiles (fs.dirs p) [p] 0 []

/-! ## A listing probes the walk

Each loop is followed with the files visited so far, `paths`, in place of the ones indexed so
far: these are the probes of `paths`. -/

section Loops

variable (rd fs)

theorem indexEntries_eq (maxFiles : Nat) (entries : List DirEntry) (stack : List PathBuf)
    (visited : Nat) (paths : List PathBuf) :
    (collect (aliasesOf rd fs) paths >>= indexEntries rd fs maxFiles entries stack visited) =
      match walkEntries maxFiles entries stack visited paths with
      | .error paths => Except.error <$> collect (aliasesOf rd fs) paths
      | .ok (stack, visited, paths) =>
          (fun out => Except.ok (stack, visited, out)) <$> collect (aliasesOf rd fs) paths := by
  induction entries generalizing stack visited paths with
  | nil => exact (map_eq_pure_bind _ _).symm
  | cons entry rest ih =>
      simp only [walkEntries, indexEntries]
      rcases entry.fileType with _ | (_ | _ | _)
      · exact ih _ _ _
      · exact ih _ _ _
      · simp only
        split
        · exact (map_eq_pure_bind _ _).symm
        · rw [← ih, collect_concat]
          simp only [bind_assoc, pure_bind]
      · exact ih _ _ _

theorem indexDirLoop_eq (maxFiles fuel : Nat) (stack : List PathBuf) (visited : Nat)
    (paths : List PathBuf) :
    (collect (aliasesOf rd fs) paths >>= indexDirLoop rd fs maxFiles fuel stack visited) =
      collect (aliasesOf rd fs) (walkDirLoop fs maxFiles fuel stack visited paths) := by
  induction fuel generalizing stack visited paths with
  | zero => exact bind_pure _
  | succ fuel ih =>
      cases stack with
      | nil => exact bind_pure _
      | cons dir stack =>
          simp only [walkDirLoop, indexDirLoop]
          cases fs.readDir dir with
          | none =>
              simp only [← ih, probeUnlisted]
              -- An entry of the stack that cannot be listed counts if it is a file.
              by_cases hfile : fs.isFile dir = true
              · simp only [hfile, if_true, collect_concat, bind_assoc, pure_bind]
              · simp only [hfile, if_false, Bool.false_eq_true, returned_bind,
                  Option.toList_none, List.append_nil]
          | some entries =>
              simp only
              rw [← bind_assoc, indexEntries_eq]
              cases walkEntries maxFiles entries stack visited paths with
              | error paths =>
                  -- The file cap ends both walks here.
                  simp only [map_eq_pure_bind, bind_assoc, pure_bind]
                  exact bind_pure _
              | ok r =>
                  simp only [← ih, map_eq_pure_bind, bind_assoc, pure_bind]

theorem indexMatches_eq (maxFiles : Nat) (entries : List PathBuf) (visited : Nat)
    (paths : List PathBuf) :
    (collect (aliasesOf rd fs) paths >>= indexMatches rd fs maxFiles entries visited) =
      match walkMatches fs maxFiles entries visited paths with
      | .error paths => Except.error <$> collect (aliasesOf rd fs) paths
      | .ok (visited, paths) =>
          (fun out => Except.ok (visited, out)) <$> collect (aliasesOf rd fs) paths := by
  induction entries generalizing visited paths with
  | nil => exact (map_eq_pure_bind _ _).symm
  | cons entry rest ih =>
      simp only [walkMatches, indexMatches]
      split
      · exact ih _ _
      · split
        · exact (map_eq_pure_bind _ _).symm
        · rw [← ih, collect_concat]
          simp only [bind_assoc, pure_bind]

theorem indexPatterns_eq (maxFiles : Nat) (patterns : List String) (visited : Nat)
    (paths : List PathBuf) :
    (collect (aliasesOf rd fs) paths >>= indexPatterns rd fs maxFiles patterns visited) =
      collect (aliasesOf rd fs) (walkPatterns fs maxFiles patterns visited paths) := by
  induction patterns generalizing visited paths with
  | nil => exact bind_pure _
  | cons pattern rest ih =>
      simp only [walkPatterns, indexPatterns]
      cases fs.glob pattern with
      | none => exact ih _ _
      | some matched =>
          simp only
          rw [← bind_assoc, indexMatches_eq]
          cases walkMatches fs maxFiles matched visited paths with
          | error paths =>
              simp only [map_eq_pure_bind, bind_assoc, pure_bind]
              exact bind_pure _
          | ok r =>
              simp only [← ih, map_eq_pure_bind, bind_assoc, pure_bind]

end Loops

/-- **A listing is the probe of every file of the walk.** -/
theorem list_eq_collect (s : SourceSpec) :
    s.list rd fs = collect (aliasesOf rd fs) (s.walk fs) := by
  unfold SourceSpec.list SourceSpec.walk
  cases s.path with
  | none => rfl
  | some p =>
      simp only
      split
      · exact indexPatterns_eq rd fs maxIndexFiles _ 0 []
      · exact indexDirLoop_eq rd fs maxIndexFiles _ _ 0 []

theorem returns_list_iff {s : SourceSpec} :
    (s.list rd fs).Returns ↔ ∀ path ∈ s.walk fs, (aliasesOf rd fs path).Returns := by
  rw [list_eq_collect, returns_collect]

theorem list_returns (hrd : rd.Total) (s : SourceSpec) : (s.list rd fs).Returns :=
  returns_list_iff.mpr fun path _ => aliasesOf_returns hrd path

/-- **A source lists the files of its walk that probe as debug files.** -/
theorem mem_list_iff {s : SourceSpec} {files : List Indexed}
    (h : s.list rd fs = .returned files) {ix : Indexed} :
    ix ∈ files ↔ ix.path ∈ s.walk fs ∧ ix.Probed rd fs := by
  rw [list_eq_collect] at h
  exact mem_collect_aliasesOf h

/-! ## The walk ends

Every round of the directory walk replaces a directory by its subdirectories, and these
account for fewer directories in all (`FileSystem.dirs_lt`). So the fuel `indexDir` starts
with is never used up. -/

theorem walkEntries_stack {maxFiles : Nat} {entries : List DirEntry}
    {stack stack' : List PathBuf} {visited visited' : Nat} {paths paths' : List PathBuf}
    (h : walkEntries maxFiles entries stack visited paths = .ok (stack', visited', paths')) :
    stack' = (subdirs (some entries)).reverse ++ stack := by
  induction entries generalizing stack visited paths with
  | nil =>
      cases h
      rfl
  | cons entry rest ih =>
      rw [walkEntries] at h
      split at h
      case h_1 hdir => rw [ih h]; simp [subdirs, hdir]
      case h_2 hfile =>
          split at h
          · cases h
          · rw [ih h]
            simp [subdirs, hfile]
      case h_3 hdir _ =>
          have hne : ¬ entry.fileType = some .dir := fun he => hdir he
          rw [ih h]
          simp [subdirs, hne]

theorem walkDirLoop_fuel (maxFiles fuel k : Nat) (stack : List PathBuf) (visited : Nat)
    (paths : List PathBuf) (hfuel : (stack.map fs.dirs).sum ≤ fuel) :
    walkDirLoop fs maxFiles (fuel + k) stack visited paths
      = walkDirLoop fs maxFiles fuel stack visited paths := by
  induction fuel generalizing stack visited paths with
  | zero =>
      cases stack with
      | nil => cases k <;> rfl
      | cons dir stack =>
          -- A directory on the stack counts for itself, so there is fuel for it.
          have := fs.dirs_lt dir
          simp only [List.map_cons, List.sum_cons] at hfuel
          omega
  | succ fuel ih =>
      rw [show fuel + 1 + k = (fuel + k) + 1 by omega]
      cases stack with
      | nil => rfl
      | cons dir stack =>
          have hlt := fs.dirs_lt dir
          simp only [List.map_cons, List.sum_cons] at hfuel
          rw [walkDirLoop, walkDirLoop]
          cases hread : fs.readDir dir with
          | none => exact ih _ _ _ (by omega)
          | some entries =>
              simp only
              cases hentries : walkEntries maxFiles entries stack visited paths with
              | error _ => rfl
              | ok r =>
                  -- The subdirectories pushed count for less than the directory taken off.
                  obtain ⟨stack', visited', paths'⟩ := r
                  apply ih _ _ _
                  rw [hread] at hlt
                  rw [walkEntries_stack hentries, List.map_append, List.sum_append,
                    List.map_reverse, List.sum_reverse]
                  omega

/-- More fuel than `indexDir` starts with does not change its result. -/
theorem indexDir_fuel (root : PathBuf) (maxFiles k : Nat) :
    indexDirLoop rd fs maxFiles (fs.dirs root + k) [root] 0 []
      = indexDir rd fs root maxFiles := by
  have hwalk : walkDirLoop fs maxFiles (fs.dirs root + k) [root] 0 []
      = walkDirLoop fs maxFiles (fs.dirs root) [root] 0 [] :=
    walkDirLoop_fuel _ _ _ _ _ _ (by simp)
  calc indexDirLoop rd fs maxFiles (fs.dirs root + k) [root] 0 []
      = collect (aliasesOf rd fs) (walkDirLoop fs maxFiles (fs.dirs root + k) [root] 0 []) :=
        indexDirLoop_eq rd fs maxFiles _ [root] 0 []
    _ = collect (aliasesOf rd fs) (walkDirLoop fs maxFiles (fs.dirs root) [root] 0 []) := by
        rw [hwalk]
    _ = indexDirLoop rd fs maxFiles (fs.dirs root) [root] 0 [] :=
        (indexDirLoop_eq rd fs maxFiles _ [root] 0 []).symm

end VgiSymbols
