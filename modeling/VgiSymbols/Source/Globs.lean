import Mathlib.Data.List.Flatten
import VgiSymbols.Source.Ahead
import VgiSymbols.Source.Braces
import VgiSymbols.Source.Local

set_option autoImplicit false

/-! # Globs with groups of alternatives

Indexing a glob probes the matches of its expanded patterns, pattern by pattern, up to the cap on
files (`indexGlob_eq`). An expanded pattern has no braces left, so it expands to itself
(`expandBraces_of_mem`). While the cap is not reached, a source with groups lists what one source
for each of its expanded patterns lists (`rows_glob`).
-/

namespace VgiSymbols

open Unwind Choices

variable {rd : Readers} {fs : FileSystem}

/-! ## Expanded patterns -/

theorem expandBraces_of_noBraces {q : String} (h : NoBraces q.toList) : expandBraces q = [q] := by
  have hexpand := expandBracesFrom_literal h [""] []
  rw [List.append_nil, List.map_singleton, String.ofList_toList, String.empty_append] at hexpand
  rw [expandBraces, hexpand, expandBracesFrom]

theorem noBraces_append {cs ds : List Char} (h : NoBraces cs) (h' : NoBraces ds) :
    NoBraces (cs ++ ds) :=
  ⟨fun hmem => (List.mem_append.mp hmem).elim h.1 h'.1,
    fun hmem => (List.mem_append.mp hmem).elim h.2 h'.2⟩

theorem noBraces_getD {alts : List (List Char)} (h : ∀ alt ∈ alts, NoBraces alt ∧ ',' ∉ alt)
    (i : Nat) : NoBraces (alts.getD i []) := by
  rw [List.getD_eq_getElem?_getD]
  cases hi : alts[i]? with
  | none => exact ⟨List.not_mem_nil, List.not_mem_nil⟩
  | some alt => exact (h alt (List.mem_of_getElem? hi)).1

/-- Whatever is chosen, no brace is left. -/
theorem Segment.noBraces_pick (p : List Segment) (v : List Nat) :
    NoBraces (Segment.pick p v).toList := by
  induction p generalizing v with
  | nil => exact ⟨List.not_mem_nil, List.not_mem_nil⟩
  | cons s p ih =>
      cases s with
      | literal text plain =>
          rw [Segment.pick, String.toList_append, String.toList_ofList]
          exact noBraces_append plain (ih v)
      | group alts nonempty plain =>
          cases v with
          | nil => exact ⟨List.not_mem_nil, List.not_mem_nil⟩
          | cons i v =>
              rw [Segment.pick, String.toList_append, String.toList_ofList]
              exact noBraces_append (noBraces_getD plain i) (ih v)

/-- An expanded pattern expands to itself. -/
theorem expandBraces_of_mem {p : List Segment} {q : String}
    (h : q ∈ expandBraces (String.ofList (Segment.render p))) : expandBraces q = [q] := by
  rw [expandBraces_render] at h
  obtain ⟨v, -, rfl⟩ := List.mem_map.mp h
  exact expandBraces_of_noBraces (Segment.noBraces_pick p v)

/-! ## The matches -/

/-- The matches of a pattern that are probed. -/
def FileSystem.filesOf (fs : FileSystem) (entries : List PathBuf) : List PathBuf :=
  entries.filter fun path => !fs.isDir path

theorem filesOf_cons_of_isDir {entry : PathBuf} (h : fs.isDir entry = true)
    (rest : List PathBuf) : fs.filesOf (entry :: rest) = fs.filesOf rest := by
  simp [FileSystem.filesOf, h]

theorem filesOf_cons {entry : PathBuf} (h : fs.isDir entry = false) (rest : List PathBuf) :
    fs.filesOf (entry :: rest) = entry :: fs.filesOf rest := by
  simp [FileSystem.filesOf, h]

/-- The files that concrete patterns match, in order. -/
def FileSystem.matched (fs : FileSystem) (patterns : List String) : List PathBuf :=
  patterns.flatMap fun q => fs.filesOf ((fs.glob q).getD [])

theorem matched_cons (q : String) (patterns : List String) :
    fs.matched (q :: patterns) = fs.filesOf ((fs.glob q).getD []) ++ fs.matched patterns := rfl

theorem walkMatches_eq {maxFiles visited : Nat} (hvisited : visited ≤ maxFiles)
    (entries paths : List PathBuf) :
    walkMatches fs maxFiles entries visited paths =
      if visited + (fs.filesOf entries).length ≤ maxFiles then
        .ok (visited + (fs.filesOf entries).length, paths ++ fs.filesOf entries)
      else .error (paths ++ (fs.filesOf entries).take (maxFiles - visited)) := by
  induction entries generalizing visited paths with
  | nil => simp [walkMatches, FileSystem.filesOf, hvisited]
  | cons entry rest ih =>
      rw [walkMatches]
      by_cases hdir : fs.isDir entry = true
      · rw [if_pos hdir, ih hvisited, filesOf_cons_of_isDir hdir]
      · rw [if_neg hdir, filesOf_cons (Bool.eq_false_of_not_eq_true hdir), List.length_cons]
        by_cases hcap : maxFiles < visited + 1
        · -- the cap is reached in front of this match
          rw [if_pos hcap, if_neg (by omega), show maxFiles - visited = 0 by omega, List.take_zero,
            List.append_nil]
        · have htake : (entry :: fs.filesOf rest).take (maxFiles - visited) =
              entry :: (fs.filesOf rest).take (maxFiles - (visited + 1)) := by
            rw [show maxFiles - visited = maxFiles - (visited + 1) + 1 by omega,
              List.take_succ_cons]
          rw [if_neg hcap, ih (by omega), htake, Nat.add_right_comm, Nat.add_assoc]
          simp only [List.append_assoc, List.singleton_append]

theorem walkPatterns_eq {maxFiles visited : Nat} (hvisited : visited ≤ maxFiles)
    (patterns : List String) (paths : List PathBuf) :
    walkPatterns fs maxFiles patterns visited paths =
      paths ++ (fs.matched patterns).take (maxFiles - visited) := by
  induction patterns generalizing visited paths with
  | nil => simp [walkPatterns, FileSystem.matched]
  | cons q rest ih =>
      rw [walkPatterns, matched_cons]
      cases fs.glob q with
      | none => exact ih hvisited paths
      | some entries =>
          simp only [Option.getD_some]
          rw [walkMatches_eq hvisited]
          by_cases hcap : visited + (fs.filesOf entries).length ≤ maxFiles
          · rw [if_pos hcap]
            simp only
            rw [ih hcap, List.append_assoc, List.take_append,
              List.take_of_length_le (by omega : (fs.filesOf entries).length ≤ _), Nat.sub_add_eq]
          · rw [if_neg hcap, List.take_append_of_le_length (by omega)]

/-- **Indexing a glob** probes the matches of its expanded patterns in order, up to the cap. -/
theorem indexGlob_eq (pattern : String) (maxFiles : Nat) :
    indexGlob rd fs pattern maxFiles =
      collect (aliasesOf rd fs) ((fs.matched (expandBraces pattern)).take maxFiles) := by
  calc indexGlob rd fs pattern maxFiles
      = collect (aliasesOf rd fs) (walkPatterns fs maxFiles (expandBraces pattern) 0 []) :=
        indexPatterns_eq rd fs maxFiles _ 0 []
    _ = collect (aliasesOf rd fs) ((fs.matched (expandBraces pattern)).take maxFiles) := by
        rw [walkPatterns_eq (Nat.zero_le _), List.nil_append, Nat.sub_zero]

/-! ## The rows of a glob -/

/-- Probing unwinds on no file, and the matches of the pattern do not reach the cap. -/
structure FileSystem.Fits (rd : Readers) (fs : FileSystem) (pattern : String) : Prop where
  returns : ∀ path, (aliasesOf rd fs path).Returns
  cap : (fs.matched (expandBraces pattern)).length ≤ maxIndexFiles

/-- A glob source without an id. -/
def globSource (enabled : Bool) (pattern : String) : SourceSpec :=
  { sourceId := "", kind := "glob", path := some pattern, url := none, bucket := none, enabled,
    egress := false, secret := none }

/-- What the matches of concrete patterns are indexed as. -/
def matchedRows (rd : Readers) (fs : FileSystem) (patterns : List String) :
    List (List String × (PathBuf × Bool)) :=
  ((fs.matched patterns).filterMap fun path => (aliasesOf rd fs path).catchUnwind.join).map
    fun ix => (ix.aliases, (ix.path, true))

theorem matchedRows_eq_flatMap (patterns : List String) :
    matchedRows rd fs patterns = patterns.flatMap fun q => matchedRows rd fs [q] := by
  simp [matchedRows, FileSystem.matched, List.filterMap_flatMap, List.map_flatMap]

theorem fileRows_globSource (hreturns : ∀ path, (aliasesOf rd fs path).Returns)
    {pattern : String} (hcap : (fs.matched (expandBraces pattern)).length ≤ maxIndexFiles) :
    fileRows rd fs [globSource true pattern] = matchedRows rd fs (expandBraces pattern) := by
  have hlist : (globSource true pattern).list rd fs =
      .returned ((fs.matched (expandBraces pattern)).filterMap fun path =>
        (aliasesOf rd fs path).catchUnwind.join) := by
    show indexGlob rd fs pattern maxIndexFiles = _
    rw [indexGlob_eq, List.take_of_length_le hcap]
    exact collect_eq_filterMap fun path _ => hreturns path
  have hrows : fileRows rd fs [globSource true pattern] =
      SourceRegistry.indexRows (globSource true pattern)
        (listing rd fs (globSource true pattern)) := List.append_nil _
  rw [hrows, listing_eq hlist]
  rfl

theorem fileRows_globSource_disabled (pattern : String) :
    fileRows rd fs [globSource false pattern] = [] := rfl

/-- **A glob lists what its expanded patterns list.** -/
theorem rows_glob {p : List Segment} (h : fs.Fits rd (String.ofList (Segment.render p)))
    (enabled : Bool) :
    fileRows rd fs [globSource enabled (String.ofList (Segment.render p))] =
      (expandBraces (String.ofList (Segment.render p))).flatMap fun q =>
        fileRows rd fs [globSource enabled q] := by
  cases enabled with
  | false => simp [fileRows_globSource_disabled]
  | true =>
      rw [fileRows_globSource h.returns h.cap, matchedRows_eq_flatMap]
      apply List.flatMap_congr
      intro q hq
      have hself : expandBraces q = [q] := expandBraces_of_mem hq
      have hsub : (fs.matched [q]).Sublist
          (fs.matched (expandBraces (String.ofList (Segment.render p)))) :=
        (List.singleton_sublist.mpr hq).flatMap _
      have hcap : (fs.matched (expandBraces q)).length ≤ maxIndexFiles := by
        rw [hself]
        exact hsub.length_le.trans h.cap
      rw [fileRows_globSource h.returns hcap, hself]

/-! ## Pending sources -/

namespace SourceRegistry

theorem fileRows_anonymous (s : SourceSpec) :
    fileRows rd fs [s.anonymous] = fileRows rd fs [s] := by
  by_cases h : s.isLocal = true
  · have h' : s.anonymous.isLocal = true := h
    rw [fileRows, fileRows, List.filter_cons_of_pos h, List.filter_cons_of_pos h']
    rfl
  · have h' : ¬ s.anonymous.isLocal = true := h
    rw [fileRows, fileRows, List.filter_cons_of_neg h, List.filter_cons_of_neg h']

theorem fileRows_eq_of_anonymous {s s' : SourceSpec} (h : s.anonymous = s'.anonymous) :
    fileRows rd fs [s] = fileRows rd fs [s'] := by
  rw [← fileRows_anonymous, h, fileRows_anonymous]

/-- A new source waits behind those that are pending. -/
theorem fileRows_pending_append {reg : SourceRegistry} {s : SourceSpec}
    (hfresh : s.sourceId ∉ reg.indexed) (nextId : UInt64) :
    fileRows rd fs
        ({ reg with sources := reg.sources ++ [s], nextId := nextId } : SourceRegistry).pending
      = fileRows rd fs reg.pending ++ fileRows rd fs [s] := by
  have hpending : ({ reg with sources := reg.sources ++ [s], nextId := nextId } :
      SourceRegistry).pending = reg.pending ++ [s].filter SourceSpec.isLocal := by
    rw [pending, List.filter_append]
    refine congrArg (reg.pending ++ ·) (List.filter_congr fun s' hs' => ?_)
    rw [List.mem_singleton.mp hs', decide_eq_true hfresh, Bool.and_true]
  have hlocal : fileRows rd fs ([s].filter SourceSpec.isLocal) = fileRows rd fs [s] := by
    simp only [fileRows, List.filter_filter, Bool.and_self]
  rw [hpending, fileRows_append, hlocal]

/-- A pattern that is not empty is registered. -/
theorem add_glob (reg : SourceRegistry) {kind : String} (hkind : asciiLower (trim kind) = "glob")
    {q : String} (hq : q ≠ "") (url bucket : Option String) (enabled : Option Bool)
    (secret : Option String) :
    ∃ s : SourceSpec, s.sourceId = numberedId reg.nextId.toNat ∧
      s.anonymous = globSource (enabled.getD true) q ∧
      (reg.add kind (some q) url bucket enabled secret).2
        = { reg with sources := reg.sources ++ [s], nextId := reg.nextId + 1 } := by
  unfold add
  simp only [hkind, Option.getD_some, hq, if_false, or_true, if_true]
  exact ⟨_, rfl, rfl, rfl⟩

theorem index_ensureIndexed {reg : SourceRegistry} (h : ListsReturn rd fs reg.pending) :
    (reg.ensureIndexed rd fs).2.index = reg.index.orInsertAll (fileRows rd fs reg.pending) := by
  have hlocal : reg.pending.filter SourceSpec.isLocal = reg.pending :=
    List.filter_eq_self.mpr fun s hs => (isLocal_of_mem_pending hs).2
  rw [ensureIndexed_eq h, fileRows, hlocal]

end SourceRegistry

end VgiSymbols
