import VgiSymbols.Basic.Table
import VgiSymbols.Core.Module
import Mathlib.Data.Finset.Insert

set_option autoImplicit false

/-! # Local symbol sources and the source registry

A `dir` or `glob` source is indexed on first use: every file it lists is probed, and the
registry keeps, for each alias, the first file (in source order) that answers to it.
The index is lazy: a source that was indexed once is not walked again.
-/

namespace VgiSymbols

open Unwind

/-! ## The file system -/

/-- `U+FFFD`. -/
def replacementCharacter : Char := Char.ofNat 0xfffd

/-- A path: its text, where `U+FFFD` stands for what is not UTF-8, and the bytes of a path that is
not UTF-8. Different paths may have the same text. -/
structure PathBuf where
  text : String
  bytes : Option Bytes
  replaced : bytes.isSome = true → replacementCharacter ∈ text.toList
  deriving DecidableEq, Repr

/-- `PathBuf::from`: the path that a text names. -/
@[coe] def PathBuf.ofStr (text : String) : PathBuf := ⟨text, none, fun h => by cases h⟩

instance : Coe String PathBuf := ⟨PathBuf.ofStr⟩

/-- `Path::to_string_lossy`. -/
def toStringLossy (path : PathBuf) : String := path.text

@[simp] theorem toStringLossy_ofStr (text : String) : toStringLossy text = text := rfl

@[simp] theorem PathBuf.ofStr_inj {text text' : String} :
    (text : PathBuf) = text' ↔ text = text' := by
  simp [ofStr]

/-- `Path::file_name`: the last component, unless it is `..`, as text. -/
def fileName (path : PathBuf) : Option String :=
  -- What is not UTF-8 is replaced between the separators.
  let components := ((toStringLossy path).toList.splitOn '/').filter fun c => c ≠ [] ∧ c ≠ ['.']
  -- `a/.` has the name `a`, and `a/..` has none.
  match components.getLast? with
  | some c => if c = ['.', '.'] then none else some (String.ofList c)
  | none => none

inductive FileType where
  | dir
  | file
  | other
  deriving DecidableEq, Repr

/-- An entry of a directory listing; its type is absent when it cannot be read. -/
structure DirEntry where
  path : PathBuf
  fileType : Option FileType
  deriving DecidableEq, Repr

/-- The subdirectories a listing names. Symbolic links are of type `other`. -/
def subdirs : Option (List DirEntry) → List PathBuf
  | none => []
  | some entries => (entries.filter fun e => e.fileType = some .dir).map DirEntry.path

/-- What the worker can see of the file system. Listings hold the entries that could be read,
in listing order. Directory trees are finite: `dirs p` bounds the number of directories at and
below `p`. A path that can be mapped is a file, and has a last component. -/
structure FileSystem where
  readDir : PathBuf → Option (List DirEntry)
  isFile : PathBuf → Bool
  isDir : PathBuf → Bool
  mapFile : PathBuf → Option Bytes
  read : PathBuf → Option Bytes
  glob : String → Option (List PathBuf)
  dirs : PathBuf → Nat
  dirs_lt : ∀ p, ((subdirs (readDir p)).map dirs).sum < dirs p
  fileName_of_map : ∀ p data, mapFile p = some data → ∃ name, fileName p = some name

/-- A file reads as it was mapped when it was indexed. -/
def FileSystem.Unchanged (fs : FileSystem) : Prop :=
  ∀ p data, fs.mapFile p = some data → fs.read p = some data

/-! ## Indexing a source -/

/-- One indexed file: the aliases it can be looked up by, and its path. -/
structure Indexed where
  aliases : List String
  path : PathBuf
  deriving DecidableEq, Repr

/-- Map a file and derive its aliases; nothing if it is not a debug file. -/
def aliasesOf (rd : Readers) (fs : FileSystem) (path : PathBuf) : Unwind (Option Indexed) :=
  match fs.mapFile path with
  | none => .returned none
  | some data => do
      match ← probeIdentity rd data with
      | .ok identity => return some ⟨identity.aliases, path⟩
      | .error _ => return none

/-- The entries of one directory: subdirectories are pushed on the stack, files are probed.
`.error out` is the early return at the file cap. -/
def indexEntries (rd : Readers) (fs : FileSystem) (maxFiles : Nat) :
    List DirEntry → List PathBuf → Nat → List Indexed →
      Unwind (Except (List Indexed) (List PathBuf × Nat × List Indexed))
  | [], stack, visited, out => .returned (.ok (stack, visited, out))
  | entry :: rest, stack, visited, out =>
      match entry.fileType with
      | some .dir => indexEntries rd fs maxFiles rest (entry.path :: stack) visited out
      | some .file =>
          -- The file that goes over the cap ends the walk before it is probed.
          if maxFiles < visited + 1 then .returned (.error out)
          else do
            let ix ← aliasesOf rd fs entry.path
            indexEntries rd fs maxFiles rest stack (visited + 1) (out ++ ix.toList)
      -- Links, other types, and entries whose type cannot be read.
      | _ => indexEntries rd fs maxFiles rest stack visited out

/-- The root of a `dir` source may itself be a file. -/
def probeUnlisted (rd : Readers) (fs : FileSystem) (dir : PathBuf) : Unwind (Option Indexed) :=
  if fs.isFile dir then aliasesOf rd fs dir else .returned none

/-- The walk over the stack of directories, the next one first. One directory is popped for
each unit of fuel. -/
def indexDirLoop (rd : Readers) (fs : FileSystem) (maxFiles : Nat) :
    Nat → List PathBuf → Nat → List Indexed → Unwind (List Indexed)
  | 0, _, _, out => .returned out
  | _ + 1, [], _, out => .returned out
  | fuel + 1, dir :: stack, visited, out => do
      match fs.readDir dir with
      | none =>
          let ix ← probeUnlisted rd fs dir
          indexDirLoop rd fs maxFiles fuel stack visited (out ++ ix.toList)
      | some entries =>
          match ← indexEntries rd fs maxFiles entries stack visited out with
          | .error out => return out
          | .ok (stack, visited, out) => indexDirLoop rd fs maxFiles fuel stack visited out

/-- Recursively index a directory. The fuel is enough (`indexDir_fuel`). -/
def indexDir (rd : Readers) (fs : FileSystem) (root : PathBuf) (maxFiles : Nat) :
    Unwind (List Indexed) :=
  indexDirLoop rd fs maxFiles (fs.dirs root) [root] 0 []

/-- The characters of a brace group up to its closing brace, and what follows it. -/
def takeGroup : Nat → List Char → List Char × List Char
  | _, [] => ([], [])
  | depth, gc :: cs =>
      if gc = '{' then
        let r := takeGroup (depth + 1) cs
        (gc :: r.1, r.2)
      else if gc = '}' then
        if depth = 1 then ([], cs)
        else
          let r := takeGroup (depth - 1) cs
          (gc :: r.1, r.2)
      else
        let r := takeGroup depth cs
        (gc :: r.1, r.2)

theorem length_takeGroup_le (depth : Nat) (cs : List Char) :
    (takeGroup depth cs).2.length ≤ cs.length := by
  induction cs generalizing depth with
  | nil => exact Nat.le_refl _
  | cons gc cs ih =>
      have h1 := ih (depth + 1)
      have h2 := ih (depth - 1)
      have h3 := ih depth
      simp only [takeGroup, List.length_cons]
      split_ifs <;> simp only <;> omega

/-- Expand the brace groups of the rest of a pattern behind the prefixes found so far. -/
def expandBracesFrom (results : List String) (cs : List Char) : List String :=
  match cs with
  | [] => results
  | c :: cs =>
      if c = '{' then
        -- A group that is not closed goes on to the end of the pattern.
        let group := takeGroup 1 cs
        let alts := (group.1.splitOn ',').map String.ofList
        expandBracesFrom (results.flatMap fun pre => alts.map fun alt => pre ++ alt) group.2
      else expandBracesFrom (results.map fun r => r.push c) cs
termination_by cs.length
decreasing_by
  · have := length_takeGroup_le 1 cs
    simp only [List.length_cons]
    omega
  · simp

/-- Expand brace alternations into concrete patterns. -/
def expandBraces (pattern : String) : List String := expandBracesFrom [""] pattern.toList

/-- The matches of one concrete pattern. -/
def indexMatches (rd : Readers) (fs : FileSystem) (maxFiles : Nat) :
    List PathBuf → Nat → List Indexed → Unwind (Except (List Indexed) (Nat × List Indexed))
  | [], visited, out => .returned (.ok (visited, out))
  | entry :: rest, visited, out =>
      -- Matches are not asked for their type: links to files are probed here.
      if fs.isDir entry then indexMatches rd fs maxFiles rest visited out
      else if maxFiles < visited + 1 then .returned (.error out)
      else do
        let ix ← aliasesOf rd fs entry
        indexMatches rd fs maxFiles rest (visited + 1) (out ++ ix.toList)

def indexPatterns (rd : Readers) (fs : FileSystem) (maxFiles : Nat) :
    List String → Nat → List Indexed → Unwind (List Indexed)
  | [], _, out => .returned out
  | pattern :: rest, visited, out =>
      match fs.glob pattern with
      | none => indexPatterns rd fs maxFiles rest visited out
      | some paths => do
          match ← indexMatches rd fs maxFiles paths visited out with
          | .error out => return out
          | .ok (visited, out) => indexPatterns rd fs maxFiles rest visited out

/-- Expand a glob and index every match. -/
def indexGlob (rd : Readers) (fs : FileSystem) (pattern : String) (maxFiles : Nat) :
    Unwind (List Indexed) :=
  indexPatterns rd fs maxFiles (expandBraces pattern) 0 []

/-! ## Source specs -/

/-- Where a debug file was located. -/
inductive Origin where
  | dir (path : String)
  | glob (matchedPath : String)
  | debuginfod (url : String)
  | s3 (bucket key : String)
  | http (url : String)
  | inline
  deriving DecidableEq, Repr

/-- The label of an origin in the `origin` column of `cache_status`. -/
def Origin.label : Origin → String
  | .dir path => "dir:" ++ path
  | .glob matchedPath => "glob:" ++ matchedPath
  | .debuginfod url => "debuginfod:" ++ url
  | .s3 bucket key => "s3:" ++ bucket ++ "/" ++ key
  | .http url => "http:" ++ url
  | .inline => "inline"

/-- The text of the path of a local file. -/
def Origin.path : Origin → Option String
  | .dir path | .glob path => some path
  | .debuginfod _ | .s3 _ _ | .http _ | .inline => none

/-- A registered symbol source. -/
structure SourceSpec where
  sourceId : String
  kind : String
  path : Option String
  url : Option String
  bucket : Option String
  enabled : Bool
  egress : Bool
  secret : Option String
  deriving DecidableEq, Repr

/-- An enabled `dir` or `glob` source. -/
def SourceSpec.isLocal (s : SourceSpec) : Bool :=
  s.enabled && (s.kind == "dir" || s.kind == "glob")

def maxIndexFiles : Nat := 1000000

/-- The files a source lists, with their aliases. A source without a path lists none. -/
def SourceSpec.list (rd : Readers) (fs : FileSystem) (s : SourceSpec) : Unwind (List Indexed) :=
  match s.path with
  | none => .returned []
  | some p =>
      if s.kind = "glob" then indexGlob rd fs p maxIndexFiles
      else indexDir rd fs p maxIndexFiles

/-- A located debug file, ready to parse. -/
structure Located where
  data : Bytes
  name : String
  origin : Origin
  deriving DecidableEq, Repr

/-! ## The registry -/

/-- The ordered sources and the lazily built index: for each alias a path, and whether it came
from a glob. -/
structure SourceRegistry where
  sources : List SourceSpec
  nextId : UInt64
  index : Table String (PathBuf × Bool)
  indexed : Finset String

/-- White space as `str::trim` sees it. -/
def isWhitespace (c : Char) : Bool :=
  let n := c.toNat
  (9 ≤ n && n ≤ 13) || n == 0x20 || n == 0x85 || n == 0xa0 || n == 0x1680
    || (0x2000 ≤ n && n ≤ 0x200a) || n == 0x2028 || n == 0x2029 || n == 0x202f || n == 0x205f
    || n == 0x3000

def trim (s : String) : String :=
  String.ofList (((s.toList.dropWhile isWhitespace).reverse.dropWhile isWhitespace).reverse)

/-- `str::parse::<u64>`: decimal digits behind an optional plus sign, without overflow. -/
def parseU64 (cs : List Char) : Option UInt64 :=
  let digits := match cs with
    | '+' :: rest => rest
    | _ => cs
  if digits ≠ [] ∧ digits.all Char.isDigit then
    let n := digits.foldl (fun n c => n * 10 + (c.toNat - 48)) 0
    if n < 2 ^ 64 then some (UInt64.ofNat n) else none
  else none

/-- The number of a source id of the form `src<N>`. -/
def sourceNumber (id : String) : Option UInt64 :=
  match id.toList with
  | 's' :: 'r' :: 'c' :: n => parseU64 n
  | _ => none

namespace SourceRegistry

def new : SourceRegistry := ⟨[], 0, ∅, ∅⟩

/-- Restore the source list at cold start; the index is rebuilt lazily. The counter stays
ahead of the restored ids, with the wrapping addition of a release build. -/
def restore (reg : SourceRegistry) (specs : List SourceSpec) : SourceRegistry :=
  let nextId := specs.foldl (fun next s =>
    match sourceNumber s.sourceId with
    | some n => max next (n + 1)
    | none => next) reg.nextId
  { sources := specs, nextId := nextId, index := ∅, indexed := ∅ }

/-- Register a new source, or say which locator is missing. -/
def add (reg : SourceRegistry) (kind : String) (path url bucket : Option String)
    (enabled : Option Bool) (secret : Option String) : Except String String × SourceRegistry :=
  let kind := asciiLower (trim kind)
  let egress := kind == "debuginfod" || kind == "s3" || kind == "http"
  let missing : Option String :=
    if kind = "dir" ∨ kind = "glob" then
      if path.getD "" = "" then some ("source kind '" ++ kind ++ "' requires path =>") else none
    else if kind = "debuginfod" ∨ kind = "http" then
      if url.getD "" = "" then some ("source kind '" ++ kind ++ "' requires url =>") else none
    else if kind = "s3" then
      if bucket.getD "" = "" then some "source kind 's3' requires bucket =>" else none
    else if kind = "inline" then none
    else some ("unknown source kind '" ++ kind ++ "'")
  match missing with
  | some e => (.error e, reg)
  | none =>
      -- A source that reaches out of the machine is off unless the call enables it.
      let sourceId := "src" ++ toString reg.nextId.toNat
      let spec : SourceSpec :=
        { sourceId, kind, path, url, bucket, enabled := enabled.getD (!egress), egress, secret }
      (.ok sourceId, { reg with sources := reg.sources ++ [spec], nextId := reg.nextId + 1 })

/-- Drop a source by id; the index may have pointed into it and is rebuilt lazily. -/
def dropSource (reg : SourceRegistry) (sourceId : String) : Bool × SourceRegistry :=
  let sources := reg.sources.filter fun s => s.sourceId ≠ sourceId
  if sources.length ≠ reg.sources.length then
    (true, { reg with sources := sources, index := ∅, indexed := ∅ })
  else (false, { reg with sources := sources })

/-- The enabled local sources that are not indexed yet. -/
def pending (reg : SourceRegistry) : List SourceSpec :=
  reg.sources.filter fun s => s.isLocal && decide (s.sourceId ∉ reg.indexed)

/-- The index entries of a listing. -/
def indexRows (s : SourceSpec) (files : List Indexed) :
    List (List String × (PathBuf × Bool)) :=
  files.map fun ix => (ix.aliases, (ix.path, s.kind == "glob"))

/-- Index sources one after the other. A panic of a probe leaves the sources before it
indexed. -/
def indexPending (rd : Readers) (fs : FileSystem) :
    List SourceSpec → SourceRegistry → Unwind Unit × SourceRegistry
  | [], reg => (.returned (), reg)
  | spec :: rest, reg =>
      match spec.list rd fs with
      | .panicked => (.panicked, reg)
      | .returned files =>
          indexPending rd fs rest
            { reg with
              index := reg.index.orInsertAll (indexRows spec files)
              indexed := insert spec.sourceId reg.indexed }

/-- Ensure every enabled local source has been indexed. -/
def ensureIndexed (rd : Readers) (fs : FileSystem) (reg : SourceRegistry) :
    Unwind Unit × SourceRegistry :=
  indexPending rd fs reg.pending reg

/-- The located file of an index entry, if it can still be read. -/
def readLocated (fs : FileSystem) (canon : String) (entry : PathBuf × Bool) : Option Located :=
  (fs.read entry.1).map fun data =>
    { data
      name := (fileName entry.1).getD canon
      origin := if entry.2 then .glob (toStringLossy entry.1) else .dir (toStringLossy entry.1) }

/-- Locate a debug file for a token. -/
def locate (rd : Readers) (fs : FileSystem) (reg : SourceRegistry) (token : String) :
    Unwind (Option Located) × SourceRegistry :=
  match reg.ensureIndexed rd fs with
  | (.panicked, reg) => (.panicked, reg)
  | (.returned (), reg) =>
      let canon := canonicalToken token
      (.returned ((reg.index.lookup canon).bind (readLocated fs canon)), reg)

end SourceRegistry

/-! ## A stand-in file system

One directory of files, for concrete inputs. -/

namespace StandIn

/-- The directory `root` with the given files in it, listed in the given order. -/
def directory (root : PathBuf) (files : List (PathBuf × Bytes)) : FileSystem where
  readDir p := if p = root then some (files.map fun f => ⟨f.1, some .file⟩) else none
  isFile p := (files.lookup p).isSome
  isDir p := p == root
  mapFile p := if (fileName p).isSome then files.lookup p else none
  read p := files.lookup p
  glob _ := none
  dirs _ := 1
  dirs_lt p := by
    have h : subdirs (if p = root then some (files.map fun f => ⟨f.1, some .file⟩) else none)
        = [] := by
      split
      · simp only [subdirs, List.map_eq_nil_iff, List.filter_eq_nil_iff, List.mem_map]
        rintro _ ⟨f, -, rfl⟩
        simp
      · rfl
    rw [h]
    decide
  fileName_of_map p data h := by
    split at h
    · next hname => exact Option.isSome_iff_exists.mp hname
    · cases h

theorem directory_unchanged (root : PathBuf) (files : List (PathBuf × Bytes)) :
    (directory root files).Unchanged := by
  intro p data h
  have h' : (if (fileName p).isSome then files.lookup p else none) = some data := h
  split at h'
  · exact h'
  · cases h'

/-- The `dir` source of a path. -/
def dirSource (sourceId path : String) : SourceSpec :=
  { sourceId, kind := "dir", path := some path, url := none, bucket := none, enabled := true,
    egress := false, secret := none }

/-- The registry with the directory `d` for its only source. -/
def oneDirectory : SourceRegistry :=
  (SourceRegistry.new.add "dir" (some "d") none none none none).2

/-- A build-id of 16 equal bytes, and the token of its image. -/
def buildId (b : UInt8) : Bytes := List.replicate 16 b

def token (b : UInt8) : String := hexEncode (buildId b)

/-- The directory `d` with a good image `d/a` and an image `d/b` that does not parse. -/
def goodAndBad : FileSystem :=
  directory "d" [("d/a", 1 :: buildId 0x11), ("d/b", 2 :: buildId 0x22)]

/-- The directory `d` with a good image `d/a` and a file `d/b` of the given tag. -/
def goodAndHostile (tag : UInt8) : FileSystem :=
  directory "d" [("d/a", 1 :: buildId 0x11), ("d/b", tag :: buildId 0x22)]

/-- The directory `d` with two good images whose build-ids share their first 16 bytes, and so
have the same debug-id. -/
def sharedPrefix : FileSystem :=
  directory "d" [("d/a", 1 :: buildId 0x11 ++ [0xaa]), ("d/b", 1 :: buildId 0x11 ++ [0xbb])]

/-- The directory `d` with the second image of `sharedPrefix` only. -/
def secondOfSharedPrefix : FileSystem :=
  directory "d" [("d/b", 1 :: buildId 0x11 ++ [0xbb])]

/-- The raw build-id of an image of `sharedPrefix`. -/
def rawToken (last : UInt8) : String := hexEncode (buildId 0x11 ++ [last])

end StandIn

end VgiSymbols
