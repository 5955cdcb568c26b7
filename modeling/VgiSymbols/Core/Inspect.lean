import VgiSymbols.Core.State

set_option autoImplicit false

/-! # The read-only surface

What the worker tells of itself without changing its state: the registered sources, the known
modules, and the triage view of a debug file that it is handed or pointed to.
-/

namespace VgiSymbols

/-- Inspect a debug file: parse it, and describe the module. -/
def inspect (rd : Readers) (data : Bytes) (name : String) (limits : Limits) :
    SymResult ModuleInfo := do
  let module ← ParsedModule.parse rd data name limits
  return module.info

namespace ParsedModule

variable {rd : Readers} {data : Bytes} {name : String} {limits : Limits} {m : ParsedModule}

/-- A parsed module has the name it was parsed under. -/
theorem name_of_parse (h : parse rd data name limits = .ok m) : m.name = name := by
  cases parse_eq_ok.mp h with
  | pdb hcap hpdb hm =>
      cases hm
      rfl
  | dwarf hcap hpdb hm =>
      cases hm
      rfl

/-- The triage view of a debug file does not depend on its name. -/
theorem inspect_of_parse (h : parse rd data name limits = .ok m) (name' : String) :
    inspect rd data name' limits = .ok m.info := by
  cases parse_eq_ok.mp h with
  | pdb hcap hpdb hm => rw [inspect, parse_eq_ok.mpr (.pdb hcap hpdb (hm.rename name'))]; rfl
  | dwarf hcap hpdb hm => rw [inspect, parse_eq_ok.mpr (.dwarf hcap hpdb (hm.rename name'))]; rfl

theorem debugId_info (m : ParsedModule) : m.info.debugId = some m.debugId := by
  cases m <;> rfl

theorem byteSize_info (m : ParsedModule) : m.info.byteSize = m.residentBytes.toInt64 := by
  cases m <;> exact (Int64.toInt64_toUInt64 _).symm

end ParsedModule

/-- The location of a source, for the listing. -/
def SourceSpec.location (s : SourceSpec) : String := ((s.path.or s.url).or s.bucket).getD ""

namespace SymbolsState

/-- The ordered source list. -/
def listSources (s : SymbolsState) : List SourceSpec := s.sources.sources

/-- Inspect a debug file given inline. -/
def moduleInfoBlob (rd : Readers) (s : SymbolsState) (data : Bytes) : SymResult ModuleInfo :=
  inspect rd data "<blob>" s.limits

/-- Inspect a debug file at a path. -/
def moduleInfoPath (rd : Readers) (fs : FileSystem) (s : SymbolsState) (path : String) :
    SymResult ModuleInfo :=
  match fs.read path with
  -- The text of the error of the operating system would follow.
  | none => .error ⟨.truncated, "read " ++ path ++ ": "⟩
  | some data => inspect rd data ((fileName path).getD path) s.limits

/-- The resident and the manifest-only rows. -/
def cacheStatus (s : SymbolsState) : List SymbolCache.StatusRow := s.cache.status

/-- Module parses performed so far. -/
def parseCount (s : SymbolsState) : UInt64 := s.cache.parseCount

end SymbolsState

end VgiSymbols
