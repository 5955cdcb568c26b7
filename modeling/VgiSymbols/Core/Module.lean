import VgiSymbols.Core.Dwarf

set_option autoImplicit false

/-! # PDB modules and parsed modules

`ParsedModule` is the artifact the cache holds: a DWARF or a PDB module. Its `parse`,
`resolve` and `functionName` are the guarded entry points: a panic of a reader below them
becomes an error, an error row or an absent name.
-/

namespace VgiSymbols

open Unwind

/-! ## PDB modules -/

/-- A parsed PDB. -/
structure PdbModule where
  data : PdbData
  identity : Identity
  name : String
  byteSize : Int64
  symbolCount : Int64

namespace PdbModule

/-- The number of functions, counted in a temporary context; 0 without one. -/
def countSymbols (data : PdbData) : Unwind Int64 := do
  match ← data.makeContext with
  | .ok c => return Int64.ofNat (← c.functionCount)
  | .error _ => return 0

/-- Parse a PDB. -/
def parse (rd : Readers) (data : Bytes) (name : String) : Parse PdbModule := do
  let byteSize := Int64.ofNat data.length
  let pdb ← openPdb rd data
  let identity ← pdbStreamIdentity pdb
  let contextData ← pdb.contextData.mapErr fun e => ⟨.truncated, s!"pdb data: {e}"⟩
  let symbolCount ← infallible (countSymbols contextData)
  return { data := contextData, identity, name, byteSize, symbolCount }

def residentBytes (m : PdbModule) : UInt64 := m.byteSize.toUInt64

/-- `u32::try_from`. -/
def toU32 (addr : UInt64) : Option UInt32 :=
  if addr.toNat < 2 ^ 32 then some (UInt32.ofNat addr.toNat) else none

def blankFrame (m : PdbModule) (status : ResolveStatus) : ResolvedFrame :=
  { inlineDepth := 0, isInline := false, function := none, functionRaw := none, file := none,
    line := none, column := none, module := some m.name,
    debugId := some m.identity.debugIdStr, status := status }

def errorFrame (m : PdbModule) (kind : ErrorKind) : ResolvedFrame :=
  m.blankFrame (.error kind)

/-- The innermost function name only (fast path). -/
def functionName (m : PdbModule) (addr : UInt64) : Unwind (Option String) :=
  match toU32 addr with
  | none => .returned none
  | some probe => do
      match ← m.data.makeContext with
      | .error _ => return none
      | .ok ctx =>
          match ← ctx.findFrames probe with
          | .ok (some frames) => return frames.head?.bind (·.function)
          | .ok none | .error _ => return none

/-- The rows of the frames from depth `i` on, of `n` in all. -/
def frameRows (m : PdbModule) (n : Nat) : Nat → List PdbFrame → List ResolvedFrame
  | _, [] => []
  | i, frame :: rest =>
      { m.blankFrame .ok with
        inlineDepth := Int32.ofNat i
        isInline := decide (i + 1 < n)
        function := frame.function
        functionRaw := frame.function
        file := frame.file
        line := frame.line
        column := none } :: frameRows m n (i + 1) rest

/-- Resolve an RVA into inline-expanded rows, innermost first. -/
def resolve (m : PdbModule) (addr : UInt64) (limits : Limits) :
    Unwind (List ResolvedFrame) := do
  match ← m.data.makeContext with
  | .error _ => return [m.errorFrame .corruptLineProgram]
  | .ok ctx =>
      match toU32 addr with
      | none => return [m.blankFrame .noLine]
      | some probe =>
          match ← ctx.findFrames probe with
          | .ok none => return [m.blankFrame .noLine]
          | .error _ => return [m.errorFrame .corruptInlineTree]
          | .ok (some frames) =>
              let n := min frames.length limits.maxInlineDepth
              if n = 0 then return [m.blankFrame .noLine]
              else return frameRows m n 0 (frames.take n)

def info (m : PdbModule) : ModuleInfo :=
  { format := .pdb
    arch := m.identity.arch
    buildId := m.identity.rawBuildId
    debugId := some m.identity.debugIdStr
    codeId := m.identity.codeId
    hasDwarf := false
    hasPdb := true
    hasLineTable := true
    symbolCount := m.symbolCount
    fileCount := 0
    byteSize := m.byteSize
    imageBase := 0 }

/-- How a parse succeeds: what its calls return, and the module it makes of that. -/
inductive Parsed (rd : Readers) (data : Bytes) (name : String) : PdbModule → Prop where
  | intro {pdb : Pdb} {identity : Identity} {contextData : PdbData} {symbolCount : Int64}
      (hpdb : (openPdb rd data).run = .returned (.ok pdb))
      (hidentity : (pdbStreamIdentity pdb).run = .returned (.ok identity))
      (hdata : pdb.contextData = .returned (.ok contextData))
      (hcount : countSymbols contextData = .returned symbolCount) :
      Parsed rd data name
        { data := contextData, identity, name, byteSize := Int64.ofNat data.length, symbolCount }

section Parsed

variable {rd : Readers} {data : Bytes} {name : String} {m : PdbModule}

theorem parse_eq_ok : (PdbModule.parse rd data name).run = .returned (.ok m) ↔
    Parsed rd data name m := by
  constructor
  · intro h
    obtain ⟨pdb, hpdb, h⟩ := run_bind_eq_ok.mp h
    obtain ⟨identity, hidentity, h⟩ := run_bind_eq_ok.mp h
    obtain ⟨contextData, hdata, h⟩ := run_bind_eq_ok.mp h
    obtain ⟨symbolCount, hcount, h⟩ := run_bind_eq_ok.mp h
    cases h
    exact .intro hpdb hidentity (run_mapErr_eq_ok.mp hdata) (run_infallible_eq_ok.mp hcount)
  · rintro ⟨hpdb, hidentity, hdata, hcount⟩
    refine run_bind_eq_ok.mpr ⟨_, hpdb, ?_⟩
    refine run_bind_eq_ok.mpr ⟨_, hidentity, ?_⟩
    refine run_bind_eq_ok.mpr ⟨_, run_mapErr_eq_ok.mpr hdata, ?_⟩
    exact run_bind_eq_ok.mpr ⟨_, run_infallible_eq_ok.mpr hcount, rfl⟩

/-- The parse keeps the identity the probe derives. -/
theorem Parsed.identity_eq (h : Parsed rd data name m) :
    (pdbIdentity rd data).run = .returned (.ok m.identity) := by
  cases h with
  | intro hpdb hidentity => exact run_bind_eq_ok.mpr ⟨_, hpdb, hidentity⟩

/-- A parsed PDB accounts for the bytes of its file. -/
theorem Parsed.residentBytes_eq (h : Parsed rd data name m) :
    m.residentBytes = UInt64.ofNat data.length := by
  cases h
  rfl

/-- The file's name only names the module. -/
theorem Parsed.rename (h : Parsed rd data name m) (name' : String) :
    Parsed rd data name' { m with name := name' } := by
  obtain ⟨hpdb, hidentity, hdata, hcount⟩ := h
  exact .intro hpdb hidentity hdata hcount

end Parsed

end PdbModule

/-! ## Parsed modules -/

/-- A parsed, resident debug module. -/
inductive ParsedModule where
  | dwarf (m : DwarfModule)
  | pdb (m : PdbModule)

namespace ParsedModule

def identity : ParsedModule → Identity
  | dwarf m => m.identity
  | pdb m => m.identity

/-- The display name: the debug file's basename. -/
def name : ParsedModule → String
  | dwarf m => m.name
  | pdb m => m.name

/-- The footprint counted against the byte budget. -/
def residentBytes : ParsedModule → UInt64
  | dwarf m => m.residentBytes
  | pdb m => m.residentBytes

def info : ParsedModule → ModuleInfo
  | dwarf m => m.info
  | pdb m => m.info

/-- The debug-id a module is stored under. -/
def debugId (m : ParsedModule) : String := m.identity.debugIdStr

/-- Parse a whole debug file, guarded. -/
def parse (rd : Readers) (data : Bytes) (name : String) (limits : Limits) :
    SymResult ParsedModule :=
  if limits.maxParseBytes < UInt64.ofNat data.length then
    .error ⟨.allocCap, s!"debug file {data.length} bytes exceeds parse cap"⟩
  else
    let result :=
      if isPdb data then Except.map pdb <$> (PdbModule.parse rd data name).run
      else Except.map dwarf <$> (DwarfModule.parse rd data name limits).run
    match result.catchUnwind with
    | some r => r
    | none => .error ⟨.corruptLineProgram, "debug-info parser panicked on malformed input"⟩

/-- Resolve a module-relative address, guarded. -/
def resolve (rd : Readers) (m : ParsedModule) (addr : UInt64) (limits : Limits) :
    List ResolvedFrame :=
  let guarded := match m with
    | dwarf m => m.resolve rd addr limits
    | pdb m => m.resolve addr limits
  guarded.catchUnwind.getD
    [ResolvedFrame.error .corruptLineProgram (some m.identity.debugIdStr)]

/-- The innermost function name, guarded. -/
def functionName (rd : Readers) (m : ParsedModule) (addr : UInt64) : Option String :=
  let guarded := match m with
    | dwarf m => m.functionName rd addr
    | pdb m => m.functionName addr
  guarded.catchUnwind.getD none

/-- How a parse succeeds: the file is within the cap, and the parser of its format succeeds. -/
inductive Parsed (rd : Readers) (data : Bytes) (name : String) (limits : Limits) :
    ParsedModule → Prop where
  | pdb {m : PdbModule} (hcap : ¬ limits.maxParseBytes < UInt64.ofNat data.length)
      (hpdb : isPdb data = true) (hm : PdbModule.Parsed rd data name m) :
      Parsed rd data name limits (.pdb m)
  | dwarf {m : DwarfModule} (hcap : ¬ limits.maxParseBytes < UInt64.ofNat data.length)
      (hpdb : isPdb data = false) (hm : DwarfModule.Parsed rd data name limits m) :
      Parsed rd data name limits (.dwarf m)

section Parsed

variable {rd : Readers} {data : Bytes} {name : String} {limits : Limits} {m : ParsedModule}

theorem parse_eq_ok : parse rd data name limits = .ok m ↔ Parsed rd data name limits m := by
  constructor
  · intro h
    unfold parse at h
    split at h
    case isTrue => cases h
    case isFalse hcap =>
        simp only at h
        split at h
        case h_2 => cases h
        case h_1 r hr =>
            subst h
            rw [catchUnwind_eq_some] at hr
            by_cases hpdb : isPdb data = true
            · rw [if_pos hpdb] at hr
              obtain ⟨pm, hp, rfl⟩ := map_eq_returned_ok.mp hr
              exact .pdb hcap hpdb (PdbModule.parse_eq_ok.mp hp)
            · rw [if_neg hpdb] at hr
              obtain ⟨dm, hp, rfl⟩ := map_eq_returned_ok.mp hr
              exact .dwarf hcap (Bool.not_eq_true _ ▸ hpdb) (DwarfModule.parse_eq_ok.mp hp)
  · intro h
    unfold parse
    cases h with
    | pdb hcap hpdb hm =>
        rw [if_neg hcap, if_pos hpdb, PdbModule.parse_eq_ok.mpr hm]
        rfl
    | dwarf hcap hpdb hm =>
        rw [if_neg hcap, if_neg (by rw [hpdb]; decide), DwarfModule.parse_eq_ok.mpr hm]
        rfl

/-- **A parsed module has the identity its bytes probe to.** -/
theorem probeIdentity_of_parse (h : parse rd data name limits = .ok m) :
    probeIdentity rd data = .returned (.ok m.identity) := by
  -- Probe and parse take the same branch on the signature of the bytes.
  cases parse_eq_ok.mp h with
  | pdb hcap hpdb hm =>
      rw [probeIdentity, if_pos hpdb]
      exact hm.identity_eq
  | dwarf hcap hpdb hm =>
      rw [probeIdentity, if_neg (by rw [hpdb]; decide)]
      exact hm.identity_eq

/-- A parsed module accounts for no more bytes than the parse cap. -/
theorem residentBytes_le_of_parse (h : parse rd data name limits = .ok m) :
    m.residentBytes ≤ limits.maxParseBytes := by
  cases parse_eq_ok.mp h with
  | pdb hcap hpdb hm =>
      rw [residentBytes, hm.residentBytes_eq]
      exact UInt64.not_lt.mp hcap
  | dwarf hcap hpdb hm =>
      rw [residentBytes, hm.residentBytes_eq]
      exact UInt64.not_lt.mp hcap

/-- Bytes that parse under one file name parse under every other, to a module with the same
identity. -/
theorem parse_name (h : parse rd data name limits = .ok m) (name' : String) :
    ∃ m', parse rd data name' limits = .ok m' ∧ m'.debugId = m.debugId := by
  cases parse_eq_ok.mp h with
  | pdb hcap hpdb hm => exact ⟨_, parse_eq_ok.mpr (.pdb hcap hpdb (hm.rename name')), rfl⟩
  | dwarf hcap hpdb hm => exact ⟨_, parse_eq_ok.mpr (.dwarf hcap hpdb (hm.rename name')), rfl⟩

end Parsed

end ParsedModule

/-- A PDB module for concrete inputs: its identity is that of an image with the build-id, and it
accounts for `size` bytes. -/
def StandIn.module (buildId : Bytes) (size : Nat) : ParsedModule :=
  .pdb
    { data := ⟨.returned (.error ())⟩
      identity :=
        { format := .pdb, arch := "unknown"
          debugId := DebugId.fromGuidAge (buildIdGuid buildId) 0
          rawBuildId := some (hexEncode buildId), codeId := none, imageBase := 0 }
      name := "a.pdb"
      byteSize := Int64.ofNat size
      symbolCount := 0 }

end VgiSymbols
