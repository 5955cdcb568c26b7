import VgiSymbols.Core.Probe
import Mathlib.Algebra.GroupWithZero.Nat

set_option autoImplicit false

/-! # DWARF modules

A parsed ELF, Mach-O or PE image: the lookup context of `addr2line` and an address-sorted
symbol table, which answers for addresses without line-table coverage.
-/

namespace VgiSymbols

open Unwind

/-- Caps applied during parse and resolve. -/
structure Limits where
  maxParseBytes : UInt64
  maxInlineDepth : Nat
  maxUnits : Nat
  deriving DecidableEq, Repr

/-- `Limits::default()`: 2 GiB, 256 frames, 200 000 units. -/
def Limits.default : Limits :=
  { maxParseBytes := 2 * 1024 * 1024 * 1024, maxInlineDepth := 256, maxUnits := 200000 }

/-- One raw frame of the DWARF reader. -/
structure RawFrame where
  function : Option String
  file : Option String
  line : Option UInt32
  column : Option UInt32
  deriving DecidableEq, Repr

/-- A parsed DWARF module. -/
structure DwarfModule where
  ctx : Context
  identity : Identity
  name : String
  symbols : List (UInt64 × String)
  fileCount : Int64
  hasLineTable : Bool
  byteSize : Int64

/-! ## Parsing -/

/-- The bytes of a DWARF section; a missing or unreadable section is empty. Mach-O spells
`.debug_info` as `__debug_info`. -/
def loadSection (obj : ObjectFile) (name : String) : Unwind Bytes := do
  let section? ← match ← obj.sectionByName name with
    | some s => pure (some s)
    | none => obj.sectionByName ("__" ++ String.ofList (name.toList.dropWhile (· == '.')))
  match section? with
  | some s => return (← s.uncompressedData).toOption.getD []
  | none => return []

/-- Count the source files and detect a line table, over at most `maxUnits` units. -/
def dwarfStats (maxUnits : Nat) (units : UnitIter) (seen : Nat) (fileCount : Int64)
    (hasLine : Bool) : Unwind (Int64 × Bool) :=
  if maxUnits ≤ seen then .returned (fileCount, hasLine) else
  match units with
  | .stop => .returned (fileCount, hasLine)
  | .panicked => .panicked
  | .unit u rest => do
      match ← u with
      | .ok (some names) =>
          dwarfStats maxUnits rest (seen + 1) (fileCount + Int64.ofNat names) true
      | .ok none | .error _ => dwarfStats maxUnits rest (seen + 1) fileCount hasLine

/-- The named function symbols with their demangled names, in file order. -/
def functionSymbols (rd : Readers) : List ObjectSymbol → Unwind (List (UInt64 × String))
  | [] => .returned []
  | s :: l => do
      let here ←
        if s.kind = .text then do
          match ← s.name with
          | .error _ => pure none
          | .ok name =>
              if name = "" then pure none
              else pure (some (s.address, ← rd.tryDemangle name))
        else pure none
      let rest ← functionSymbols rd l
      return here.toList ++ rest

/-- Sorted by address (stably), one symbol per address. -/
def sortSymbols (symbols : List (UInt64 × String)) : List (UInt64 × String) :=
  dedupByKey Prod.fst (symbols.insertionSort fun a b => a.1 ≤ b.1)

/-- Parse a DWARF-bearing image. -/
def DwarfModule.parse (rd : Readers) (data : Bytes) (name : String) (limits : Limits) :
    Parse DwarfModule := do
  let byteSize := Int64.ofNat data.length
  let identity ← identityFromObject rd data
  let obj ← (rd.parseObject data).mapErr fun e => ⟨.truncated, s!"parse: {e}"⟩
  let littleEndian ← infallible obj.isLittleEndian
  let endian := if littleEndian then RunTimeEndian.little else .big
  let dwarf ← (rd.loadDwarf endian (loadSection obj)).mapErr fun e =>
    ⟨.corruptLineProgram, s!"dwarf: {e}"⟩
  let (fileCount, hasLineTable) ← infallible (dwarfStats limits.maxUnits dwarf.units 0 0 false)
  let objSymbols ← infallible obj.symbols
  let symbols ← infallible (functionSymbols rd objSymbols)
  let ctx ← dwarf.context.mapErr fun e => ⟨.corruptLineProgram, s!"addr2line: {e}"⟩
  return {
    ctx, identity, name
    symbols := sortSymbols symbols
    fileCount, hasLineTable, byteSize }

namespace DwarfModule

/-- Approximate resident byte footprint. -/
def residentBytes (m : DwarfModule) : UInt64 := m.byteSize.toUInt64

/-! ## Resolving -/

/-- `binary_search_by_key` on a list sorted by its keys: the index of the key, or the index
where it would be inserted. -/
def binarySearchByKey (l : List (UInt64 × String)) (key : UInt64) : Except Nat Nat :=
  match l.findIdx? fun e => e.1 == key with
  | some i => .ok i
  | none => .error (l.countP fun e => e.1 < key)

/-- The name of the symbol nearest below `addr`. -/
def symbolFor (m : DwarfModule) (addr : UInt64) : Option String :=
  match binarySearchByKey m.symbols addr with
  | .ok i => m.symbols[i]?.map Prod.snd
  -- Below every symbol; otherwise the symbol in front of the insertion point.
  | .error 0 => none
  | .error (i + 1) => m.symbols[i]?.map Prod.snd

/-- Whether `addr` may be handed to the frame lookup, which probes `[addr, addr + 1)`. -/
def dwarfProbeOk (addr : UInt64) : Bool := addr != UInt64.ofNat (2 ^ 64 - 1)

/-- A row stamped with this module's name and debug-id. -/
def blankFrame (m : DwarfModule) (status : ResolveStatus) : ResolvedFrame :=
  { inlineDepth := 0, isInline := false, function := none, functionRaw := none, file := none,
    line := none, column := none, module := some m.name,
    debugId := some m.identity.debugIdStr, status := status }

def errorFrame (m : DwarfModule) (kind : ErrorKind) : ResolvedFrame :=
  m.blankFrame (.error kind)

/-- The row of an address without DWARF coverage: the symbol nearest below it, if any. -/
def noLineFrame (m : DwarfModule) (addr : UInt64) : ResolvedFrame :=
  let f := m.blankFrame .noLine
  match m.symbolFor addr with
  | some name => { f with function := some name, functionRaw := some name }
  | none => f

/-- The linkage name of a frame, if the frame has a function and the name can be read. -/
def rawName (f : AddrFrame) : Unwind (Option String) :=
  match f.function with
  | some name => Except.toOption <$> name
  | none => .returned none

/-- Collect raw frames up to the inline-depth cap. `none` is the early return of a single
error row: the iterator failed before it yielded a frame. -/
def collectFrames (maxInlineDepth : Nat) (raw : List RawFrame) (iter : FrameIter) :
    Unwind (Option (List RawFrame)) :=
  if maxInlineDepth ≤ raw.length then .returned (some raw) else
  match iter with
  | .done => .returned (some raw)
  -- Behind a frame an error only ends the walk: the frames so far are kept.
  | .failed => .returned (if raw.isEmpty then none else some raw)
  | .panicked => .panicked
  | .frame f rest => do
      let function ← rawName f
      let (file, line, column) := match f.location with
        | some loc => (loc.file, loc.line, loc.column)
        | none => (none, none, none)
      collectFrames maxInlineDepth (raw ++ [⟨function, file, line, column⟩]) rest

/-- Demangle the linkage name of a raw frame, if it has one. -/
def demangled (rd : Readers) : Option String → Unwind (Option String)
  | some raw => some <$> rd.tryDemangle raw
  | none => .returned none

/-- The rows of the raw frames from depth `i` on, of `n` in all. -/
def frameRows (rd : Readers) (m : DwarfModule) (n : Nat) :
    Nat → List RawFrame → Unwind (List ResolvedFrame)
  | _, [] => .returned []
  | i, raw :: rest => do
      let function ← demangled rd raw.function
      let rows ← frameRows rd m n (i + 1) rest
      return { m.blankFrame .ok with
        inlineDepth := Int32.ofNat i
        -- By the number of rows, whatever the reader still has behind them.
        isInline := decide (i + 1 < n)
        function := function
        functionRaw := raw.function
        file := raw.file
        line := raw.line
        column := raw.column } :: rows

/-- Resolve `addr` into inline-expanded rows, the physical frame last. -/
def resolve (rd : Readers) (m : DwarfModule) (addr : UInt64) (limits : Limits) :
    Unwind (List ResolvedFrame) :=
  if !dwarfProbeOk addr then .returned [m.noLineFrame addr] else do
  match ← m.ctx.findFrames addr with
  | .error _ => return [m.errorFrame .corruptInlineTree]
  | .ok iter =>
      match ← collectFrames limits.maxInlineDepth [] iter with
      | none => return [m.errorFrame .corruptInlineTree]
      | some [] => return [m.noLineFrame addr]
      | some raw => frameRows rd m raw.length 0 raw

/-- The innermost function name only (fast path). -/
def functionName (rd : Readers) (m : DwarfModule) (addr : UInt64) : Unwind (Option String) :=
  if !dwarfProbeOk addr then .returned (m.symbolFor addr) else do
  match ← m.ctx.findFrames addr with
  -- Whatever goes wrong from here on, the symbol table is asked.
  | .error _ => return m.symbolFor addr
  | .ok iter =>
      match ← iter.next with
      | .ok (some (frame, _)) =>
          match frame.function with
          | some f =>
              match ← f with
              | .ok raw => some <$> rd.tryDemangle raw
              | .error _ => return m.symbolFor addr
          | none => return m.symbolFor addr
      | .ok none | .error _ => return m.symbolFor addr

/-- The triage view. -/
def info (m : DwarfModule) : ModuleInfo :=
  { format := m.identity.format
    arch := m.identity.arch
    buildId := m.identity.rawBuildId
    debugId := some m.identity.debugIdStr
    codeId := m.identity.codeId
    hasDwarf := m.hasLineTable || decide (0 < m.fileCount)
    hasPdb := false
    hasLineTable := m.hasLineTable
    symbolCount := Int64.ofNat m.symbols.length
    fileCount := m.fileCount
    byteSize := m.byteSize
    imageBase := m.identity.imageBase }

/-- How a parse succeeds: what its calls return, and the module it makes of that. -/
inductive Parsed (rd : Readers) (data : Bytes) (name : String) (limits : Limits) :
    DwarfModule → Prop where
  | intro {identity : Identity} {obj : ObjectFile} {little : Bool} {dwarf : Dwarf}
      {stats : Int64 × Bool} {objSymbols : List ObjectSymbol} {symbols : List (UInt64 × String)}
      {ctx : Context}
      (hidentity : (identityFromObject rd data).run = .returned (.ok identity))
      (hobj : rd.parseObject data = .returned (.ok obj))
      (hlittle : obj.isLittleEndian = .returned little)
      (hdwarf : rd.loadDwarf (if little then .little else .big) (loadSection obj)
        = .returned (.ok dwarf))
      (hstats : dwarfStats limits.maxUnits dwarf.units 0 0 false = .returned stats)
      (hobjSymbols : obj.symbols = .returned objSymbols)
      (hsymbols : functionSymbols rd objSymbols = .returned symbols)
      (hctx : dwarf.context = .returned (.ok ctx)) :
      Parsed rd data name limits
        { ctx, identity, name
          symbols := sortSymbols symbols
          fileCount := stats.1
          hasLineTable := stats.2
          byteSize := Int64.ofNat data.length }

section Parsed

variable {rd : Readers} {data : Bytes} {name : String} {limits : Limits} {m : DwarfModule}

theorem parse_eq_ok : (DwarfModule.parse rd data name limits).run = .returned (.ok m) ↔
    Parsed rd data name limits m := by
  constructor
  · intro h
    obtain ⟨identity, hidentity, h⟩ := run_bind_eq_ok.mp h
    obtain ⟨obj, hobj, h⟩ := run_bind_eq_ok.mp h
    obtain ⟨little, hlittle, h⟩ := run_bind_eq_ok.mp h
    obtain ⟨dwarf, hdwarf, h⟩ := run_bind_eq_ok.mp h
    obtain ⟨stats, hstats, h⟩ := run_bind_eq_ok.mp h
    obtain ⟨objSymbols, hobjSymbols, h⟩ := run_bind_eq_ok.mp h
    obtain ⟨symbols, hsymbols, h⟩ := run_bind_eq_ok.mp h
    obtain ⟨ctx, hctx, h⟩ := run_bind_eq_ok.mp h
    cases h
    exact .intro hidentity (run_mapErr_eq_ok.mp hobj) (run_infallible_eq_ok.mp hlittle)
      (run_mapErr_eq_ok.mp hdwarf) (run_infallible_eq_ok.mp hstats)
      (run_infallible_eq_ok.mp hobjSymbols) (run_infallible_eq_ok.mp hsymbols)
      (run_mapErr_eq_ok.mp hctx)
  · rintro ⟨hidentity, hobj, hlittle, hdwarf, hstats, hobjSymbols, hsymbols, hctx⟩
    refine run_bind_eq_ok.mpr ⟨_, hidentity, ?_⟩
    refine run_bind_eq_ok.mpr ⟨_, run_mapErr_eq_ok.mpr hobj, ?_⟩
    refine run_bind_eq_ok.mpr ⟨_, run_infallible_eq_ok.mpr hlittle, ?_⟩
    refine run_bind_eq_ok.mpr ⟨_, run_mapErr_eq_ok.mpr hdwarf, ?_⟩
    refine run_bind_eq_ok.mpr ⟨_, run_infallible_eq_ok.mpr hstats, ?_⟩
    refine run_bind_eq_ok.mpr ⟨_, run_infallible_eq_ok.mpr hobjSymbols, ?_⟩
    refine run_bind_eq_ok.mpr ⟨_, run_infallible_eq_ok.mpr hsymbols, ?_⟩
    exact run_bind_eq_ok.mpr ⟨_, run_mapErr_eq_ok.mpr hctx, rfl⟩

/-- The parse keeps the identity the probe derives. -/
theorem Parsed.identity_eq (h : Parsed rd data name limits m) :
    (identityFromObject rd data).run = .returned (.ok m.identity) := by
  cases h with
  | intro hidentity => exact hidentity

/-- A parsed image accounts for the bytes of its file. -/
theorem Parsed.residentBytes_eq (h : Parsed rd data name limits m) :
    m.residentBytes = UInt64.ofNat data.length := by
  cases h
  rfl

/-- The file's name only names the module. -/
theorem Parsed.rename (h : Parsed rd data name limits m) (name' : String) :
    Parsed rd data name' limits { m with name := name' } := by
  obtain ⟨hidentity, hobj, hlittle, hdwarf, hstats, hobjSymbols, hsymbols, hctx⟩ := h
  exact .intro hidentity hobj hlittle hdwarf hstats hobjSymbols hsymbols hctx

end Parsed

end DwarfModule

end VgiSymbols
