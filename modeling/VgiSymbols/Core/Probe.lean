import VgiSymbols.Core.Readers

set_option autoImplicit false

/-! # Deriving the identity of a file

`probeIdentity` reads just enough of a file to know the identifiers it answers to; it is what
indexing runs on every file of a source. The full parse derives its identity by the same
functions. None of this is guarded: a panic of a reader leaves `probeIdentity`.
-/

namespace VgiSymbols

open Unwind

/-- A fallible step of a parse: an error returns early, a panic unwinds. -/
abbrev Parse (α : Type) := ExceptT SymError Unwind α

def asciiLower (s : String) : String := String.ofList (s.toList.map Char.toLower)

/-- Map an `object` architecture onto a stable lowercase name. -/
def archName : Architecture → String
  | .x86_64 | .x86_64_x32 => "x86_64"
  | .i386 => "x86"
  | .aarch64 | .aarch64Ilp32 => "aarch64"
  | .arm => "arm"
  | .powerPc => "ppc"
  | .powerPc64 => "ppc64"
  | .riscv32 => "riscv32"
  | .riscv64 => "riscv64"
  | .mips => "mips"
  | .mips64 => "mips64"
  | .s390x => "s390x"
  | .loongArch64 => "loongarch64"
  | .wasm32 => "wasm32"
  | .unknown => "unknown"
  | .other debug => asciiLower debug

/-- Map a PDB machine type onto a stable lowercase name. -/
def machineArch : MachineType → String
  | .amd64 => "x86_64"
  | .x86 => "x86"
  | .arm64 => "aarch64"
  | .arm | .armNT => "arm"
  | .other debug => asciiLower debug

/-- The containers that can be keyed. -/
def containerFormat : FileKind → Except SymError Format
  | .elf32 | .elf64 => .ok .elf
  | .machO32 | .machO64 => .ok .machO
  | .pe32 | .pe64 => .ok .pe
  | .other debug => .error ⟨.unsupportedFormat, s!"unsupported container {debug}"⟩

/-- The first 16 bytes of a build-id, zero-padded. -/
def buildIdGuid (build : Bytes) : Uuid :=
  ⟨build.take 16 ++ List.replicate (16 - min build.length 16) 0, by simp; omega⟩

/-- Debug-id, raw build-id and code-id of an image, by container. -/
def identifiers (obj : ObjectFile) : Format → Parse (DebugId × Option String × Option String)
  | .elf => do
      let build ← okOr ((fun r => r.toOption.join) <$> obj.buildId)
        ⟨.badBuildId, "no GNU build-id note"⟩
      let raw := hexEncode build
      return (DebugId.fromGuidAge (buildIdGuid build) 0, some raw, some raw)
  | .machO => do
      let uuid ← okOr ((fun r => r.toOption.join) <$> obj.machUuid) ⟨.badBuildId, "no LC_UUID"⟩
      let raw := hexEncode uuid.bytes
      return (DebugId.fromUuid uuid, some raw, some raw)
  | .pe => do
      let cv ← okOr ((fun r => r.toOption.join) <$> obj.pdbInfo)
        ⟨.badBuildId, "no CodeView debug info"⟩
      return (DebugId.fromGuidAge cv.guid cv.age, some (hexEncode cv.guid.bytes), none)
  -- `unreachable!()`: `containerFormat` yields no other format
  | _ => ExceptT.mk .panicked

/-- The identity of an ELF, Mach-O or PE image. -/
def identityFromObject (rd : Readers) (data : Bytes) : Parse Identity := do
  let kind ← (rd.fileKind data).mapErr fun e => ⟨.badMagic, s!"file kind: {e}"⟩
  let format ← ExceptT.mk (.returned (containerFormat kind))
  let obj ← (rd.parseObject data).mapErr fun e => ⟨.truncated, s!"parse object: {e}"⟩
  let arch ← infallible obj.architecture
  let imageBase ← infallible obj.relativeAddressBase
  let (debugId, rawBuildId, codeId) ← identifiers obj format
  return { format, arch := archName arch, debugId, rawBuildId, codeId, imageBase }

/-- The identity of an opened PDB: GUID and age of its information stream, and the machine
type. -/
def pdbStreamIdentity (pdb : Pdb) : Parse Identity := do
  let info ← pdb.pdbInformation.mapErr fun e => ⟨.badBuildId, s!"pdb info: {e}"⟩
  let machine ← infallible pdb.machineType
  return {
    format := .pdb
    arch := (machine.map machineArch).getD "unknown"
    debugId := DebugId.fromParts info.guid info.age
    rawBuildId := some (hexEncode info.guid.bytes)
    codeId := none
    imageBase := 0 }

/-- `PDB::open`. -/
def openPdb (rd : Readers) (data : Bytes) : Parse Pdb :=
  (rd.openPdb data).mapErr fun e => ⟨.badMagic, s!"pdb open: {e}"⟩

/-- The identity of a PDB, without building the resolve context. -/
def pdbIdentity (rd : Readers) (data : Bytes) : Parse Identity := do
  let pdb ← openPdb rd data
  pdbStreamIdentity pdb

/-- The MSF 7.00 magic that opens every modern PDB. -/
def pdbMagic : Bytes :=
  "Microsoft C/C++ MSF 7.00\r\n".toList.map (fun c => c.toNat.toUInt8)
    ++ [0x1a, 0x44, 0x53, 0x00, 0x00, 0x00]

def isPdb (data : Bytes) : Bool := pdbMagic.isPrefixOf data

/-- Derive a file's identity from its bytes, dispatching on the container magic. -/
def probeIdentity (rd : Readers) (data : Bytes) : Unwind (SymResult Identity) :=
  if isPdb data then (pdbIdentity rd data).run else (identityFromObject rd data).run

/-! ## With total readers the probe returns -/

theorem identifiers_returns {rd : Readers} (hrd : rd.Total) {data : Bytes} {obj : ObjectFile}
    (hobj : rd.parseObject data = .returned (.ok obj)) {kind : FileKind} {format : Format}
    (hf : containerFormat kind = .ok format) : (identifiers obj format).run.Returns := by
  obtain ⟨-, -, hbuild, hmach, hpdb⟩ := hrd.object data obj hobj
  have hformat : format = .elf ∨ format = .machO ∨ format = .pe := by
    cases kind <;> cases hf <;> simp
  rcases hformat with rfl | rfl | rfl
  · exact Returns.run_bind ((returns_map.mpr hbuild).okOr _) fun _ _ => ⟨_, rfl⟩
  · exact Returns.run_bind ((returns_map.mpr hmach).okOr _) fun _ _ => ⟨_, rfl⟩
  · exact Returns.run_bind ((returns_map.mpr hpdb).okOr _) fun _ _ => ⟨_, rfl⟩

theorem identityFromObject_returns {rd : Readers} (hrd : rd.Total) (data : Bytes) :
    (identityFromObject rd data).run.Returns := by
  apply Returns.run_bind ((hrd.fileKind data).mapErr _)
  intro kind _
  refine Returns.run_bind ⟨_, rfl⟩ fun format hformat => ?_
  apply Returns.run_bind ((hrd.parseObject data).mapErr _)
  intro obj hobj
  have hobj' := run_mapErr_eq_ok.mp hobj
  obtain ⟨harch, hbase, -⟩ := hrd.object data obj hobj'
  apply Returns.run_bind harch.infallible
  intro _ _
  apply Returns.run_bind hbase.infallible
  intro _ _
  have hf : containerFormat kind = .ok format := by
    injection hformat
  exact Returns.run_bind (identifiers_returns hrd hobj' hf) fun _ _ => ⟨_, rfl⟩

theorem pdbIdentity_returns {rd : Readers} (hrd : rd.Total) (data : Bytes) :
    (pdbIdentity rd data).run.Returns := by
  apply Returns.run_bind ((hrd.openPdb data).mapErr _)
  intro pdb hpdb
  obtain ⟨hinfo, hmachine⟩ := hrd.pdb data pdb (run_mapErr_eq_ok.mp hpdb)
  apply Returns.run_bind (hinfo.mapErr _)
  intro _ _
  exact Returns.run_bind hmachine.infallible fun _ _ => ⟨_, rfl⟩

/-- Probing a file comes back when the readers do. -/
theorem probeIdentity_returns {rd : Readers} (hrd : rd.Total) (data : Bytes) :
    (probeIdentity rd data).Returns := by
  unfold probeIdentity
  split
  · exact pdbIdentity_returns hrd data
  · exact identityFromObject_returns hrd data

end VgiSymbols
