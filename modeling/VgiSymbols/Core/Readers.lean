import VgiSymbols.Basic.Unwind
import VgiSymbols.Core.Id

set_option autoImplicit false

/-! # The third-party readers

The crates that decode debug files (`object`, `gimli`, `addr2line`, the PDB reader and the
demangler) are a parameter of the model: `Readers` holds the calls the worker makes into them,
as functions of the bytes they are given. Every call may return an error and may unwind.

What a call returns is again data whose methods are calls: an `ObjectFile` answers questions
about its headers, a `Context` yields the frames of an address one by one (`FrameIter`), a
`Pdb` opens its streams.
-/

namespace VgiSymbols

/-! ## `object` -/

inductive FileKind where
  | elf32
  | elf64
  | machO32
  | machO64
  | pe32
  | pe64
  | other (debug : String)
  deriving DecidableEq, Repr

inductive Architecture where
  | x86_64
  | x86_64_x32
  | i386
  | aarch64
  | aarch64Ilp32
  | arm
  | powerPc
  | powerPc64
  | riscv32
  | riscv64
  | mips
  | mips64
  | s390x
  | loongArch64
  | wasm32
  | unknown
  | other (debug : String)
  deriving DecidableEq, Repr

inductive SymbolKind where
  | text
  | other
  deriving DecidableEq, Repr

structure ObjectSymbol where
  kind : SymbolKind
  name : Unwind (Except Unit String)
  address : UInt64

/-- The CodeView record of a PE image. -/
structure CodeView where
  guid : Uuid
  age : UInt32

structure Section where
  uncompressedData : Unwind (Except Unit Bytes)

/-- A parsed object file, as the answers to the questions the worker asks it. -/
structure ObjectFile where
  architecture : Unwind Architecture
  relativeAddressBase : Unwind UInt64
  buildId : Unwind (Except String (Option Bytes))
  machUuid : Unwind (Except String (Option Uuid))
  pdbInfo : Unwind (Except String (Option CodeView))
  isLittleEndian : Unwind Bool
  sectionByName : String → Unwind (Option Section)
  symbols : Unwind (List ObjectSymbol)

/-! ## `gimli` and `addr2line` -/

inductive RunTimeEndian where
  | little
  | big
  deriving DecidableEq, Repr

/-- The units of a DWARF file as an iterator yields them. A unit is the number of file names
of its line program, if it has one, or an error. The walk stops at the end or at an error. -/
inductive UnitIter where
  | stop
  | panicked
  | unit (u : Unwind (Except Unit (Option Nat))) (rest : UnitIter)

structure Location where
  file : Option String
  line : Option UInt32
  column : Option UInt32
  deriving DecidableEq, Repr

/-- One frame of `addr2line`: its function, whose linkage name is read on demand, and its
source location. -/
structure AddrFrame where
  function : Option (Unwind (Except Unit String))
  location : Option Location

/-- The frames of an address as the iterator yields them, innermost first. -/
inductive FrameIter where
  | done
  | failed
  | panicked
  | frame (f : AddrFrame) (rest : FrameIter)

/-- One call of the iterator. -/
def FrameIter.next : FrameIter → Unwind (Except Unit (Option (AddrFrame × FrameIter)))
  | done => .returned (.ok none)
  | failed => .returned (.error ())
  | panicked => .panicked
  | frame f rest => .returned (.ok (some (f, rest)))

/-- The lookup structure of `addr2line`. -/
structure Context where
  findFrames : UInt64 → Unwind (Except Unit FrameIter)

/-- Loaded DWARF sections. -/
structure Dwarf where
  units : UnitIter
  context : Unwind (Except String Context)

/-! ## The PDB reader -/

inductive MachineType where
  | amd64
  | x86
  | arm64
  | arm
  | armNT
  | other (debug : String)
  deriving DecidableEq, Repr

structure PdbInfo where
  guid : Uuid
  age : UInt32

structure PdbFrame where
  function : Option String
  file : Option String
  line : Option UInt32
  deriving DecidableEq, Repr

structure PdbContext where
  functionCount : Unwind Nat
  findFrames : UInt32 → Unwind (Except Unit (Option (List PdbFrame)))

structure PdbData where
  makeContext : Unwind (Except Unit PdbContext)

structure Pdb where
  pdbInformation : Unwind (Except String PdbInfo)
  /-- `debug_information()` and then `machine_type()`, errors dropped. -/
  machineType : Unwind (Option MachineType)
  contextData : Unwind (Except String PdbData)

/-! ## The readers -/

/-- The calls into the third-party crates. -/
structure Readers where
  fileKind : Bytes → Unwind (Except String FileKind)
  parseObject : Bytes → Unwind (Except String ObjectFile)
  loadDwarf : RunTimeEndian → (String → Unwind Bytes) → Unwind (Except String Dwarf)
  openPdb : Bytes → Unwind (Except String Pdb)
  tryDemangle : String → Unwind String

/-- The calls made to identify a file come back, whatever its bytes: the readers report
malformed input by an error. -/
structure Readers.Total (rd : Readers) : Prop where
  fileKind : ∀ data, (rd.fileKind data).Returns
  parseObject : ∀ data, (rd.parseObject data).Returns
  object : ∀ data obj, rd.parseObject data = .returned (.ok obj) →
    obj.architecture.Returns ∧ obj.relativeAddressBase.Returns ∧ obj.buildId.Returns ∧
      obj.machUuid.Returns ∧ obj.pdbInfo.Returns
  openPdb : ∀ data, (rd.openPdb data).Returns
  pdb : ∀ data p, rd.openPdb data = .returned (.ok p) →
    p.pdbInformation.Returns ∧ p.machineType.Returns

/-! ## Stand-in readers

A small set of readers for concrete inputs. A file is a tag byte followed by a build-id, and
the tag says how the readers behave on it: `1` is a good ELF image with one frame `main` at
every address, `2` an image whose DWARF index cannot be built, `3` an image with a line table
but no function names in it and one symbol, `4` a good image whose frame lookup panics.
`hostileReaders` also panics on the magic of a file with tag `5`. -/

namespace StandIn

def object (tag : UInt8) (buildId : Bytes) : ObjectFile where
  architecture := .returned .x86_64
  relativeAddressBase := .returned 0
  buildId := .returned (.ok (some buildId))
  machUuid := .returned (.ok none)
  pdbInfo := .returned (.ok none)
  isLittleEndian := .returned true
  sectionByName name :=
    .returned (if name = ".debug_info" then some ⟨.returned (.ok [tag])⟩ else none)
  symbols := .returned
    (if tag = 3 then [⟨.text, .returned (.ok "start"), 0⟩] else [])

/-- The frame of the good images: a function `name` at line 7 of `main.c`. -/
def frame (name : Option String) : AddrFrame where
  function := name.map fun n => .returned (.ok n)
  location := some ⟨some "main.c", some 7, none⟩

def context (tag : UInt8) : Context where
  findFrames _ :=
    if tag = 4 then .panicked
    else if tag = 3 then .returned (.ok (.frame (frame none) .done))
    else .returned (.ok (.frame (frame (some "main")) .done))

def readers : Readers where
  fileKind data :=
    match data with
    | 1 :: _ | 2 :: _ | 3 :: _ | 4 :: _ => .returned (.ok .elf64)
    | _ => .returned (.error "Unknown file magic")
  parseObject data :=
    match data with
    | tag :: buildId => .returned (.ok (object tag buildId))
    | [] => .returned (.error "empty")
  loadDwarf _ load := do
    let info ← load ".debug_info"
    let tag := info.headD 0
    return .ok ⟨.stop, .returned (if tag = 2 then .error "bad abbrev" else .ok (context tag))⟩
  openPdb _ := .returned (.error "not a PDB")
  tryDemangle s := .returned s

def hostileReaders : Readers :=
  { readers with
    fileKind := fun data =>
      match data with
      | 5 :: _ => .panicked
      | _ => readers.fileKind data }

theorem readers_total : readers.Total where
  fileKind data := by
    show (match data with
      | 1 :: _ | 2 :: _ | 3 :: _ | 4 :: _ => Unwind.returned (Except.ok FileKind.elf64)
      | _ => .returned (.error "Unknown file magic")).Returns
    split <;> exact ⟨_, rfl⟩
  parseObject data := by
    cases data <;> exact ⟨_, rfl⟩
  object data obj h := by
    cases data with
    | nil => cases h
    | cons tag buildId =>
        cases h
        exact ⟨⟨_, rfl⟩, ⟨_, rfl⟩, ⟨_, rfl⟩, ⟨_, rfl⟩, ⟨_, rfl⟩⟩
  openPdb _ := ⟨_, rfl⟩
  pdb _ _ h := by cases h

end StandIn

end VgiSymbols
