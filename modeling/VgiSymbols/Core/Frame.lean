import Mathlib.Logic.Basic

set_option autoImplicit false

/-! # Errors, frames and module info

The plain data of symbolication: the bounded error kinds of `errors.rs` and the resolved rows
and module descriptions of `frame.rs`.
-/

namespace VgiSymbols

/-- The bytes of a file. -/
abbrev Bytes := List UInt8

/-! ## Errors -/

/-- A bounded classification of why a debug file could not be parsed or used. -/
inductive ErrorKind where
  | truncated
  | badMagic
  | badBuildId
  | corruptLineProgram
  | corruptInlineTree
  | unsupportedFormat
  | nestingLimit
  | allocCap
  deriving DecidableEq, Repr

/-- The token used in the `status` column after `error:`. -/
def ErrorKind.asStr : ErrorKind → String
  | .truncated => "truncated"
  | .badMagic => "bad-magic"
  | .badBuildId => "bad-build-id"
  | .corruptLineProgram => "corrupt-line-program"
  | .corruptInlineTree => "corrupt-inline-tree"
  | .unsupportedFormat => "unsupported-format"
  | .nestingLimit => "nesting-limit"
  | .allocCap => "alloc-cap"

/-- A parse error: its kind and a detail text. -/
structure SymError where
  kind : ErrorKind
  detail : String
  deriving DecidableEq, Repr

abbrev SymResult (α : Type) := Except SymError α

/-! ## Resolved rows -/

/-- The outcome of resolving one address. -/
inductive ResolveStatus where
  | ok
  | notFound
  | noLine
  | error (kind : ErrorKind)
  deriving DecidableEq, Repr

/-- The token emitted in the `status` column. -/
def ResolveStatus.asStatus : ResolveStatus → String
  | .ok => "ok"
  | .notFound => "not_found"
  | .noLine => "no_line"
  | .error k => "error:" ++ k.asStr

/-- One source-level row for an input address. -/
structure ResolvedFrame where
  inlineDepth : Int32 := 0
  isInline : Bool := false
  function : Option String := none
  functionRaw : Option String := none
  file : Option String := none
  line : Option UInt32 := none
  column : Option UInt32 := none
  module : Option String := none
  debugId : Option String := none
  status : ResolveStatus := .notFound
  deriving DecidableEq, Repr

/-- The single "no module matched" row. -/
def ResolvedFrame.notFound : ResolvedFrame :=
  { inlineDepth := 0, isInline := false, status := .notFound }

/-- The single row of an address whose module was malformed. -/
def ResolvedFrame.error (kind : ErrorKind) (debugId : Option String) : ResolvedFrame :=
  { inlineDepth := 0, isInline := false, debugId := debugId, status := .error kind }

@[simp] theorem ResolvedFrame.function_notFound : ResolvedFrame.notFound.function = none := rfl

@[simp] theorem ResolvedFrame.function_error (kind : ErrorKind) (debugId : Option String) :
    (ResolvedFrame.error kind debugId).function = none := rfl

/-! ## Module info -/

/-- The container format of a debug file. -/
inductive Format where
  | elf
  | machO
  | dSym
  | pe
  | pdb
  | breakpad
  deriving DecidableEq, Repr

/-- The string emitted in the `format` column. -/
def Format.asStr : Format → String
  | .elf => "ELF"
  | .machO => "MachO"
  | .dSym => "dSYM"
  | .pe => "PE"
  | .pdb => "PDB"
  | .breakpad => "Breakpad"

/-- The triage view of a debug file. -/
structure ModuleInfo where
  format : Format
  arch : String
  buildId : Option String
  debugId : Option String
  codeId : Option String
  hasDwarf : Bool
  hasPdb : Bool
  hasLineTable : Bool
  symbolCount : Int64
  fileCount : Int64
  byteSize : Int64
  imageBase : UInt64
  deriving DecidableEq, Repr

end VgiSymbols
