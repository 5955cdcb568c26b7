import VgiSymbols.Core.Inspect
import VgiSymbols.Worker.Evict

set_option autoImplicit false

/-! # The table functions

A table function makes a producer when its scan is opened, and the producer is then asked for one
batch after the other. What the producer shows it was given when it was made: the functions that
read the state read it then, and those that change the state change it then.
-/

namespace VgiSymbols

open SymbolCache (StatusRow)

/-! ## Arguments -/

/-- The array of a positional argument, by its type; `none` is a null. -/
inductive ArgArray where
  | binary (values : List (Option Bytes))
  | largeBinary (values : List (Option Bytes))
  | utf8 (values : List (Option String))
  | largeUtf8 (values : List (Option String))
  /-- An array of any other type. -/
  | other (rows : Nat)

/-- `vgi`, with the access to the array of an argument. -/
structure VgiTables extends Vgi where
  arg : Arguments → Nat → Option ArgArray

/-- Read a constant blob: the first value, of a blob or of a text as its bytes. -/
def constBlob (vgi : VgiTables) (args : vgi.Arguments) (pos : Nat) : Option Bytes :=
  match vgi.arg args pos with
  | some (.binary values) | some (.largeBinary values) => values.head?.join
  | some (.utf8 values) | some (.largeUtf8 values) =>
      values.head?.join.map fun s => s.toUTF8.data.toList
  | _ => none

/-! ## Batches -/

/-- The largest and the smallest `i64`. -/
def maxInt64 : Int := 2 ^ 63 - 1

def minInt64 : Int := -2 ^ 63

/-- `i64::saturating_mul`. -/
def saturatingMul (a b : Int64) : Int64 :=
  Int64.ofInt (max minInt64 (min maxInt64 (a.toInt * b.toInt)))

/-- The columns of `cache_status`. -/
structure StatusColumns where
  debugId : List String
  name : List String
  format : List String
  arch : List String
  bytesResident : List Int64
  rowsResolved : List Int64
  lastUsed : List (Option Int64)
  origin : List (Option String)
  resident : List Bool
  deriving DecidableEq

def StatusColumns.empty : StatusColumns := ⟨[], [], [], [], [], [], [], [], []⟩

/-- The columns after one more row: the time of the last use in microseconds, a null if there was
none, and a null for an empty origin. -/
def StatusColumns.push (cols : StatusColumns) (r : StatusRow) : StatusColumns where
  debugId := cols.debugId ++ [r.debugId]
  name := cols.name ++ [r.name]
  format := cols.format ++ [r.format]
  arch := cols.arch ++ [r.arch]
  bytesResident := cols.bytesResident ++ [r.bytesResident]
  rowsResolved := cols.rowsResolved ++ [r.rowsResolved]
  lastUsed := cols.lastUsed
    ++ [if 0 < r.lastUsedEpoch then some (saturatingMul r.lastUsedEpoch 1000000) else none]
  origin := cols.origin ++ [if r.origin = "" then none else some r.origin]
  resident := cols.resident ++ [r.resident]

/-- The columns of `sources`. -/
structure SourcesColumns where
  sourceId : List String
  kind : List String
  location : List String
  enabled : List Bool
  egress : List Bool
  deriving DecidableEq

def SourcesColumns.empty : SourcesColumns := ⟨[], [], [], [], []⟩

def SourcesColumns.push (cols : SourcesColumns) (s : SourceSpec) : SourcesColumns where
  sourceId := cols.sourceId ++ [s.sourceId]
  kind := cols.kind ++ [s.kind]
  location := cols.location ++ [s.location]
  enabled := cols.enabled ++ [s.enabled]
  egress := cols.egress ++ [s.egress]

/-- The columns of `module_info`. -/
structure InfoColumns where
  format : List String
  arch : List String
  buildId : List (Option String)
  debugId : List (Option String)
  codeId : List (Option String)
  hasDwarf : List Bool
  hasPdb : List Bool
  hasLineTable : List Bool
  symbolCount : List Int64
  fileCount : List Int64
  byteSize : List Int64
  imageBase : List UInt64
  deriving DecidableEq

/-- One row, or none for a file that is no debug file. -/
def InfoColumns.of (info : Option ModuleInfo) : InfoColumns where
  format := (info.map fun i => i.format.asStr).toList
  arch := (info.map fun i => i.arch).toList
  buildId := (info.map fun i => i.buildId).toList
  debugId := (info.map fun i => i.debugId).toList
  codeId := (info.map fun i => i.codeId).toList
  hasDwarf := (info.map fun i => i.hasDwarf).toList
  hasPdb := (info.map fun i => i.hasPdb).toList
  hasLineTable := (info.map fun i => i.hasLineTable).toList
  symbolCount := (info.map fun i => i.symbolCount).toList
  fileCount := (info.map fun i => i.fileCount).toList
  byteSize := (info.map fun i => i.byteSize).toList
  imageBase := (info.map fun i => i.imageBase).toList

/-- A batch that a table function emits. -/
inductive TableBatch where
  | bytesFreed (column : List Int64)
  | sourceId (column : List String)
  | dropped (column : List Bool)
  | status (columns : StatusColumns)
  | sources (columns : SourcesColumns)
  | info (columns : InfoColumns)
  deriving DecidableEq

/-! ## Producers -/

/-- The producers. All but `InfoProducer` give away what they hold with their batch; it remembers
that it is done. -/
inductive Producer where
  | oneI64 (value : Option Int64)
  | oneString (value : Option String)
  | oneBool (value : Option Bool)
  | statusProducer (rows : Option (List StatusRow))
  | sourcesProducer (specs : Option (List SourceSpec))
  | infoProducer (info : Option ModuleInfo) (done : Bool)

/-- The next batch of a producer, if there is one, and the producer after it. -/
def Producer.nextBatch : Producer → Option TableBatch × Producer
  | .oneI64 value => (value.map fun v => .bytesFreed [v], .oneI64 none)
  | .oneString value => (value.map fun v => .sourceId [v], .oneString none)
  | .oneBool value => (value.map fun v => .dropped [v], .oneBool none)
  | .statusProducer rows =>
      (rows.map fun rows => .status (rows.foldl StatusColumns.push .empty), .statusProducer none)
  | .sourcesProducer specs =>
      (specs.map fun specs => .sources (specs.foldl SourcesColumns.push .empty),
        .sourcesProducer none)
  | .infoProducer info done =>
      (if done then none else some (.info (InfoColumns.of info)), .infoProducer info true)

/-! ## The functions -/

/-- `module_info(blob)`. -/
def ModuleInfoBlob.producer (vgi : VgiTables) (rd : Readers) (s : SymbolsState)
    (args : vgi.Arguments) : Except String Producer :=
  match constBlob vgi args 0 with
  | none => .error "module_info: a BLOB argument is required"
  | some blob => .ok (.infoProducer (s.moduleInfoBlob rd blob).toOption false)

/-- `module_info(path)`. -/
def ModuleInfoPath.producer (vgi : VgiTables) (rd : Readers) (fs : FileSystem)
    (s : SymbolsState) (args : vgi.Arguments) : Except String Producer :=
  match vgi.constStr args 0 with
  | none => .error "module_info: a path argument is required"
  | some path => .ok (.infoProducer (s.moduleInfoPath rd fs path).toOption false)

/-- `cache_status(resident_only =>)`. -/
def CacheStatus.producer (vgi : VgiTables) (s : SymbolsState) (args : vgi.Arguments) :
    Producer :=
  let residentOnly := (vgi.namedBool args "resident_only").getD false
  let rows := s.cacheStatus
  .statusProducer (some (if residentOnly then rows.filter StatusRow.resident else rows))

/-- `sources(enabled_only =>)`. -/
def ListSources.producer (vgi : VgiTables) (s : SymbolsState) (args : vgi.Arguments) :
    Producer :=
  let enabledOnly := (vgi.namedBool args "enabled_only").getD false
  let specs := s.listSources
  .sourcesProducer (some (if enabledOnly then specs.filter SourceSpec.enabled else specs))

/-- `drop_source(source_id)`. -/
def DropSource.producer (vgi : VgiTables) (s : SymbolsState) (args : vgi.Arguments) :
    Except String Producer × SymbolsState :=
  match vgi.constStr args 0 with
  | none => (.error "drop_source: source_id is required", s)
  | some sourceId =>
      let (dropped, s) := s.dropSource sourceId
      (.ok (.oneBool (some dropped)), s)

namespace Worker

/-- The registered table functions. -/
inductive TableFunction where
  | moduleInfoBlob
  | moduleInfoPath
  | cacheStatus
  | cacheEvict
  | addSource
  | listSources
  | dropSource
  deriving DecidableEq

/-- Open a scan: the producer of the function, or its error, and the state it leaves. -/
def TableFunction.producer (vgi : VgiTables) (rd : Readers) (fs : FileSystem)
    (f : TableFunction) (s : SymbolsState) (args : vgi.Arguments) :
    Except String Producer × SymbolsState :=
  match f with
  | .moduleInfoBlob => (ModuleInfoBlob.producer vgi rd s args, s)
  | .moduleInfoPath => (ModuleInfoPath.producer vgi rd fs s args, s)
  | .cacheStatus => (.ok (CacheStatus.producer vgi s args), s)
  | .cacheEvict =>
      let (freed, s) := CacheEvict.producer vgi.toVgi s args
      (.ok (.oneI64 (some freed)), s)
  | .addSource =>
      let (r, s) := AddSource.producer vgi.toVgi s args
      (r.map fun sourceId => .oneString (some sourceId), s)
  | .listSources => (.ok (ListSources.producer vgi s args), s)
  | .dropSource => DropSource.producer vgi s args

/-- The operation an opened scan performs on the state, if it changes it. -/
def TableFunction.op (vgi : VgiTables) (f : TableFunction) (args : vgi.Arguments) :
    Option SymbolsState.Op :=
  match f with
  | .addSource => (vgi.constStr args 0).map fun kind =>
      SymbolsState.Op.addSource kind (vgi.namedStr args "path") (vgi.namedStr args "url")
        (vgi.namedStr args "bucket") (vgi.namedBool args "enabled") (vgi.namedStr args "secret")
  | .dropSource => (vgi.constStr args 0).map SymbolsState.Op.dropSource
  | .cacheEvict => some (SymbolsState.Op.cacheEvict (vgi.constStr args 0))
  | .moduleInfoBlob | .moduleInfoPath | .cacheStatus | .listSources => none

end Worker

end VgiSymbols
