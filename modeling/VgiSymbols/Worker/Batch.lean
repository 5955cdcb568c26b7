import VgiSymbols.Basic.Nested
import VgiSymbols.Core.State

set_option autoImplicit false

/-! # Batches at the SQL surface

`symbolicate` and `inline_frames` walk the rows of a batch through the one resolver and spread
what each row resolves to over columns; the inline chains go through arrow's list builder.
`faithful_iff` says when the columns tell of every row what it resolved to: the line of a frame
is a `u32` that the columns hold as an `i32`.
-/

namespace VgiSymbols

/-! ## The input columns -/

/-- A column of a batch, by its type; `none` is a null cell. -/
inductive Column where
  | utf8 (values : List (Option String))
  | largeUtf8 (values : List (Option String))
  | uint64 (values : List (Option UInt64))
  | int64 (values : List (Option Int64))
  | uint32 (values : List (Option UInt32))
  | int32 (values : List (Option Int32))
  /-- A column of any other type. -/
  | other (rows : Nat)

namespace Column

def rows : Column → Nat
  | utf8 values | largeUtf8 values => values.length
  | uint64 values => values.length
  | int64 values => values.length
  | uint32 values => values.length
  | int32 values => values.length
  | other rows => rows

/-- Read a build-id cell. -/
def buildIdAt (col : Column) (i : Nat) : Option String :=
  match col with
  | utf8 values | largeUtf8 values => values[i]?.join
  | _ => none

/-- Read an address cell, of any integer width. -/
def addressAt (col : Column) (i : Nat) : Option UInt64 :=
  match col with
  | uint64 values => values[i]?.join
  -- `as u64` keeps the bits of a signed cell and extends its sign.
  | int64 values => values[i]?.join.map Int64.toUInt64
  | uint32 values => values[i]?.join.map UInt32.toUInt64
  | int32 values => values[i]?.join.map fun a => a.toInt64.toUInt64
  | _ => none

end Column

/-- A batch: two columns as long as each other. -/
structure RecordBatch where
  build : Column
  addr : Column
  numRows : Nat
  rows_build : build.rows = numRows
  rows_addr : addr.rows = numRows

/-! ## The list builder -/

/-- One inline sub-frame as plain data: function, file, line. -/
abbrev InlineCell := Option String × Option String × Option Int32

/-- A column of lists of sub-frames as arrow lays it out: the columns of all sub-frames with the
validity of each, and the index where each list ends with its validity. -/
structure InlineLists where
  functions : List (Option String)
  files : List (Option String)
  lines : List (Option Int32)
  valid : List Bool
  ends : List Nat
  listValid : List Bool

namespace InlineLists

def empty : InlineLists := ⟨[], [], [], [], [], []⟩

/-- The sub-frames, one after the other; `none` is a null. -/
def cells (a : InlineLists) : List (Option InlineCell) :=
  (a.functions.zip (a.files.zip a.lines)).zipWith (fun c v => if v then some c else none) a.valid

/-- The lists; `none` is a null. -/
def lists (a : InlineLists) : List (Option (List (Option InlineCell))) :=
  (Nested.slices a.cells 0 a.ends).zipWith (fun l v => if v then some l else none) a.listValid

end InlineLists

/-- `arrow`'s builder of a `LIST<STRUCT(function, file, line)>` column, and its columns. -/
structure Arrow where
  ListBuilder : Type
  ListArray : Type
  new : ListBuilder
  /-- `field_builder(0)`, `(1)` and `(2)` of the struct builder inside. -/
  appendFunction : ListBuilder → Option String → ListBuilder
  appendFile : ListBuilder → Option String → ListBuilder
  appendLine : ListBuilder → Option Int32 → ListBuilder
  /-- End a sub-frame. -/
  appendStruct : ListBuilder → Bool → ListBuilder
  /-- End a list. -/
  append : ListBuilder → Bool → ListBuilder
  finish : ListBuilder → ListArray
  /-- What was appended so far. -/
  layout : ListBuilder → InlineLists
  /-- The cells of a column. -/
  lists : ListArray → List (Option (List (Option InlineCell)))

/-- Every `append` appends to its own part of the layout, a list ends after the sub-frames so
far, and the column that is finished has the lists of the layout. -/
structure Arrow.Appends (arrow : Arrow) : Prop where
  new : arrow.layout arrow.new = .empty
  appendFunction : ∀ b x, arrow.layout (arrow.appendFunction b x)
    = { arrow.layout b with functions := (arrow.layout b).functions ++ [x] }
  appendFile : ∀ b x, arrow.layout (arrow.appendFile b x)
    = { arrow.layout b with files := (arrow.layout b).files ++ [x] }
  appendLine : ∀ b x, arrow.layout (arrow.appendLine b x)
    = { arrow.layout b with lines := (arrow.layout b).lines ++ [x] }
  appendStruct : ∀ b v, arrow.layout (arrow.appendStruct b v)
    = { arrow.layout b with valid := (arrow.layout b).valid ++ [v] }
  append : ∀ b v, arrow.layout (arrow.append b v)
    = { arrow.layout b with
        ends := (arrow.layout b).ends ++ [(arrow.layout b).valid.length]
        listValid := (arrow.layout b).listValid ++ [v] }
  finish : ∀ b, arrow.lists (arrow.finish b) = (arrow.layout b).lists

/-- An `arrow` for concrete inputs: the builder is its layout. -/
def StandIn.arrow : Arrow where
  ListBuilder := InlineLists
  ListArray := InlineLists
  new := .empty
  appendFunction b x := { b with functions := b.functions ++ [x] }
  appendFile b x := { b with files := b.files ++ [x] }
  appendLine b x := { b with lines := b.lines ++ [x] }
  appendStruct b v := { b with valid := b.valid ++ [v] }
  append b v := { b with ends := b.ends ++ [b.valid.length], listValid := b.listValid ++ [v] }
  finish b := b
  layout b := b
  lists a := a.lists

theorem StandIn.appends_arrow : StandIn.arrow.Appends where
  new := rfl
  appendFunction _ _ := rfl
  appendFile _ _ := rfl
  appendLine _ _ := rfl
  appendStruct _ _ := rfl
  append _ _ := rfl
  finish _ := rfl

section Lists

variable (arrow : Arrow)

/-- Append one sub-frame. -/
def appendCell (b : arrow.ListBuilder) (cell : InlineCell) : arrow.ListBuilder :=
  arrow.appendStruct
    (arrow.appendLine (arrow.appendFile (arrow.appendFunction b cell.1) cell.2.1) cell.2.2) true

/-- Append the list of one row. -/
def appendChain (b : arrow.ListBuilder) (chain : List InlineCell) : arrow.ListBuilder :=
  arrow.append (chain.foldl (appendCell arrow) b) true

/-- Build the list column from the inline chain of each row. -/
def buildInlineList (perRow : List (List InlineCell)) : arrow.ListArray :=
  arrow.finish (perRow.foldl (appendChain arrow) arrow.new)

end Lists

/-! ## What the list builder builds -/

/-- The layout with some lists finished and one begun. -/
def InlineLists.of (done : List (List InlineCell)) (begun : List InlineCell) : InlineLists where
  functions := (done.flatten ++ begun).map fun c => c.1
  files := (done.flatten ++ begun).map fun c => c.2.1
  lines := (done.flatten ++ begun).map fun c => c.2.2
  valid := (done.flatten ++ begun).map fun _ => true
  ends := Nested.ends 0 done
  listValid := done.map fun _ => true

/-- **The lists of the layout are the lists that were finished**, each with all its cells. -/
theorem InlineLists.lists_of (done : List (List InlineCell)) :
    (InlineLists.of done []).lists = done.map fun l => some (l.map some) := by
  have hcells : (InlineLists.of done []).cells = (done.map (List.map some)).flatten := by
    rw [InlineLists.cells, InlineLists.of, List.append_nil, List.zip_map', List.zip_map',
      List.zipWith_map, List.zipWith_self, ← List.map_flatten]
    rfl
  -- where a list ends depends on its length only
  have hends : (InlineLists.of done []).ends = Nested.ends 0 (done.map (List.map some)) :=
    (Nested.ends_map some 0 done).symm
  rw [InlineLists.lists, hcells, hends, Nested.slices_flatten]
  show List.zipWith _ _ (done.map fun _ => true) = _
  rw [List.zipWith_map, List.zipWith_self]
  rfl

section Lists

variable {arrow : Arrow} (harrow : arrow.Appends) {b : arrow.ListBuilder}
  {done : List (List InlineCell)} {begun : List InlineCell}
include harrow

theorem layout_appendCell (h : arrow.layout b = .of done begun) (cell : InlineCell) :
    arrow.layout (appendCell arrow b cell) = .of done (begun ++ [cell]) := by
  rw [appendCell, harrow.appendStruct, harrow.appendLine, harrow.appendFile,
    harrow.appendFunction, h]
  simp [InlineLists.of]

theorem layout_foldl_appendCell (h : arrow.layout b = .of done begun)
    (chain : List InlineCell) :
    arrow.layout (chain.foldl (appendCell arrow) b) = .of done (begun ++ chain) := by
  induction chain generalizing b begun with
  | nil => rw [List.foldl_nil, h, List.append_nil]
  | cons cell chain ih =>
      rw [List.foldl_cons, ih (layout_appendCell harrow h cell), List.append_assoc]
      rfl

/-- The list of a row is ended behind its own sub-frames. -/
theorem layout_appendChain (h : arrow.layout b = .of done []) (chain : List InlineCell) :
    arrow.layout (appendChain arrow b chain) = .of (done ++ [chain]) [] := by
  rw [appendChain, harrow.append, layout_foldl_appendCell harrow h chain]
  simp [InlineLists.of, Nested.ends_concat, Function.comp_def]

/-- **The list column has the chain of every row for its list.** -/
theorem lists_buildInlineList (perRow : List (List InlineCell)) :
    arrow.lists (buildInlineList arrow perRow) = perRow.map fun l => some (l.map some) := by
  -- Between two rows no list is begun; the lists finished so far are carried along.
  have key : ∀ (chains done : List (List InlineCell)) (b : arrow.ListBuilder),
      arrow.layout b = .of done [] →
      arrow.layout (chains.foldl (appendChain arrow) b) = .of (done ++ chains) [] := by
    intro chains
    induction chains with
    | nil => exact fun done b h => by rw [List.foldl_nil, h, List.append_nil]
    | cons chain chains ih =>
        intro done b h
        rw [List.foldl_cons, ih _ _ (layout_appendChain harrow h chain), List.append_assoc]
        rfl
  rw [buildInlineList, harrow.finish, key perRow [] arrow.new harrow.new, List.nil_append,
    InlineLists.lists_of]

end Lists

/-! ## The scalar functions -/

namespace ResolvedFrame

/-- The physical frame of the resolved frames: the last one. -/
def physical (frames : List ResolvedFrame) : ResolvedFrame := frames.getLast?.getD notFound

/-- The inline frames of the resolved frames, as plain data: all but the last one. -/
def chain (frames : List ResolvedFrame) : List InlineCell :=
  (frames.take (frames.length - 1)).map fun f => (f.function, f.file, f.line.map UInt32.toInt32)

end ResolvedFrame

/-- What row `i` of a batch is resolved to. -/
def RecordBatch.resolveAt (rd : Readers) (w : World) (batch : RecordBatch) (s : SymbolsState)
    (i : Nat) : Unwind (List ResolvedFrame) × SymbolsState :=
  match batch.build.buildIdAt i, batch.addr.addressAt i with
  | some b, some a => s.resolve rd w b a
  -- A null in either column, or a column of another type.
  | _, _ => (.returned [ResolvedFrame.notFound], s)

/-- The loop over the rows of a batch; row `i` is resolved in the surroundings `w i`, and `push`
adds what it is resolved to. -/
def RecordBatch.overRows {α : Type} (rd : Readers) (w : Nat → World) (batch : RecordBatch)
    (push : α → List ResolvedFrame → α) : List Nat → α → SymbolsState → Unwind α × SymbolsState
  | [], out, s => (.returned out, s)
  | i :: rows, out, s =>
      match batch.resolveAt rd (w i) s i with
      | (.panicked, s) => (.panicked, s)
      | (.returned frames, s) => batch.overRows rd w push rows (push out frames) s

namespace Symbolicate

/-- The vectors `symbolicate` fills. -/
structure Columns where
  functions : List (Option String)
  files : List (Option String)
  lines : List (Option Int32)
  modules : List (Option String)
  debugIds : List (Option String)
  statuses : List String
  inlineChains : List (List InlineCell)

def Columns.empty : Columns := ⟨[], [], [], [], [], [], []⟩

/-- The vectors after one more row. -/
def Columns.push (cols : Columns) (frames : List ResolvedFrame) : Columns :=
  let physical := ResolvedFrame.physical frames
  { functions := cols.functions ++ [physical.function]
    files := cols.files ++ [physical.file]
    lines := cols.lines ++ [physical.line.map UInt32.toInt32]
    modules := cols.modules ++ [physical.module]
    debugIds := cols.debugIds ++ [physical.debugId]
    statuses := cols.statuses ++ [physical.status.asStatus]
    inlineChains := cols.inlineChains ++ [ResolvedFrame.chain frames] }

/-- The struct column `symbolicate` returns, by its fields. -/
structure StructArray (arrow : Arrow) where
  function : List (Option String)
  file : List (Option String)
  line : List (Option Int32)
  inlined : arrow.ListArray
  module : List (Option String)
  debugId : List (Option String)
  status : List String

/-- The struct column of the filled vectors. -/
def Columns.structArray (arrow : Arrow) (cols : Columns) : StructArray arrow where
  function := cols.functions
  file := cols.files
  line := cols.lines
  inlined := buildInlineList arrow cols.inlineChains
  module := cols.modules
  debugId := cols.debugIds
  status := cols.statuses

/-- `symbolicate` on a batch. -/
def process (arrow : Arrow) (rd : Readers) (w : Nat → World) (batch : RecordBatch)
    (s : SymbolsState) : Unwind (StructArray arrow) × SymbolsState :=
  let (cols, s) := batch.overRows rd w Columns.push (List.range batch.numRows) Columns.empty s
  (Columns.structArray arrow <$> cols, s)

end Symbolicate

/-- `inline_frames` on a batch. -/
def InlineFrames.process (arrow : Arrow) (rd : Readers) (w : Nat → World) (batch : RecordBatch)
    (s : SymbolsState) : Unwind arrow.ListArray × SymbolsState :=
  let (chains, s) := batch.overRows rd w
    (fun chains frames => chains ++ [ResolvedFrame.chain frames]) (List.range batch.numRows) [] s
  (buildInlineList arrow <$> chains, s)

/-- Readers that find one frame at every address of an image, at the given line. -/
def StandIn.lineReaders (line : UInt32) : Readers :=
  let frame : AddrFrame :=
    { function := some (.returned (.ok "main")), location := some ⟨some "main.c", some line, none⟩ }
  { StandIn.readers with
    loadDwarf := fun _ _ =>
      .returned (.ok ⟨.stop, .returned (.ok ⟨fun _ => .returned (.ok (.frame frame .done))⟩)⟩) }

/-- The surroundings and the state of a worker that was given the directory of one image. -/
def StandIn.oneImage : World := ⟨StandIn.directory "d" [("d/a", 1 :: StandIn.buildId 0x11)], 0⟩

def StandIn.oneImageAdded : SymbolsState :=
  (SymbolsState.new.addSource "dir" (some "d") none none none none).2

/-- An address in the image, and a row without a build-id. -/
def StandIn.addressAndNull : RecordBatch where
  build := .utf8 [some (StandIn.token 0x11), none]
  addr := .int64 [some 4, some 5]
  numRows := 2
  rows_build := rfl
  rows_addr := rfl

/-! ## What the rows resolve to -/

/-- One row: the surroundings it is resolved in, and its build-id and address, neither null. -/
abbrev Row := World × Option (String × UInt64)

/-- Row `i` of a batch. -/
def RecordBatch.row (w : Nat → World) (batch : RecordBatch) (i : Nat) : Row :=
  (w i, do
    let b ← batch.build.buildIdAt i
    let a ← batch.addr.addressAt i
    return (b, a))

/-- The rows of a batch, in order. -/
def RecordBatch.rows (w : Nat → World) (batch : RecordBatch) : List Row :=
  (List.range batch.numRows).map (batch.row w)

namespace SymbolsState

/-- The frames of a row; those of a null are `not_found`. -/
def resolveRow (rd : Readers) (s : SymbolsState) (row : Row) :
    Unwind (List ResolvedFrame) × SymbolsState :=
  match row.2 with
  | some (b, a) => s.resolve rd row.1 b a
  | none => (.returned [ResolvedFrame.notFound], s)

/-- The state after a row. -/
def rowStep (rd : Readers) (s : SymbolsState) (row : Row) : SymbolsState :=
  (s.resolveRow rd row).2

/-- The frames of rows that are resolved one after the other, unless one of them unwinds. -/
def resolveRows (rd : Readers) : List Row → SymbolsState → Unwind (List (List ResolvedFrame))
  | [], _ => .returned []
  | row :: rows, s => do
      let frames ← (s.resolveRow rd row).1
      let rest ← resolveRows rd rows (rowStep rd s row)
      return frames :: rest

theorem length_resolveRows {rd : Readers} {rows : List Row} {s : SymbolsState}
    {frames : List (List ResolvedFrame)} (h : resolveRows rd rows s = .returned frames) :
    frames.length = rows.length := by
  induction rows generalizing s frames with
  | nil =>
      cases h
      rfl
  | cons row rows ih =>
      obtain ⟨first, -, h⟩ := Unwind.bind_eq_returned.mp h
      obtain ⟨rest, hrest, h⟩ := Unwind.bind_eq_returned.mp h
      cases h
      rw [List.length_cons, ih hrest, List.length_cons]

theorem resolveAt_eq (rd : Readers) (w : Nat → World) (batch : RecordBatch) (s : SymbolsState)
    (i : Nat) : batch.resolveAt rd (w i) s i = s.resolveRow rd (batch.row w i) := by
  unfold RecordBatch.resolveAt resolveRow RecordBatch.row
  cases batch.build.buildIdAt i with
  | none => rfl
  | some b => cases batch.addr.addressAt i <;> rfl

/-- **The loop pushes what the rows resolve to, in order.** -/
theorem overRows_fst {α : Type} (rd : Readers) (w : Nat → World) (batch : RecordBatch)
    (push : α → List ResolvedFrame → α) (rows : List Nat) (out : α) (s : SymbolsState) :
    (batch.overRows rd w push rows out s).1
      = (fun frames => frames.foldl push out) <$> resolveRows rd (rows.map (batch.row w)) s := by
  induction rows generalizing out s with
  | nil => rfl
  | cons i rows ih =>
      rw [RecordBatch.overRows, resolveAt_eq, List.map_cons, resolveRows, rowStep]
      cases s.resolveRow rd (batch.row w i) with
      | mk first s' =>
          cases first with
          -- a row that unwinds ends the loop, and the list of what the rows resolve to
          | panicked => rfl
          | returned frames =>
              rw [ih]
              cases resolveRows rd (rows.map (batch.row w)) s' <;> rfl

/-- The vectors after some rows. -/
theorem foldl_push (cols : Symbolicate.Columns) (frames : List (List ResolvedFrame)) :
    frames.foldl Symbolicate.Columns.push cols =
      { functions := cols.functions ++ frames.map fun f => (ResolvedFrame.physical f).function
        files := cols.files ++ frames.map fun f => (ResolvedFrame.physical f).file
        lines := cols.lines
          ++ frames.map fun f => (ResolvedFrame.physical f).line.map UInt32.toInt32
        modules := cols.modules ++ frames.map fun f => (ResolvedFrame.physical f).module
        debugIds := cols.debugIds ++ frames.map fun f => (ResolvedFrame.physical f).debugId
        statuses := cols.statuses
          ++ frames.map fun f => (ResolvedFrame.physical f).status.asStatus
        inlineChains := cols.inlineChains ++ frames.map ResolvedFrame.chain } := by
  induction frames generalizing cols with
  | nil => simp
  | cons f frames ih =>
      rw [List.foldl_cons, ih]
      simp [Symbolicate.Columns.push]

theorem foldl_chains (chains : List (List InlineCell)) (frames : List (List ResolvedFrame)) :
    frames.foldl (fun chains f => chains ++ [ResolvedFrame.chain f]) chains
      = chains ++ frames.map ResolvedFrame.chain := by
  induction frames generalizing chains with
  | nil => simp
  | cons f frames ih =>
      rw [List.foldl_cons, ih]
      simp

/-! ## Faithful columns -/

/-- The line of a frame. -/
def lineNumber (f : ResolvedFrame) : Option Int := f.line.map fun l => (l.toNat : Int)

/-- The columns tell of every row what it was resolved to: one struct a row with what the last
frame says, and one list a row with the frames before it. -/
structure Tells {arrow : Arrow} (frames : List (List ResolvedFrame))
    (out : Symbolicate.StructArray arrow) (lists : arrow.ListArray) : Prop where
  function : out.function = frames.map fun f => (ResolvedFrame.physical f).function
  file : out.file = frames.map fun f => (ResolvedFrame.physical f).file
  line : out.line.map (Option.map Int32.toInt)
    = frames.map fun f => lineNumber (ResolvedFrame.physical f)
  module : out.module = frames.map fun f => (ResolvedFrame.physical f).module
  debugId : out.debugId = frames.map fun f => (ResolvedFrame.physical f).debugId
  status : out.status = frames.map fun f => (ResolvedFrame.physical f).status.asStatus
  inlined : (arrow.lists out.inlined).map
      (Option.map (List.map (Option.map fun c => (c.1, c.2.1, c.2.2.map Int32.toInt))))
    = frames.map fun f => some (f.dropLast.map fun r => some (r.function, r.file, lineNumber r))
  sameLists : arrow.lists lists = arrow.lists out.inlined

/-- Both functions come back from the batch, with columns that tell of its rows. -/
def Faithful (arrow : Arrow) (rd : Readers) (w : Nat → World) (batch : RecordBatch)
    (s : SymbolsState) : Prop :=
  ∃ frames out lists, resolveRows rd (batch.rows w) s = .returned frames ∧
    frames.length = batch.numRows ∧
    (Symbolicate.process arrow rd w batch s).1 = .returned out ∧
    (InlineFrames.process arrow rd w batch s).1 = .returned lists ∧ Tells frames out lists

/-- The line of the frame, if it has one, is no larger than an `i32` holds. -/
def LineFits (f : ResolvedFrame) : Prop := ∀ l, f.line = some l → l.toNat < 2 ^ 31

/-- The row is resolved, to frames whose lines fit. -/
def RowFits (rd : Readers) (s : SymbolsState) (row : Row) : Prop :=
  ∃ frames, (s.resolveRow rd row).1 = .returned frames ∧ ∀ f ∈ frames, LineFits f

theorem meetsAlong_rowFits_iff {rd : Readers} {rows : List Row} {s : SymbolsState} :
    Run.MeetsAlong (rowStep rd) (RowFits rd) s rows ↔
      ∃ frames, resolveRows rd rows s = .returned frames ∧
        ∀ row ∈ frames, ∀ f ∈ row, LineFits f := by
  induction rows generalizing s with
  | nil => exact iff_of_true trivial ⟨[], rfl, fun f hf => by cases hf⟩
  | cons row rows ih =>
      rw [Run.MeetsAlong, ih]
      constructor
      · rintro ⟨⟨first, hfirst, hfits⟩, rest, hrest, hfit⟩
        refine ⟨first :: rest, ?_, List.forall_mem_cons.mpr ⟨hfits, hfit⟩⟩
        rw [resolveRows, hfirst, Unwind.returned_bind, hrest]
        rfl
      · rintro ⟨frames, h, hfit⟩
        obtain ⟨first, hfirst, h⟩ := Unwind.bind_eq_returned.mp h
        obtain ⟨rest, hrest, h⟩ := Unwind.bind_eq_returned.mp h
        cases h
        obtain ⟨hfits, hfit⟩ := List.forall_mem_cons.mp hfit
        exact ⟨⟨first, hfirst, hfits⟩, rest, hrest, hfit⟩

/-- The narrowed line is the same number exactly when it fits. -/
theorem toInt_toInt32_iff (l : UInt32) : l.toInt32.toInt = (l.toNat : Int) ↔ l.toNat < 2 ^ 31 := by
  have hbound := l.toNat_lt
  show l.toBitVec.toInt = (l.toNat : Int) ↔ _
  rw [BitVec.toInt_eq_toNat_cond, UInt32.toNat_toBitVec]
  split <;> omega

theorem narrowed_line_iff (f : ResolvedFrame) :
    (f.line.map UInt32.toInt32).map Int32.toInt = lineNumber f ↔ LineFits f := by
  unfold lineNumber LineFits
  cases f.line with
  | none => simp
  | some l => simp [toInt_toInt32_iff]

/-- The lines that are shown for a row: that of its last frame, and those of the frames before
it. -/
theorem lineFits_iff (row : List ResolvedFrame) :
    (∀ f ∈ row, LineFits f) ↔
      LineFits (ResolvedFrame.physical row) ∧ ∀ f ∈ row.dropLast, LineFits f := by
  rcases List.eq_nil_or_concat row with rfl | ⟨front, last, rfl⟩
  · have hnone : LineFits (ResolvedFrame.physical []) := fun l h => by cases h
    exact iff_of_true (fun f hf => by cases hf) ⟨hnone, fun f hf => by cases hf⟩
  · rw [List.concat_eq_append, List.dropLast_concat, ResolvedFrame.physical,
      List.getLast?_concat, Option.getD_some, List.forall_mem_append]
    simp [and_comm]

theorem line_column_iff (frames : List (List ResolvedFrame)) :
    (frames.map fun f => (ResolvedFrame.physical f).line.map UInt32.toInt32).map
        (Option.map Int32.toInt)
      = (frames.map fun f => lineNumber (ResolvedFrame.physical f)) ↔
      ∀ row ∈ frames, LineFits (ResolvedFrame.physical row) := by
  rw [List.map_map, List.map_inj_left]
  exact forall₂_congr fun row _ => narrowed_line_iff _

theorem chain_iff (row : List ResolvedFrame) :
    (ResolvedFrame.chain row).map (fun c => some (c.1, c.2.1, c.2.2.map Int32.toInt))
      = (row.dropLast.map fun r => some (r.function, r.file, lineNumber r)) ↔
      ∀ f ∈ row.dropLast, LineFits f := by
  rw [ResolvedFrame.chain, ← List.dropLast_eq_take, List.map_map, List.map_inj_left]
  apply forall₂_congr
  intro f _
  rw [← narrowed_line_iff]
  simp

theorem inlined_column_iff {arrow : Arrow} (harrow : arrow.Appends)
    (frames : List (List ResolvedFrame)) :
    (arrow.lists (buildInlineList arrow (frames.map ResolvedFrame.chain))).map
        (Option.map (List.map (Option.map fun c => (c.1, c.2.1, c.2.2.map Int32.toInt))))
      = (frames.map fun f =>
          some (f.dropLast.map fun r => some (r.function, r.file, lineNumber r))) ↔
      ∀ row ∈ frames, ∀ f ∈ row.dropLast, LineFits f := by
  rw [lists_buildInlineList harrow, List.map_map, List.map_map, List.map_inj_left]
  apply forall₂_congr
  intro row _
  rw [← chain_iff]
  simp [Function.comp_def]

/-- **When the output of a batch is faithful**, in every state: when every row, in the state it
comes to, is resolved without unwinding, and to frames whose lines an `i32` holds. -/
theorem faithful_iff {arrow : Arrow} (harrow : arrow.Appends) (rd : Readers) (w : Nat → World)
    (batch : RecordBatch) (s : SymbolsState) :
    Faithful arrow rd w batch s ↔
      Run.MeetsAlong (rowStep rd) (RowFits rd) s (batch.rows w) := by
  rw [meetsAlong_rowFits_iff]
  have hsymbolicate : (Symbolicate.process arrow rd w batch s).1
      = (fun frames => Symbolicate.Columns.structArray arrow
          (frames.foldl Symbolicate.Columns.push .empty)) <$> resolveRows rd (batch.rows w) s := by
    show Symbolicate.Columns.structArray arrow <$> (batch.overRows rd w _ _ _ s).1 = _
    rw [overRows_fst, ← comp_map]
    rfl
  have hinline : (InlineFrames.process arrow rd w batch s).1
      = (fun frames => buildInlineList arrow (frames.map ResolvedFrame.chain))
          <$> resolveRows rd (batch.rows w) s := by
    show buildInlineList arrow <$> (batch.overRows rd w _ _ _ s).1 = _
    rw [overRows_fst, ← comp_map]
    simp only [foldl_chains, Function.comp_def, List.nil_append]
    rfl
  constructor
  · -- the line column tells of the last frames, the list column of those before them
    rintro ⟨frames, out, lists, hframes, -, hout, -, htells⟩
    rw [hframes, Unwind.map_returned, foldl_push] at hsymbolicate
    cases hsymbolicate.symm.trans hout
    refine ⟨frames, hframes, fun row hrow => (lineFits_iff row).mpr ⟨?_, ?_⟩⟩
    · exact (line_column_iff frames).mp htells.line row hrow
    · exact (inlined_column_iff harrow frames).mp htells.inlined row hrow
  · -- everything but a line is copied as it is
    rintro ⟨frames, hframes, hfit⟩
    rw [hframes, Unwind.map_returned, foldl_push] at hsymbolicate
    rw [hframes, Unwind.map_returned] at hinline
    have hlength : frames.length = batch.numRows := by
      rw [length_resolveRows hframes, RecordBatch.rows, List.length_map, List.length_range]
    have hphysical := fun row hrow => ((lineFits_iff row).mp (hfit row hrow)).1
    have hchain := fun row hrow => ((lineFits_iff row).mp (hfit row hrow)).2
    refine ⟨frames, _, _, hframes, hlength, hsymbolicate, hinline, ?_⟩
    exact {
      function := rfl
      file := rfl
      line := (line_column_iff frames).mpr hphysical
      module := rfl
      debugId := rfl
      status := rfl
      inlined := (inlined_column_iff harrow frames).mpr hchain
      sameLists := rfl }

/-- The frame is at the largest line that fits. -/
theorem faithful_addressAndNull :
    Faithful StandIn.arrow (StandIn.lineReaders 0x7fffffff) (fun _ => StandIn.oneImage)
      StandIn.addressAndNull StandIn.oneImageAdded := by
  refine (faithful_iff StandIn.appends_arrow _ _ _ _).mpr ⟨⟨[{
    function := some "main"
    functionRaw := some "main"
    file := some "main.c"
    line := some 0x7fffffff
    module := some "a"
    debugId := some "111111111111111111111111111111110"
    status := .ok }], by decide +kernel, ?_⟩, ⟨[.notFound], by decide +kernel, ?_⟩, trivial⟩
  · intro f hf l hl
    rw [List.mem_singleton.mp hf] at hl
    cases hl
    decide
  · intro f hf l hl
    rw [List.mem_singleton.mp hf] at hl
    cases hl

/-- The frame is at the next line: `symbolicate` shows it as -2147483648. -/
theorem not_faithful_addressAndNull :
    ¬ ∀ (arrow : Arrow), arrow.Appends → ∀ (rd : Readers) (w : Nat → World)
      (batch : RecordBatch) (s : SymbolsState), Faithful arrow rd w batch s := by
  intro h
  obtain ⟨frames, out, lists, hframes, -, hout, -, htells⟩ := h StandIn.arrow
    StandIn.appends_arrow (StandIn.lineReaders 0x80000000) (fun _ => StandIn.oneImage)
    StandIn.addressAndNull StandIn.oneImageAdded
  obtain ⟨hlines, hshown⟩ :
      (fun frames => frames.map fun f => lineNumber (ResolvedFrame.physical f)) <$>
        resolveRows (StandIn.lineReaders 0x80000000)
          (StandIn.addressAndNull.rows fun _ => StandIn.oneImage) StandIn.oneImageAdded
        = .returned [some 2147483648, none] ∧
      (fun out => out.line.map (Option.map Int32.toInt)) <$>
        (Symbolicate.process StandIn.arrow (StandIn.lineReaders 0x80000000)
          (fun _ => StandIn.oneImage) StandIn.addressAndNull StandIn.oneImageAdded).1
        = .returned [some (-2147483648), none] := by
    decide +kernel
  rw [hframes, Unwind.map_returned, Unwind.returned.injEq] at hlines
  rw [hout, Unwind.map_returned, Unwind.returned.injEq] at hshown
  have hline := htells.line
  rw [hlines, hshown] at hline
  revert hline
  decide

end SymbolsState

end VgiSymbols
