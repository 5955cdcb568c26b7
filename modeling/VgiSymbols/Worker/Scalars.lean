import VgiSymbols.Basic.Pairs
import VgiSymbols.Basic.Sweep
import VgiSymbols.State.Shape
import VgiSymbols.Worker.Batch

set_option autoImplicit false

/-! # The resolving scalars

`symbolicate`, `inline_frames` and `function_name` walk a batch through the shared state. Each is
a sweep of the lookups of its rows, followed by what it shows of their answers. So the three do
the same work on the state and unwind on the same batches (`scalars_agree`), and it makes no
difference how a column is cut into batches (`process_chunks`).
-/

namespace VgiSymbols

open Unwind Sweep

/-! ## `function_name` -/

/-- The function name of row `i` of a batch. -/
def RecordBatch.nameAt (rd : Readers) (w : World) (batch : RecordBatch) (s : SymbolsState)
    (i : Nat) : Unwind (Option String) × SymbolsState :=
  match batch.build.buildIdAt i, batch.addr.addressAt i with
  | some b, some a => s.functionName rd w b a
  | _, _ => (.returned none, s)

/-- The loop over the rows of a batch; row `i` is looked up in the surroundings `w i`. -/
def RecordBatch.overNames (rd : Readers) (w : Nat → World) (batch : RecordBatch) :
    List Nat → List (Option String) → SymbolsState → Unwind (List (Option String)) × SymbolsState
  | [], out, s => (.returned out, s)
  | i :: rows, out, s =>
      match batch.nameAt rd (w i) s i with
      | (.panicked, s) => (.panicked, s)
      | (.returned name, s) => batch.overNames rd w rows (out ++ [name]) s

/-- `function_name` on a batch. -/
def FunctionName.process (rd : Readers) (w : Nat → World) (batch : RecordBatch)
    (s : SymbolsState) : Unwind (List (Option String)) × SymbolsState :=
  batch.overNames rd w (List.range batch.numRows) [] s

/-! ## Rows -/

/-- The address of a row, if neither cell is null. -/
def Row.addr (row : Row) : UInt64 := (row.2.map Prod.snd).getD 0

namespace SymbolsState

variable {rd : Readers}

/-- What answers a row; a null is not looked up. -/
def answerRow (rd : Readers) (s : SymbolsState) (row : Row) : Unwind Answer × SymbolsState :=
  match row.2 with
  | some (b, _) => s.lookup rd row.1 b
  | none => (.returned .notFound, s)

/-- The function name of a row. -/
def nameRow (rd : Readers) (s : SymbolsState) (row : Row) :
    Unwind (Option String) × SymbolsState :=
  match row.2 with
  | some (b, a) => s.functionName rd row.1 b a
  | none => (.returned none, s)

theorem resolveRow_eq (s : SymbolsState) (row : Row) :
    s.resolveRow rd row = mapValue (Answer.frames rd s.limits row.addr) (s.answerRow rd row) := by
  obtain ⟨w, _ | ⟨b, a⟩⟩ := row
  · rfl
  · exact resolve_eq_lookup rd w s b a

theorem nameRow_eq (s : SymbolsState) (row : Row) :
    s.nameRow rd row = mapValue (Answer.functionName rd row.addr) (s.answerRow rd row) := by
  obtain ⟨w, _ | ⟨b, a⟩⟩ := row
  · rfl
  · exact functionName_eq_lookup rd w s b a

theorem limits_answerRow (s : SymbolsState) (row : Row) :
    (s.answerRow rd row).2.limits = s.limits := by
  obtain ⟨w, _ | ⟨b, a⟩⟩ := row
  · rfl
  · exact limits_looked (looked_lookup rd w s b)

/-- The frames of a sweep are those of the answers. -/
theorem sweep_resolveRow (rows : List Row) (s : SymbolsState) :
    sweep (resolveRow rd) rows s =
      mapValue (List.zipWith (fun row => Answer.frames rd s.limits row.addr) rows)
        (sweep (answerRow rd) rows s) :=
  sweep_eq_zipWith (J := fun s' => s'.limits = s.limits)
    (fun s' row h => (limits_answerRow s' row).trans h)
    (fun s' row h => by rw [resolveRow_eq, h]) rfl rows

/-- The names of a sweep are those of the answers. -/
theorem sweep_nameRow (rows : List Row) (s : SymbolsState) :
    sweep (nameRow rd) rows s =
      mapValue (List.zipWith (fun row => Answer.functionName rd row.addr) rows)
        (sweep (answerRow rd) rows s) :=
  sweep_eq_zipWith (J := fun _ => True) (fun _ _ _ => trivial) (fun s' row _ => nameRow_eq s' row)
    trivial rows

end SymbolsState

namespace RecordBatch

variable {rd : Readers} {w : Nat → World} {batch : RecordBatch}

open SymbolsState

theorem nameAt_eq (s : SymbolsState) (i : Nat) :
    batch.nameAt rd (w i) s i = s.nameRow rd (batch.row w i) := by
  unfold nameAt nameRow row
  cases batch.build.buildIdAt i with
  | none => rfl
  | some b => cases batch.addr.addressAt i <;> rfl

/-- The loop of `symbolicate` and `inline_frames` is a sweep. -/
theorem overRows_eq {α : Type} (push : α → List ResolvedFrame → α) (rows : List Nat) (out : α)
    (s : SymbolsState) :
    batch.overRows rd w push rows out s =
      mapValue (List.foldl push out) (sweep (resolveRow rd) (rows.map (batch.row w)) s) := by
  induction rows generalizing out s with
  | nil => rfl
  | cons i rows ih =>
      rw [overRows, resolveAt_eq, List.map_cons, sweep, mapValue_andThen]
      obtain ⟨frames | _, s'⟩ := s.resolveRow rd (batch.row w i)
      · simp only [andThen_returned, ih, mapValue_mapValue]
        rfl
      · rfl

/-- The loop of `function_name` is one too. -/
theorem overNames_eq (rows : List Nat) (out : List (Option String)) (s : SymbolsState) :
    batch.overNames rd w rows out s =
      mapValue (out ++ ·) (sweep (nameRow rd) (rows.map (batch.row w)) s) := by
  induction rows generalizing out s with
  | nil => simp [overNames, sweep]
  | cons i rows ih =>
      rw [overNames, nameAt_eq, List.map_cons, sweep, mapValue_andThen]
      obtain ⟨name | _, s'⟩ := s.nameRow rd (batch.row w i)
      · simp only [andThen_returned, ih, mapValue_mapValue, Function.comp_def, List.append_assoc,
          List.singleton_append]
      · rfl

end RecordBatch

/-! ## What the columns show -/

/-- One struct of the column `symbolicate` returns. -/
structure StructRow where
  function : Option String
  file : Option String
  line : Option Int32
  inlined : Option (List (Option InlineCell))
  module : Option String
  debugId : Option String
  status : String
  deriving DecidableEq

/-- The struct that is shown for the frames of a row. -/
def StructRow.of (frames : List ResolvedFrame) : StructRow where
  function := (ResolvedFrame.physical frames).function
  file := (ResolvedFrame.physical frames).file
  line := (ResolvedFrame.physical frames).line.map UInt32.toInt32
  inlined := some ((ResolvedFrame.chain frames).map some)
  module := (ResolvedFrame.physical frames).module
  debugId := (ResolvedFrame.physical frames).debugId
  status := (ResolvedFrame.physical frames).status.asStatus

/-- The structs of a struct column. -/
def Symbolicate.StructArray.rows {arrow : Arrow} (out : StructArray arrow) : List StructRow :=
  (out.function.zip <| out.file.zip <| out.line.zip <| (arrow.lists out.inlined).zip <|
    out.module.zip <| out.debugId.zip out.status).map
    fun (function, file, line, inlined, module, debugId, status) =>
      { function, file, line, inlined, module, debugId, status }

open SymbolsState

section Process

variable {arrow : Arrow} (harrow : arrow.Appends) (rd : Readers) (w : Nat → World)
  (batch : RecordBatch) (s : SymbolsState)

theorem FunctionName.process_eq :
    FunctionName.process rd w batch s = sweep (nameRow rd) (batch.rows w) s := by
  rw [process, RecordBatch.overNames_eq]
  exact mapValue_id _

theorem Symbolicate.process_eq :
    Symbolicate.process arrow rd w batch s =
      mapValue (fun frames => Columns.structArray arrow (frames.foldl Columns.push .empty))
        (sweep (resolveRow rd) (batch.rows w) s) := by
  show mapValue (Columns.structArray arrow) (batch.overRows rd w _ _ _ s) = _
  rw [RecordBatch.overRows_eq, mapValue_mapValue]
  rfl

theorem InlineFrames.process_eq :
    InlineFrames.process arrow rd w batch s =
      mapValue (fun frames => buildInlineList arrow (frames.map ResolvedFrame.chain))
        (sweep (resolveRow rd) (batch.rows w) s) := by
  show mapValue (buildInlineList arrow) (batch.overRows rd w _ _ _ s) = _
  rw [RecordBatch.overRows_eq, mapValue_mapValue]
  exact mapValue_congr (fun frames => congrArg (buildInlineList arrow) (foldl_chains [] frames)) _

include harrow

/-- The structs of the filled columns are those of the frames. -/
theorem Symbolicate.rows_structArray (frames : List (List ResolvedFrame)) :
    (Columns.structArray arrow (frames.foldl Columns.push .empty)).rows
      = frames.map StructRow.of := by
  rw [foldl_push]
  simp only [Columns.structArray, Columns.empty, StructArray.rows, List.nil_append,
    lists_buildInlineList harrow, List.map_map, List.zip_map']
  rfl

/-- **The structs `symbolicate` returns** are those of the frames of the rows. -/
theorem Symbolicate.rows_process :
    mapValue StructArray.rows (Symbolicate.process arrow rd w batch s)
      = mapValue (List.map StructRow.of) (sweep (resolveRow rd) (batch.rows w) s) := by
  rw [process_eq, mapValue_mapValue]
  exact mapValue_congr (rows_structArray harrow) _

/-- **The lists `inline_frames` returns** are the inline chains of the rows. -/
theorem InlineFrames.lists_process :
    mapValue arrow.lists (InlineFrames.process arrow rd w batch s)
      = mapValue (List.map fun frames => some ((ResolvedFrame.chain frames).map some))
          (sweep (resolveRow rd) (batch.rows w) s) := by
  rw [process_eq, mapValue_mapValue]
  exact mapValue_congr (fun frames => (lists_buildInlineList harrow _).trans (List.map_map ..)) _

end Process

/-! ## The three do the same work -/

/-- The rows of a module are stamped with its debug-id. -/
theorem ParsedModule.debugId_resolve (rd : Readers) (m : ParsedModule) (addr : UInt64)
    (limits : Limits) :
    m.resolve rd addr limits ≠ [] ∧
      ∀ r ∈ m.resolve rd addr limits, r.debugId = some m.debugId := by
  have hone : ∀ {r : ResolvedFrame}, r.debugId = some m.debugId →
      [r] ≠ [] ∧ ∀ r' ∈ [r], r'.debugId = some m.debugId := by
    intro r hr
    exact ⟨List.cons_ne_nil _ _, fun r' hr' => by rw [List.mem_singleton.mp hr', hr]⟩
  have hchain : ∀ {α : Type} {frames : List α} {rows : List ResolvedFrame}
      {R : α → ResolvedFrame → Prop} {name : Option String},
      frames ≠ [] → List.Forall₂ R frames rows →
      Chain name (some m.debugId) rows.length 0 rows →
      rows ≠ [] ∧ ∀ r' ∈ rows, r'.debugId = some m.debugId := by
    intro α frames rows R name hne hshows hrows
    refine ⟨fun hnil => hne ?_, fun r' hr' => ?_⟩
    · rw [hnil] at hshows
      exact List.forall₂_nil_right_iff.mp hshows
    · obtain ⟨i, hi⟩ := List.getElem?_of_mem hr'
      exact (hrows.get hi).2.2.2.1
  cases m with
  | dwarf m =>
      rw [resolve]
      rcases h : m.resolve rd addr limits with rows | _
      · rw [catchUnwind_returned, Option.getD_some]
        cases DwarfModule.resolved_of_returned h with
        | unprobed _ =>
            exact hone (by unfold DwarfModule.noLineFrame; cases m.symbolFor addr <;> rfl)
        | broken _ _ _ => exact hone rfl
        | empty _ _ _ =>
            exact hone (by unfold DwarfModule.noLineFrame; cases m.symbolFor addr <;> rfl)
        | frames _ _ hne hshows hrows => exact hchain hne hshows hrows
      · exact hone rfl
  | pdb m =>
      rw [resolve]
      rcases h : m.resolve addr limits with rows | _
      · rw [catchUnwind_returned, Option.getD_some]
        cases PdbModule.resolved_of_returned h with
        | blank _ _ => exact hone rfl
        | frames _ _ _ hne hshows hrows => exact hchain hne hshows hrows
      · exact hone rfl

/-- A row that names no module has no function name. -/
theorem Answer.functionName_eq_none {rd : Readers} {limits : Limits} {addr : UInt64}
    {answer : Answer} (h : (StructRow.of (answer.frames rd limits addr)).debugId = none) :
    answer.functionName rd addr = none := by
  cases answer with
  | notFound => rfl
  | error kind => rfl
  | module m =>
      obtain ⟨hne, hall⟩ := m.debugId_resolve rd addr limits
      obtain ⟨r, hlast⟩ := Option.isSome_iff_exists.mp (List.getLast?_isSome.mpr hne)
      have hsome : (StructRow.of (m.resolve rd addr limits)).debugId = some m.debugId := by
        rw [StructRow.of, ResolvedFrame.physical, hlast]
        exact hall r (List.mem_of_getLast? hlast)
      rw [Answer.frames, hsome] at h
      cases h

/-- The three functions agree on a batch. -/
structure ScalarsAgree (arrow : Arrow) (rd : Readers) (w : Nat → World) (batch : RecordBatch)
    (s : SymbolsState) : Prop where
  /-- `inline_frames` is the `inlined` column of `symbolicate`. -/
  inlined : mapValue arrow.lists (InlineFrames.process arrow rd w batch s)
    = mapValue (fun out => arrow.lists out.inlined) (Symbolicate.process arrow rd w batch s)
  /-- `function_name` does to the state what `symbolicate` does. -/
  state : (FunctionName.process rd w batch s).2 = (Symbolicate.process arrow rd w batch s).2
  returns : (FunctionName.process rd w batch s).1.Returns ↔
    (Symbolicate.process arrow rd w batch s).1.Returns
  /-- A row that names no module has no function name. -/
  unnamed : ∀ out names, (Symbolicate.process arrow rd w batch s).1 = .returned out →
    (FunctionName.process rd w batch s).1 = .returned names →
    List.Forall₂ (fun row name => row.debugId = none → name = none) out.rows names

/-- **The three scalars do the same work**, on every batch and in every state. -/
theorem scalars_agree {arrow : Arrow} (harrow : arrow.Appends) (rd : Readers) (w : Nat → World)
    (batch : RecordBatch) (s : SymbolsState) : ScalarsAgree arrow rd w batch s where
  inlined := by
    rw [InlineFrames.lists_process harrow, Symbolicate.process_eq, mapValue_mapValue]
    refine mapValue_congr (fun frames => ?_) _
    rw [Function.comp_apply, foldl_push]
    exact ((lists_buildInlineList harrow _).trans (List.map_map ..)).symm
  state := by
    rw [FunctionName.process_eq, sweep_nameRow, Symbolicate.process_eq, sweep_resolveRow]
    rfl
  returns := by
    rw [FunctionName.process_eq, sweep_nameRow, Symbolicate.process_eq, sweep_resolveRow]
    exact returns_map.trans (returns_map.trans returns_map).symm
  unnamed out names hout hnames := by
    rw [FunctionName.process_eq, sweep_nameRow] at hnames
    rw [Symbolicate.process_eq, sweep_resolveRow] at hout
    -- both columns are made of one list of answers
    obtain ⟨frames, hframes, rfl⟩ := map_eq_returned.mp hout
    obtain ⟨answers, hanswers, rfl⟩ := map_eq_returned.mp hframes
    obtain ⟨answers', hanswers', rfl⟩ := map_eq_returned.mp hnames
    cases hanswers.symm.trans hanswers'
    rw [Symbolicate.rows_structArray harrow, List.map_zipWith]
    exact List.Forall₂.zipWith (fun row answer => Answer.functionName_eq_none) _ _

theorem scalars_agree_addressAndNull :
    ScalarsAgree StandIn.arrow (StandIn.lineReaders 7) (fun _ => StandIn.oneImage)
      StandIn.addressAndNull StandIn.oneImageAdded :=
  scalars_agree StandIn.appends_arrow _ _ _ _

/-! ## Batches of one column -/

/-- A batch, and the surroundings its rows are resolved in. -/
structure Chunk where
  w : Nat → World
  batch : RecordBatch

def Chunk.rows (c : Chunk) : List Row := c.batch.rows c.w

/-- The scalars return for a batch what they return for the pieces, one after the other, and leave
the same state; also when a row unwinds. -/
structure SameAsPieces (arrow : Arrow) (rd : Readers) (c : Chunk) (chunks : List Chunk)
    (s : SymbolsState) : Prop where
  symbolicate : mapValue Symbolicate.StructArray.rows (Symbolicate.process arrow rd c.w c.batch s)
    = mapValue (List.flatMap Symbolicate.StructArray.rows)
        (sweep (fun s c => Symbolicate.process arrow rd c.w c.batch s) chunks s)
  inlineFrames : mapValue arrow.lists (InlineFrames.process arrow rd c.w c.batch s)
    = mapValue (List.flatMap arrow.lists)
        (sweep (fun s c => InlineFrames.process arrow rd c.w c.batch s) chunks s)
  functionName : FunctionName.process rd c.w c.batch s
    = mapValue List.flatten (sweep (fun s c => FunctionName.process rd c.w c.batch s) chunks s)

/-- **A column may be cut into batches anywhere.** -/
theorem process_chunks {arrow : Arrow} (harrow : arrow.Appends) (rd : Readers) (c : Chunk)
    {chunks : List Chunk} (hrows : c.rows = chunks.flatMap Chunk.rows) (s : SymbolsState) :
    SameAsPieces arrow rd c chunks s where
  symbolicate := by
    rw [Symbolicate.rows_process harrow]
    show mapValue _ (sweep _ c.rows s) = _
    rw [hrows]
    exact sweep_flatMap (fun s c => Symbolicate.rows_process harrow rd c.w c.batch s) chunks s
  inlineFrames := by
    rw [InlineFrames.lists_process harrow]
    show mapValue _ (sweep _ c.rows s) = _
    rw [hrows]
    exact sweep_flatMap (fun s c => InlineFrames.lists_process harrow rd c.w c.batch s) chunks s
  functionName := by
    -- here the output of a batch is the list of its rows itself
    have hid : ∀ x : Unwind (List (Option String)) × SymbolsState,
        mapValue (List.map fun name => name) x = x := fun x => by
      rw [List.map_id_fun']
      exact mapValue_id x
    have hpart : ∀ (s : SymbolsState) (c : Chunk),
        mapValue (fun names => names) (FunctionName.process rd c.w c.batch s)
          = mapValue (List.map fun name => name) (sweep (nameRow rd) c.rows s) := fun s c => by
      rw [FunctionName.process_eq, mapValue_id, hid]
      rfl
    rw [FunctionName.process_eq]
    show sweep _ c.rows s = _
    rw [hrows, ← hid (sweep (nameRow rd) _ s), sweep_flatMap hpart chunks s]
    exact mapValue_congr (fun _ => List.flatMap_id') _

/-- One row of the batch with the null. -/
def StandIn.pieceOf (build : Option String) (addr : Int64) : Chunk where
  w _ := StandIn.oneImage
  batch :=
    { build := .utf8 [build], addr := .int64 [some addr], numRows := 1, rows_build := rfl
      rows_addr := rfl }

theorem process_chunks_addressAndNull :
    SameAsPieces StandIn.arrow (StandIn.lineReaders 7)
      ⟨fun _ => StandIn.oneImage, StandIn.addressAndNull⟩
      [StandIn.pieceOf (some (StandIn.token 0x11)) 4, StandIn.pieceOf none 5]
      StandIn.oneImageAdded :=
  process_chunks StandIn.appends_arrow _ _ rfl _

end VgiSymbols
