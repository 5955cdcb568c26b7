import VgiSymbols.State.Transparency
import VgiSymbols.Worker.Session

set_option autoImplicit false

/-! # The scalars as pure functions

Over fixed sources and unchanged files that share no alias, the scalars are pure functions of
their rows: what they return for a row is what an uncached resolver returns for it, whatever was
called before. So the rows of a column may be reordered, repeated or cut into batches at will.
-/

namespace VgiSymbols

open Unwind Sweep SymbolsState

variable {rd : Readers} {fs : FileSystem} {sources : List SourceSpec}

/-! ## Without a cache -/

/-- What answers a row without a cache. -/
def uncachedAnswer (rd : Readers) (fs : FileSystem) (sources : List SourceSpec) (row : Row) :
    Answer :=
  match row.2 with
  | some (b, _) => answerFor rd fs sources (canonicalToken b)
  | none => .notFound

/-- The frames of a row without a cache. -/
def uncachedFrames (rd : Readers) (fs : FileSystem) (sources : List SourceSpec) (row : Row) :
    List ResolvedFrame :=
  (uncachedAnswer rd fs sources row).frames rd Limits.default row.addr

/-- The function name of a row without a cache. -/
def uncachedName (rd : Readers) (fs : FileSystem) (sources : List SourceSpec) (row : Row) :
    Option String :=
  (uncachedAnswer rd fs sources row).functionName rd row.addr

/-- The scalars return for a batch what an uncached resolver returns for its rows. -/
structure PureOn (arrow : Arrow) (rd : Readers) (fs : FileSystem) (sources : List SourceSpec)
    (c : Chunk) (s : SymbolsState) : Prop where
  symbolicate :
    Symbolicate.StructArray.rows <$> (Symbolicate.process arrow rd c.w c.batch s).1
      = .returned (c.rows.map fun row => StructRow.of (uncachedFrames rd fs sources row))
  inlineFrames :
    arrow.lists <$> (InlineFrames.process arrow rd c.w c.batch s).1
      = .returned (c.rows.map fun row =>
          some ((ResolvedFrame.chain (uncachedFrames rd fs sources row)).map some))
  functionName :
    (FunctionName.process rd c.w c.batch s).1
      = .returned (c.rows.map (uncachedName rd fs sources))

/-! ## In a consistent state -/

section Consistent

variable (hlist : ListsReturn rd fs sources) (hfs : fs.Unchanged)
  (hdis : DisjointAliases rd fs sources)
include hlist hfs hdis

theorem Consistent.answerRow {s : SymbolsState} (hs : s.Consistent rd fs sources) {row : Row}
    (hrow : row.1.fs = fs) :
    (s.answerRow rd row).1 = .returned (uncachedAnswer rd fs sources row) ∧
      (s.answerRow rd row).2.Consistent rd fs sources := by
  obtain ⟨⟨fs', now⟩, _ | ⟨b, a⟩⟩ := row
  · exact ⟨rfl, hs⟩
  · obtain rfl : fs = fs' := hrow.symm
    have hlooked := looked_lookup rd ⟨fs, now⟩ s b
    obtain ⟨answer, hout, hanswer⟩ :=
      hs.obs_looked hlist hfs (coherent_of_disjointAliases hfs hdis fun a => a) hlooked
    exact ⟨hout.trans (congrArg returned hanswer), hs.looked hlist hfs hlooked⟩

theorem Consistent.pureOn {arrow : Arrow} (harrow : arrow.Appends) {s : SymbolsState}
    (hs : s.Consistent rd fs sources) {c : Chunk} (hc : ∀ i, (c.w i).fs = fs) :
    PureOn arrow rd fs sources c s := by
  have hrows : ∀ row ∈ c.rows, row.1.fs = fs := by
    intro row hrow
    obtain ⟨i, -, rfl⟩ := List.mem_map.mp hrow
    exact hc i
  have hstep : ∀ row ∈ c.rows, ∀ s : SymbolsState, s.Consistent rd fs sources →
      (s.answerRow rd row).1 = .returned (uncachedAnswer rd fs sources row) ∧
        (s.answerRow rd row).2.Consistent rd fs sources :=
    fun row hrow s hs => Consistent.answerRow hlist hfs hdis hs (hrows row hrow)
  obtain ⟨hanswers, -⟩ := sweep_eq_map hstep hs
  have hframes : (sweep (resolveRow rd) c.rows s).1
      = .returned (c.rows.map (uncachedFrames rd fs sources)) := by
    rw [sweep_resolveRow, mapValue, hanswers, hs.limits_eq, map_returned, List.zipWith_map_right,
      List.zipWith_self]
    rfl
  constructor
  · have h := congrArg Prod.fst (Symbolicate.rows_process harrow rd c.w c.batch s)
    refine h.trans ?_
    show List.map StructRow.of <$> (sweep (resolveRow rd) c.rows s).1 = _
    rw [hframes, map_returned, List.map_map]
    rfl
  · have h := congrArg Prod.fst (InlineFrames.lists_process harrow rd c.w c.batch s)
    refine h.trans ?_
    show List.map _ <$> (sweep (resolveRow rd) c.rows s).1 = _
    rw [hframes, map_returned, List.map_map]
    rfl
  · rw [FunctionName.process_eq]
    show (sweep (nameRow rd) c.rows s).1 = _
    rw [sweep_nameRow, mapValue, hanswers, map_returned, List.zipWith_map_right,
      List.zipWith_self]
    rfl

end Consistent

/-! ## In a session -/

namespace Worker

variable {vgi : VgiTables} {arrow : Arrow}

/-- A call that sees the files as they are and neither adds nor drops a source. -/
def Call.Keeps (fs : FileSystem) : Call vgi → Prop
  | .symbolicate c | .inlineFrames c | .functionName c => ∀ i, (c.w i).fs = fs
  | .openScan _ f _ w => w.fs = fs ∧ f ≠ .addSource ∧ f ≠ .dropSource
  | .nextBatch _ => True

/-- The operations of such a call leave the source list alone. -/
theorem Call.Keeps.forall_ops {call : Call vgi} (hcall : call.Keeps fs) (s : SymbolsState) :
    ∀ i ∈ call.ops rd s, i.1.fs = fs ∧ i.2.keepsSources = true := by
  intro i hi
  cases call with
  | symbolicate c | inlineFrames c | functionName c =>
      obtain ⟨row, hrow, hop⟩ := List.mem_filterMap.mp hi
      obtain ⟨x, -, rfl⟩ := Option.map_eq_some_iff.mp hop
      obtain ⟨j, -, rfl⟩ := List.mem_map.mp ((reachedRows_isPrefix _ c.rows s).subset hrow)
      exact ⟨hcall j, rfl⟩
  | openScan handle f args w =>
      obtain ⟨hw, hadd, hdrop⟩ := hcall
      obtain ⟨op, hop, rfl⟩ := Option.map_eq_some_iff.mp (Option.mem_toList.mp hi)
      refine ⟨hw, ?_⟩
      cases f with
      | moduleInfoBlob | moduleInfoPath | cacheStatus | listSources => cases hop
      | cacheEvict =>
          cases hop
          rfl
      | addSource => exact absurd rfl hadd
      | dropSource => exact absurd rfl hdrop
  | nextBatch handle => cases hi

/-- **The scalars are pure.** After any session over fixed sources and unchanged files that share
no alias, they return for a batch what an uncached resolver returns for its rows. -/
theorem scalars_pure (harrow : arrow.Appends) (hlist : ListsReturn rd fs sources)
    (hfs : fs.Unchanged) (hdis : DisjointAliases rd fs sources) (maxBytes : UInt64)
    (maxModules : Nat) (nextId : UInt64) {calls : List (Call vgi)}
    (hcalls : ∀ call ∈ calls, call.Keeps fs) {c : Chunk} (hc : ∀ i, (c.w i).fs = fs) :
    PureOn arrow rd fs sources c
      (Run.run (step vgi arrow rd) ⟨registered maxBytes maxModules nextId sources, ∅⟩
        calls).state := by
  have hkeep : ∀ (t : Session) (call : Call vgi), t.state.Consistent rd fs sources →
      call.Keeps fs → (step vgi arrow rd t call).state.Consistent rd fs sources := by
    intro t call ht hcall
    rw [state_step]
    refine Run.invariant_run (fun s i hs hi => ?_) ht
      (Run.MeetsAlong.of_forall_mem (hcall.forall_ops t.state) t.state)
    obtain ⟨⟨fs', now⟩, op⟩ := i
    obtain ⟨rfl : fs' = fs, hop⟩ := hi
    exact Consistent.stepIn hlist hfs hs (i := (now, op)) hop
  have hs := Run.invariant_run hkeep (s := ⟨registered maxBytes maxModules nextId sources, ∅⟩)
    (consistent_registered maxBytes maxModules nextId) (Run.MeetsAlong.of_forall_mem hcalls _)
  exact Consistent.pureOn hlist hfs hdis harrow hs hc

/-- A batch of two rows after another batch, an eviction and a listing. -/
theorem scalars_pure_goodAndBad :
    let w : World := ⟨VgiSymbols.StandIn.goodAndBad, 4⟩
    let rows : Chunk :=
      { w := fun _ => w
        batch :=
          { build := .utf8 [some (VgiSymbols.StandIn.token 0x22), none]
            addr := .int64 [some 4, some 5]
            numRows := 2
            rows_build := rfl
            rows_addr := rfl } }
    let all : SqlCall := ⟨[], []⟩
    let calls : List (Call StandIn.vgiTables) :=
      [.functionName rows, .openScan 0 .cacheEvict all w, .openScan 1 .listSources all w,
        .symbolicate rows]
    PureOn VgiSymbols.StandIn.arrow VgiSymbols.StandIn.readers VgiSymbols.StandIn.goodAndBad
      [VgiSymbols.StandIn.dirSource "src0" "d"] rows
      (Run.run (step StandIn.vgiTables VgiSymbols.StandIn.arrow VgiSymbols.StandIn.readers)
        ⟨registered 10 1 1 [VgiSymbols.StandIn.dirSource "src0" "d"], ∅⟩ calls).state :=
  scalars_pure VgiSymbols.StandIn.appends_arrow
    (listsReturn_of_total VgiSymbols.StandIn.readers_total _)
    (VgiSymbols.StandIn.directory_unchanged _ _) VgiSymbols.StandIn.disjointAliases_goodAndBad
    10 1 1
    (fun call hcall => by
      simp only [List.mem_cons, List.not_mem_nil, or_false] at hcall
      rcases hcall with rfl | rfl | rfl | rfl
      · exact fun _ => rfl
      · exact ⟨rfl, by decide, by decide⟩
      · exact ⟨rfl, by decide, by decide⟩
      · exact fun _ => rfl)
    fun _ => rfl

end Worker

end VgiSymbols
