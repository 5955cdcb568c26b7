import VgiSymbols.State.FastPath

set_option autoImplicit false

/-! # Rows that say `ok`

A row that says `ok` should name a function. Both readers stamp the rows of all frames `ok`,
and a frame need not have a name: a line table can cover an address that no function covers. So
the rows name their functions exactly when the frames do (`NamesFrames`), in every reachable
state (`okNamed_resolve_iff`).
-/

namespace VgiSymbols

open Unwind

variable {rd : Readers}

/-- Every row that says `ok` names a function; where one frame without a function covers the
address of a DWARF module, that is the name of the nearest symbol below. -/
structure OkNamed (answer : Answer) (addr : UInt64) (rows : List ResolvedFrame) : Prop where
  named : ∀ r ∈ rows, r.status = .ok → ∃ name, r.function = some name
  lineOnly : ∀ m f, answer = .module (.dwarf m) →
    m.ctx.findFrames addr = .returned (.ok (.frame f .done)) → f.function = none →
    ∀ r ∈ rows, r.status = .ok → ∃ name, m.symbolFor addr = some name ∧ r.function = some name

theorem okNamed_of_not_ok {answer : Answer} {addr : UInt64} {r : ResolvedFrame}
    (h : r.status ≠ .ok) : OkNamed answer addr [r] where
  named _ hr hok := absurd (List.mem_singleton.mp hr ▸ hok) h
  lineOnly _ _ _ _ _ _ hr hok := absurd (List.mem_singleton.mp hr ▸ hok) h

/-- The guarded rows: where the reader panics there is one error row. -/
theorem okNamed_guard {answer : Answer} {addr : UInt64} {out : Unwind (List ResolvedFrame)}
    {kind : ErrorKind} {debugId : Option String} {P : Prop}
    (hreturned : ∀ rows, out = .returned rows → (OkNamed answer addr rows ↔ P))
    (hpanicked : out = .panicked → P) :
    OkNamed answer addr (out.catchUnwind.getD [ResolvedFrame.error kind debugId]) ↔ P := by
  cases out with
  | returned rows => exact hreturned rows rfl
  | panicked => exact iff_of_true (okNamed_of_not_ok ResolveStatus.noConfusion) (hpanicked rfl)

namespace DwarfModule

/-- The frames up to the cap have names that can be read, if the reader gets through them. -/
def NamesFrames (rd : Readers) (m : DwarfModule) (addr : UInt64) (depth : Nat) : Prop :=
  ∀ iter, dwarfProbeOk addr = true → m.ctx.findFrames addr = .returned (.ok iter) →
    ReadsThrough rd depth iter → ∀ f ∈ iter.frames.take depth, rawName f ≠ .returned none

/-- A row has a function when the frame it shows has a name. -/
theorem Shows.function_eq_none {f : AddrFrame} {r : ResolvedFrame} (h : Shows rd f r) :
    r.function = none ↔ rawName f = .returned none := by
  have hfunction := h.function
  rw [h.functionRaw, returned.injEq]
  cases hraw : r.functionRaw with
  | none =>
      rw [hraw] at hfunction
      exact iff_of_true (returned.inj hfunction).symm rfl
  | some raw =>
      rw [hraw] at hfunction
      obtain ⟨name, -, hname⟩ := map_eq_returned.mp hfunction
      rw [← hname]
      simp

/-- The rows of a module name their functions when its frames have names. -/
theorem okNamed_iff {m : DwarfModule} {addr : UInt64} {limits : Limits}
    {rows : List ResolvedFrame} (h : m.resolve rd addr limits = .returned rows) :
    OkNamed (.module (.dwarf m)) addr rows ↔ m.NamesFrames rd addr limits.maxInlineDepth := by
  have hnoLine : OkNamed (.module (.dwarf m)) addr [m.noLineFrame addr] :=
    okNamed_of_not_ok (by rw [status_noLineFrame]; decide)
  cases resolved_of_returned h with
  | unprobed hprobe =>
      apply iff_of_true hnoLine
      intro iter hprobe'
      rw [hprobe] at hprobe'
      cases hprobe'
  | broken hprobe hfind hfound =>
      apply iff_of_true (okNamed_of_not_ok ResolveStatus.noConfusion)
      intro iter _ hfind' _ f hf
      cases hfind.symm.trans hfind'
      rcases hfound with hfound | ⟨hfound, -⟩
      · cases hfound
      · cases hfound
        rw [FrameIter.frames, List.take_nil] at hf
        cases hf
  | empty hprobe hfind hiter =>
      apply iff_of_true hnoLine
      intro iter _ hfind' _ f hf
      cases hfind.symm.trans hfind'
      rcases hiter with hzero | rfl
      · rw [hzero, List.take_zero] at hf
        cases hf
      · rw [FrameIter.frames, List.take_nil] at hf
        cases hf
  | @frames iter _ hprobe hfind hne hshows hchain =>
      constructor
      · intro hnamed iter' _ hfind' _ f hf hnone
        cases hfind.symm.trans hfind'
        obtain ⟨r, hr, hshow⟩ := hshows.exists_right hf
        obtain ⟨k, hk⟩ := List.getElem?_of_mem hr
        obtain ⟨name, hname⟩ := hnamed.named r hr (hchain.get hk).2.2.2.2
        rw [hshow.function_eq_none.mpr hnone] at hname
        cases hname
      · intro hframes
        have hread := (returns_resolve_iff hprobe hfind).mp ⟨rows, h⟩
        have hall := hframes iter hprobe hfind hread
        constructor
        · intro r hr _
          obtain ⟨f, hf, hshow⟩ := hshows.exists_left hr
          exact Option.ne_none_iff_exists'.mp fun hnone =>
            hall f hf (hshow.function_eq_none.mp hnone)
        · rintro m' f ⟨⟩ hfind' hfunction r hr -
          -- then the only frame has no name
          cases hfind.symm.trans hfind'
          obtain ⟨f', hf', -⟩ := hshows.exists_left hr
          have hf'' := List.mem_of_mem_take hf'
          rw [FrameIter.frames, FrameIter.frames, List.mem_singleton] at hf''
          subst hf''
          refine absurd ?_ (hall _ hf')
          rw [rawName, hfunction]

end DwarfModule

namespace PdbModule

/-- The frames up to the cap have names. -/
def NamesFrames (m : PdbModule) (addr : UInt64) (depth : Nat) : Prop :=
  ∀ ctx probe frames, m.data.makeContext = .returned (.ok ctx) → toU32 addr = some probe →
    ctx.findFrames probe = .returned (.ok (some frames)) →
    ∀ f ∈ frames.take depth, f.function ≠ none

theorem okNamed_iff {m : PdbModule} {addr : UInt64} {limits : Limits}
    {rows : List ResolvedFrame} (h : m.resolve addr limits = .returned rows) :
    OkNamed (.module (.pdb m)) addr rows ↔ m.NamesFrames addr limits.maxInlineDepth := by
  cases resolved_of_returned h with
  | blank hstatus hnone =>
      apply iff_of_true (okNamed_of_not_ok hstatus)
      intro ctx probe frames hctx hprobe hfind f hf
      rw [hnone ctx probe frames hctx hprobe hfind] at hf
      cases hf
  | frames hctx hprobe hfind hne hshows hchain =>
      constructor
      · intro hnamed ctx' probe' frames' hctx' hprobe' hfind' f hf hnone
        cases hctx.symm.trans hctx'
        cases hprobe.symm.trans hprobe'
        cases hfind.symm.trans hfind'
        obtain ⟨r, hr, hshow⟩ := hshows.exists_right hf
        obtain ⟨k, hk⟩ := List.getElem?_of_mem hr
        obtain ⟨name, hname⟩ := hnamed.named r hr (hchain.get hk).2.2.2.2
        rw [hshow.function, hnone] at hname
        cases hname
      · intro hframes
        refine ⟨fun r hr _ => ?_, fun m' f heq => by cases heq⟩
        obtain ⟨f, hf, hshow⟩ := hshows.exists_left hr
        rw [hshow.function]
        exact Option.ne_none_iff_exists'.mp (hframes _ _ _ hctx hprobe hfind f hf)

/-- `resolve` comes back where the reader finds frames. -/
theorem returns_resolve {m : PdbModule} {addr : UInt64} (limits : Limits) {ctx : PdbContext}
    {probe : UInt32} {frames : List PdbFrame}
    (hctx : m.data.makeContext = .returned (.ok ctx)) (hprobe : toU32 addr = some probe)
    (hfind : ctx.findFrames probe = .returned (.ok (some frames))) :
    (m.resolve addr limits).Returns := by
  unfold resolve
  simp only [hctx, hprobe, hfind, returned_bind]
  split <;> exact returns_returned _

end PdbModule

namespace ParsedModule

/-- The reader of the module has a name for each frame of the address, up to the cap. -/
def NamesFrames (rd : Readers) (addr : UInt64) (depth : Nat) : ParsedModule → Prop
  | dwarf m => m.NamesFrames rd addr depth
  | pdb m => m.NamesFrames addr depth

theorem okNamed_iff (m : ParsedModule) (addr : UInt64) (limits : Limits) :
    OkNamed (.module m) addr (m.resolve rd addr limits) ↔
      m.NamesFrames rd addr limits.maxInlineDepth := by
  cases m with
  | dwarf m =>
      refine okNamed_guard (fun rows h => DwarfModule.okNamed_iff h) fun hpanicked => ?_
      intro iter hprobe hfind hread
      obtain ⟨rows, hrows⟩ := (DwarfModule.returns_resolve_iff hprobe hfind).mpr hread
      cases hrows.symm.trans hpanicked
  | pdb m =>
      refine okNamed_guard (fun rows h => PdbModule.okNamed_iff h) fun hpanicked => ?_
      intro ctx probe frames hctx hprobe hfind
      obtain ⟨rows, hrows⟩ := PdbModule.returns_resolve limits hctx hprobe hfind
      cases hrows.symm.trans hpanicked

end ParsedModule

namespace SymbolsState

/-- **When `ok` means that a function was found**, in every reachable state: when the reader of
the module that answers has a name for every frame of the address, up to the cap on the depth. -/
theorem okNamed_resolve_iff (rd : Readers) (maxBytes : UInt64) (maxModules : Nat)
    (ops : List (World × Op)) (w : World) (token : String) (addr : UInt64) :
    let s := runOps rd (withBudgets maxBytes maxModules) ops
    ∀ answer, (s.lookup rd w token).1 = .returned answer →
      ∀ rows, (s.resolve rd w token addr).1 = .returned rows →
        (OkNamed answer addr rows ↔
          ∀ m, answer = .module m → m.NamesFrames rd addr s.limits.maxInlineDepth) := by
  intro s answer hanswer rows hrows
  rw [resolve_eq_lookup, hanswer] at hrows
  cases hrows
  cases answer with
  | module m =>
      rw [Answer.frames, ParsedModule.okNamed_iff]
      refine ⟨fun h m' heq => ?_, fun h => h m rfl⟩
      cases heq
      exact h
  | notFound =>
      exact iff_of_true (okNamed_of_not_ok ResolveStatus.noConfusion) fun m heq => by cases heq
  | error kind =>
      exact iff_of_true (okNamed_of_not_ok ResolveStatus.noConfusion) fun m heq => by cases heq

/-- The good image: its frame is `main`. -/
theorem okNamed_resolve_main :
    let w : World := ⟨StandIn.directory "d" [("d/a", 1 :: StandIn.buildId 0x11)], 0⟩
    let s := runOps StandIn.readers (withBudgets 4096 4)
      [(w, .addSource "dir" (some "d") none none none none)]
    ∃ answer rows, (s.lookup StandIn.readers w (StandIn.token 0x11)).1 = .returned answer ∧
      (s.resolve StandIn.readers w (StandIn.token 0x11) 4).1 = .returned rows ∧
      OkNamed answer 4 rows := by
  intro w s
  have hanswer : (s.lookup StandIn.readers w (StandIn.token 0x11)).1 = .returned (.module _) := rfl
  refine ⟨_, _, hanswer, rfl, (okNamed_resolve_iff StandIn.readers 4096 4 _ w _ 4 _ hanswer _
    rfl).mpr fun m heq => ?_⟩
  cases heq
  rintro iter - ⟨⟩ - f hf hnone
  rw [List.mem_singleton.mp hf] at hnone
  cases hnone

/-- An image with a line table but no function names. -/
theorem not_okNamed_lineTable :
    ¬ ∀ (ops : List (World × Op)) (w : World) (token : String) (addr : UInt64)
      (rows : List ResolvedFrame),
      ((runOps StandIn.readers (withBudgets 4096 4) ops).resolve StandIn.readers w token addr).1
          = .returned rows →
        ∀ r ∈ rows, r.status = .ok → ∃ name, r.function = some name := by
  intro h
  let w : World := ⟨StandIn.directory "d" [("d/a", 3 :: StandIn.buildId 0x11)], 0⟩
  have hunnamed : (((runOps StandIn.readers (withBudgets 4096 4)
      [(w, .addSource "dir" (some "d") none none none none)]).resolve StandIn.readers w
        (StandIn.token 0x11) 4).1.catchUnwind.any fun rows =>
      rows.any fun r => decide (r.status = .ok ∧ r.function = none)) = true := by decide +kernel
  obtain ⟨rows, hrows, hany⟩ := (Option.any_eq_true _ _).mp hunnamed
  obtain ⟨r, hr, hrow⟩ := List.any_eq_true.mp hany
  obtain ⟨hok, hnone⟩ := of_decide_eq_true hrow
  obtain ⟨name, hname⟩ := h _ w _ 4 rows (catchUnwind_eq_some.mp hrows) r hr hok
  rw [hnone] at hname
  cases hname

end SymbolsState

end VgiSymbols
