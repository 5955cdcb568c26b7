import VgiSymbols.Module.Walk

set_option autoImplicit false

/-! # The physical frame

The last row of an answer is the one without the inline mark, and it stands for the physical
function. `resolve` counts the rows it has collected and not the frames of the chain, so when the
cap on the inline depth cuts the chain, the row of an inlined callee passes for the physical one.
`physicalLast_resolve_iff` says when the last row does show the outermost frame.
-/

namespace VgiSymbols

open Unwind

/-- The last row is the only physical one and shows the outermost frame of the chain; the rows
before it show frames inlined into it. -/
def PhysicalLast {α : Type} (shows : α → ResolvedFrame → Prop) (chain : List α)
    (rows : List ResolvedFrame) : Prop :=
  ∃ init outermost inlines physical, chain = init ++ [outermost] ∧
    rows = inlines ++ [physical] ∧
    physical.isInline = false ∧ physical.status = .ok ∧ shows outermost physical ∧
    ∀ r ∈ inlines, r.isInline = true ∧ ∃ f ∈ init, shows f r

/-- A row of another status is not the row of a frame. -/
theorem not_physicalLast_singleton {α : Type} {shows : α → ResolvedFrame → Prop} {chain : List α}
    {r : ResolvedFrame} (hstatus : r.status ≠ .ok) : ¬ PhysicalLast shows chain [r] := by
  rintro ⟨init, outermost, inlines, physical, -, hrows, -, hok, -⟩
  rw [← List.nil_append [r]] at hrows
  obtain ⟨-, hlast⟩ := List.append_inj' hrows rfl
  cases hlast
  exact hstatus hok

section Cut

variable {α κ : Type} (shows : α → ResolvedFrame → Prop) (key : α → κ)
  (hkey : ∀ {f f' : α} {r : ResolvedFrame}, shows f r → (shows f' r ↔ key f' = key f))
include hkey

/-- The rows of the frames up to the cap: the last one shows the outermost frame when the last
frame within the cap reads like it. -/
theorem physicalLast_iff_of_shows {chain : List α} {depth : Nat} {rows : List ResolvedFrame}
    {module debugId : Option String} (hne : chain.take depth ≠ [])
    (hshows : List.Forall₂ shows (chain.take depth) rows)
    (hchain : Chain module debugId rows.length 0 rows) :
    PhysicalLast shows chain rows ↔
      (chain.take depth).getLast?.map key = chain.getLast?.map key := by
  constructor
  · -- the last row shows the last frame within the cap, and the outermost frame
    rintro ⟨init, outermost, inlines, physical, rfl, rfl, -, -, hlast, -⟩
    obtain ⟨before, f, heq, -, hf⟩ := hshows.concat_right
    rw [heq, List.getLast?_concat, List.getLast?_concat, Option.map_some, Option.map_some]
    exact congrArg some ((hkey hlast).mp hf)
  · intro hread
    obtain hnil | ⟨inlines, physical, rfl⟩ := List.eq_nil_or_concat' rows
    · rw [hnil] at hshows
      exact absurd (List.forall₂_nil_right_iff.mp hshows) hne
    obtain hnil | ⟨init, outermost, rfl⟩ := List.eq_nil_or_concat' chain
    · rw [hnil, List.take_nil] at hne
      exact absurd rfl hne
    obtain ⟨before, f, heq, hbefore, hf⟩ := hshows.concat_right
    rw [heq, List.getLast?_concat, List.getLast?_concat, Option.map_some, Option.map_some] at hread
    have hlast : (inlines ++ [physical])[inlines.length]? = some physical :=
      List.getElem?_concat_length
    have hphysical := hchain.get hlast
    -- The frames of the inline rows are in front of the outermost one, also where the cap cuts.
    have hsub : before <+: init := by
      have hprefix : before ++ [f] <+: init ++ [outermost] := heq ▸ List.take_prefix _ _
      have hlen := hprefix.length_le
      rw [List.length_append, List.length_append] at hlen
      exact List.prefix_of_prefix_length_le ((List.prefix_append _ _).trans hprefix)
        (List.prefix_append _ _) (Nat.le_of_add_le_add_right hlen)
    refine ⟨init, outermost, inlines, physical, rfl, rfl, ?_, hphysical.2.2.2.2,
      (hkey hf).mpr (Option.some.inj hread).symm, fun r hr => ?_⟩
    · rw [hphysical.2.1, List.length_append]
      simp
    · obtain ⟨k, hk⟩ := List.getElem?_of_mem hr
      have hlt := (List.getElem?_eq_some_iff.mp hk).1
      have hrow := hchain.get ((List.getElem?_append_left hlt).trans hk)
      obtain ⟨f', hf', hshow⟩ := hbefore.exists_left hr
      refine ⟨?_, f', hsub.subset hf', hshow⟩
      rw [hrow.2.1, List.length_append, decide_eq_true_eq, List.length_singleton]
      omega

end Cut

namespace DwarfModule

variable {rd : Readers}

theorem shows_iff {f f' : AddrFrame} {r : ResolvedFrame} (h : Shows rd f r) :
    Shows rd f' r ↔ rawFrame f' = rawFrame f :=
  ⟨fun h' => h'.rawFrame_eq.trans h.rawFrame_eq.symm, h.congr⟩

/-- The DWARF half of `physicalLast_resolve_iff`. -/
theorem physicalLast_iff {m : DwarfModule} {addr : UInt64} {limits : Limits} {iter : FrameIter}
    {rows : List ResolvedFrame} (hfind : m.ctx.findFrames addr = .returned (.ok iter))
    (hending : iter.ending = .done) (hne : iter.frames ≠ [])
    (h : m.resolve rd addr limits = .returned rows) :
    PhysicalLast (Shows rd) iter.frames rows ↔
      dwarfProbeOk addr = true ∧ (iter.frames.take limits.maxInlineDepth).getLast?.map rawFrame
        = iter.frames.getLast?.map rawFrame := by
  have hnoLine : ¬ PhysicalLast (Shows rd) iter.frames [m.noLineFrame addr] :=
    not_physicalLast_singleton (by rw [status_noLineFrame]; decide)
  cases resolved_of_returned h with
  | unprobed hprobe =>
      rw [hprobe]
      exact iff_of_false hnoLine fun h => absurd h.1 (by decide)
  | broken _ hfind' hfound =>
      cases hfind.symm.trans hfind'
      rcases hfound with hfound | ⟨hfound, -⟩
      · cases hfound
      · cases hfound
        cases hending
  | empty _ hfind' hiter =>
      cases hfind.symm.trans hfind'
      apply iff_of_false hnoLine
      intro hread
      rcases hiter with hzero | rfl
      · rw [hzero, List.take_zero, List.getLast?_eq_some_getLast hne] at hread
        cases hread.2
      · exact hne rfl
  | frames hprobe hfind' hne' hshows hchain =>
      cases hfind.symm.trans hfind'
      rw [physicalLast_iff_of_shows (Shows rd) rawFrame shows_iff hne' hshows hchain,
        and_iff_right hprobe]

end DwarfModule

namespace PdbModule

theorem shows_iff {f f' : PdbFrame} {r : ResolvedFrame} (h : Shows f r) :
    Shows f' r ↔ id f' = id f := by
  constructor
  · intro h'
    have hfunction := h'.function.symm.trans h.function
    have hfile := h'.file.symm.trans h.file
    have hline := h'.line.symm.trans h.line
    cases f
    cases f'
    simp_all
  · rintro rfl
    exact h

/-- The PDB half of `physicalLast_resolve_iff`. -/
theorem physicalLast_iff {m : PdbModule} {addr : UInt64} {limits : Limits} {ctx : PdbContext}
    {probe : UInt32} {frames : List PdbFrame} {rows : List ResolvedFrame}
    (hctx : m.data.makeContext = .returned (.ok ctx)) (hprobe : toU32 addr = some probe)
    (hfind : ctx.findFrames probe = .returned (.ok (some frames))) (hne : frames ≠ [])
    (h : m.resolve addr limits = .returned rows) :
    PhysicalLast Shows frames rows ↔
      (frames.take limits.maxInlineDepth).getLast? = frames.getLast? := by
  cases resolved_of_returned h with
  | blank hstatus hnone =>
      apply iff_of_false (not_physicalLast_singleton hstatus)
      intro hread
      rw [hnone ctx probe frames hctx hprobe hfind, List.getLast?_eq_some_getLast hne] at hread
      cases hread
  | frames hctx' hprobe' hfind' hne' hshows hchain =>
      cases hctx.symm.trans hctx'
      cases hprobe.symm.trans hprobe'
      cases hfind.symm.trans hfind'
      rw [physicalLast_iff_of_shows Shows id shows_iff hne' hshows hchain, Option.map_id, id, id]

end PdbModule

/-- **When the last row is the physical frame.** Of the rows for a chain of frames, the last
shows the outermost frame exactly when the address was handed to the reader and the cap on the
inline depth does not cut the chain, or cuts it behind a frame that reads like the outermost. -/
theorem physicalLast_resolve_iff (addr : UInt64) (limits : Limits) (rows : List ResolvedFrame) :
    (∀ {rd : Readers} {m : DwarfModule} {iter : FrameIter},
      m.ctx.findFrames addr = .returned (.ok iter) → iter.ending = .done →
      iter.frames ≠ [] → m.resolve rd addr limits = .returned rows →
      (PhysicalLast (DwarfModule.Shows rd) iter.frames rows ↔
        DwarfModule.dwarfProbeOk addr = true ∧
          (iter.frames.take limits.maxInlineDepth).getLast?.map DwarfModule.rawFrame
            = iter.frames.getLast?.map DwarfModule.rawFrame)) ∧
    (∀ {m : PdbModule} {ctx : PdbContext} {probe : UInt32} {frames : List PdbFrame},
      m.data.makeContext = .returned (.ok ctx) → PdbModule.toU32 addr = some probe →
      ctx.findFrames probe = .returned (.ok (some frames)) → frames ≠ [] →
      m.resolve addr limits = .returned rows →
      (PhysicalLast PdbModule.Shows frames rows ↔
        (frames.take limits.maxInlineDepth).getLast? = frames.getLast?)) :=
  ⟨DwarfModule.physicalLast_iff, PdbModule.physicalLast_iff⟩

/-- The frames of a PDB for an address with one callee inlined into `main`. -/
def StandIn.pdbChain : List PdbFrame :=
  [⟨some "leaf", some "leaf.h", some 3⟩, ⟨some "main", some "main.c", some 7⟩]

/-- One callee inlined into `main`, in a DWARF module and in a PDB. -/
theorem physicalLast_resolve_short :
    (∃ rows, (StandIn.dwarfModule (.ok (StandIn.deepChain 1)) []).resolve StandIn.readers 4
        Limits.default = .returned rows ∧
      PhysicalLast (DwarfModule.Shows StandIn.readers) (StandIn.deepChain 1).frames rows) ∧
    (∃ rows, (StandIn.pdbModule StandIn.pdbChain).resolve 4 Limits.default = .returned rows ∧
      PhysicalLast PdbModule.Shows StandIn.pdbChain rows) := by
  constructor
  · have hfind : (StandIn.dwarfModule (.ok (StandIn.deepChain 1)) []).ctx.findFrames 4
        = .returned (.ok (StandIn.deepChain 1)) := rfl
    have hrows : (StandIn.dwarfModule (.ok (StandIn.deepChain 1)) []).resolve StandIn.readers 4
        Limits.default = .returned _ := rfl
    have hne : (StandIn.deepChain 1).frames ≠ [] := List.cons_ne_nil _ _
    exact ⟨_, hrows, ((physicalLast_resolve_iff _ _ _).1 hfind rfl hne hrows).mpr ⟨rfl, rfl⟩⟩
  · have hrows : (StandIn.pdbModule StandIn.pdbChain).resolve 4 Limits.default = .returned _ := rfl
    have hprobe : PdbModule.toU32 4 = some 4 := rfl
    have hne : StandIn.pdbChain ≠ [] := List.cons_ne_nil _ _
    exact ⟨_, hrows, ((physicalLast_resolve_iff _ _ _).2 rfl hprobe rfl hne hrows).mpr rfl⟩

/-- With 256 frames inlined into `main`, one of them passes for the physical frame. -/
theorem not_physicalLast_deepChain :
    ∃ rows, (StandIn.dwarfModule (.ok (StandIn.deepChain 256)) []).resolve StandIn.readers 4
        Limits.default = .returned rows ∧
      ¬ PhysicalLast (DwarfModule.Shows StandIn.readers) (StandIn.deepChain 256).frames rows := by
  have hread : DwarfModule.ReadsThrough StandIn.readers 256 (StandIn.deepChain 256) := by
    refine ⟨fun f hf => ?_, fun _ => by rw [StandIn.ending_deepChain]; decide⟩
    have hmem := List.mem_of_mem_take hf
    rw [StandIn.frames_deepChain, List.mem_append, List.mem_singleton] at hmem
    rcases hmem with hmem | rfl
    · rw [List.eq_of_mem_replicate hmem]
      exact ⟨_, rfl⟩
    · exact ⟨_, rfl⟩
  have hne : (StandIn.deepChain 256).frames ≠ [] := List.cons_ne_nil _ _
  have hreturns : ((StandIn.dwarfModule (.ok (StandIn.deepChain 256)) []).resolve
      StandIn.readers 4 Limits.default).Returns :=
    (DwarfModule.returns_resolve_iff rfl rfl).mpr hread
  obtain ⟨rows, hrows⟩ := hreturns
  refine ⟨rows, hrows, fun h => ?_⟩
  obtain ⟨-, hlast⟩ :=
    (DwarfModule.physicalLast_iff rfl (StandIn.ending_deepChain 256) hne hrows).mp h
  have htake : ((StandIn.deepChain 256).frames.take 256).getLast?
      = some (StandIn.frame (some "leaf")) := by
    rw [StandIn.frames_deepChain, List.take_left' (List.length_replicate ..),
      List.getLast?_replicate]
    rfl
  have hmain : (StandIn.deepChain 256).frames.getLast? = some (StandIn.frame (some "main")) := by
    rw [StandIn.frames_deepChain, List.getLast?_concat]
  have hlast' : some (DwarfModule.rawFrame (StandIn.frame (some "leaf")))
      = some (DwarfModule.rawFrame (StandIn.frame (some "main"))) := by
    have hcap : Limits.default.maxInlineDepth = 256 := rfl
    rw [hcap, htake, hmain] at hlast
    exact hlast
  exact absurd (returned.inj (Option.some.inj hlast')) (by decide)

end VgiSymbols
