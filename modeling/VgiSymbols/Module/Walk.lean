import VgiSymbols.Core.Module
import VgiSymbols.Basic.Pairs

set_option autoImplicit false

/-! # The frames of an address

An iterator of the DWARF reader yields frames and then ends, in one of three ways. What `resolve`
returns is told by these two (`resolved_of_returned`): the rows show the frames up to the cap on
the inline depth, in their order, or there is a single row because there was no frame. The PDB
reader gives its frames as a list, and the rows show them in the same way.
-/

namespace VgiSymbols

open Unwind

variable {rd : Readers}

/-! ## Chains of rows -/

/-- The rows from depth `i` on of a chain of `n` rows, stamped with a module. -/
def Chain (module debugId : Option String) (n : Nat) : Nat → List ResolvedFrame → Prop
  | _, [] => True
  | i, r :: rows =>
      (r.inlineDepth = Int32.ofNat i ∧ r.isInline = decide (i + 1 < n) ∧ r.module = module ∧
        r.debugId = debugId ∧ r.status = .ok) ∧ Chain module debugId n (i + 1) rows

theorem Chain.get {module debugId : Option String} {n i : Nat} {rows : List ResolvedFrame}
    (h : Chain module debugId n i rows) {k : Nat} {r : ResolvedFrame} (hk : rows[k]? = some r) :
    r.inlineDepth = Int32.ofNat (i + k) ∧ r.isInline = decide (i + k + 1 < n) ∧
      r.module = module ∧ r.debugId = debugId ∧ r.status = .ok := by
  induction rows generalizing i k with
  | nil => cases hk
  | cons r₀ rows ih =>
      cases k with
      | zero =>
          cases hk
          exact h.1
      | succ k =>
          have hk' : rows[k]? = some r := hk
          have heq : i + (k + 1) = i + 1 + k := by omega
          rw [heq]
          exact ih h.2 hk'

/-! ## What an iterator yields -/

/-- How the walk over the frames of an address ends. -/
inductive FrameEnd where
  | done
  | failed
  | panicked
  deriving DecidableEq, Repr

namespace FrameIter

/-- The frames, innermost first. -/
def frames : FrameIter → List AddrFrame
  | done | failed | panicked => []
  | frame f rest => f :: rest.frames

def ending : FrameIter → FrameEnd
  | done => .done
  | failed => .failed
  | panicked => .panicked
  | frame _ rest => rest.ending

end FrameIter

/-! ## DWARF modules -/

namespace DwarfModule

/-- The raw frame of a frame, once its name was read. -/
def rawFrame (f : AddrFrame) : Unwind RawFrame := do
  let function ← rawName f
  return {
    function
    file := f.location.bind (·.file)
    line := f.location.bind (·.line)
    column := f.location.bind (·.column) }

theorem returns_rawFrame {f : AddrFrame} : (rawFrame f).Returns ↔ (rawName f).Returns := by
  unfold rawFrame
  cases rawName f <;> simp

/-- The loop takes one frame. -/
theorem collectFrames_cons {depth : Nat} {raw : List RawFrame} (hopen : ¬ depth ≤ raw.length)
    (f : AddrFrame) (rest : FrameIter) :
    collectFrames depth raw (.frame f rest)
      = rawFrame f >>= fun r => collectFrames depth (raw ++ [r]) rest := by
  rw [collectFrames, if_neg hopen, rawFrame]
  cases rawName f with
  | panicked => rfl
  | returned function => cases f.location <;> rfl

/-- At the cap the loop stops. -/
theorem collectFrames_full {depth : Nat} {raw : List RawFrame} (hfull : depth ≤ raw.length)
    (iter : FrameIter) : collectFrames depth raw iter = .returned (some raw) := by
  cases iter <;> rw [collectFrames, if_pos hfull]

/-- What the loop has collected at its end. By induction on the iterator, with the raw frames
collected so far. -/
theorem collectFrames_eq_some {depth : Nat} {raw raw' : List RawFrame} {iter : FrameIter}
    (h : collectFrames depth raw iter = .returned (some raw')) :
    ∃ more, raw' = raw ++ more ∧
      List.Forall₂ (fun f r => rawFrame f = .returned r)
        (iter.frames.take (depth - raw.length)) more := by
  have hstop : ∀ {raw : List RawFrame} {iter : FrameIter}, raw = raw' →
      iter.frames.take (depth - raw.length) = [] → ∃ more, raw' = raw ++ more ∧
        List.Forall₂ (fun f r => rawFrame f = .returned r)
          (iter.frames.take (depth - raw.length)) more := by
    rintro raw iter rfl hnil
    rw [hnil]
    exact ⟨[], (List.append_nil _).symm, List.Forall₂.nil⟩
  induction iter generalizing raw with
  | done =>
      rw [collectFrames] at h
      split at h <;> exact hstop (Option.some.inj (returned.inj h)) List.take_nil
  | failed =>
      rw [collectFrames] at h
      split at h
      · exact hstop (Option.some.inj (returned.inj h)) List.take_nil
      · split at h
        · cases h
        · exact hstop (Option.some.inj (returned.inj h)) List.take_nil
  | panicked =>
      rw [collectFrames] at h
      split at h
      · exact hstop (Option.some.inj (returned.inj h)) List.take_nil
      · cases h
  | frame f rest ih =>
      by_cases hopen : depth ≤ raw.length
      · rw [collectFrames_full hopen] at h
        apply hstop (Option.some.inj (returned.inj h))
        rw [Nat.sub_eq_zero_of_le hopen, List.take_zero]
      · rw [collectFrames_cons hopen] at h
        obtain ⟨r, hr, h⟩ := bind_eq_returned.mp h
        obtain ⟨more, heq, hmore⟩ := ih h
        have hroom : depth - raw.length = (depth - (raw ++ [r]).length) + 1 := by
          rw [List.length_append, List.length_singleton]
          omega
        refine ⟨r :: more, by rw [heq, List.append_assoc, List.singleton_append], ?_⟩
        rw [hroom, FrameIter.frames, List.take_succ_cons]
        exact List.Forall₂.cons hr hmore

/-- The loop gives up when the iterator fails before the first frame. -/
theorem collectFrames_eq_none {depth : Nat} {raw : List RawFrame} {iter : FrameIter}
    (h : collectFrames depth raw iter = .returned none) :
    raw = [] ∧ iter = .failed ∧ 0 < depth := by
  induction iter generalizing raw with
  | done =>
      rw [collectFrames] at h
      split at h <;> cases h
  | failed =>
      rw [collectFrames] at h
      split at h
      · cases h
      · next hopen =>
          split at h
          · next hempty =>
              rw [List.isEmpty_iff] at hempty
              subst hempty
              exact ⟨rfl, rfl, Nat.pos_of_ne_zero fun hzero => hopen (by simp [hzero])⟩
          · cases h
  | panicked =>
      rw [collectFrames] at h
      split at h <;> cases h
  | frame f rest ih =>
      by_cases hopen : depth ≤ raw.length
      · rw [collectFrames_full hopen] at h
        cases h
      · rw [collectFrames_cons hopen] at h
        obtain ⟨r, -, h⟩ := bind_eq_returned.mp h
        exact absurd (ih h).1 (by simp)

/-- The loop collects nothing when there is no frame, or no room for one. -/
theorem collectFrames_eq_nil {depth : Nat} {iter : FrameIter}
    (h : collectFrames depth [] iter = .returned (some [])) : depth = 0 ∨ iter = .done := by
  by_cases hopen : depth ≤ ([] : List RawFrame).length
  · exact Or.inl (Nat.le_zero.mp hopen)
  · cases iter with
    | done => exact Or.inr rfl
    | failed =>
        rw [collectFrames, if_neg hopen] at h
        cases h
    | panicked =>
        rw [collectFrames, if_neg hopen] at h
        cases h
    | frame f rest =>
        rw [collectFrames_cons hopen] at h
        obtain ⟨r, -, h⟩ := bind_eq_returned.mp h
        obtain ⟨more, heq, -⟩ := collectFrames_eq_some h
        cases heq

/-- The loop comes back unless a name it reads, or the iterator, panics before the cap. -/
theorem returns_collectFrames {depth : Nat} {raw : List RawFrame} {iter : FrameIter} :
    (collectFrames depth raw iter).Returns ↔
      (∀ f ∈ iter.frames.take (depth - raw.length), (rawName f).Returns) ∧
        (raw.length + iter.frames.length < depth → iter.ending ≠ .panicked) := by
  induction iter generalizing raw with
  | done =>
      refine iff_of_true ?_ ⟨by simp [FrameIter.frames], fun _ => by simp [FrameIter.ending]⟩
      rw [collectFrames]
      split <;> exact returns_returned _
  | failed =>
      refine iff_of_true ?_ ⟨by simp [FrameIter.frames], fun _ => by simp [FrameIter.ending]⟩
      rw [collectFrames]
      split <;> exact returns_returned _
  | panicked =>
      rw [collectFrames]
      split
      · next hfull =>
          exact iff_of_true (returns_returned _) ⟨by simp [FrameIter.frames],
            fun hlt => absurd hlt (Nat.not_lt.mpr hfull)⟩
      · next hopen =>
          refine iff_of_false not_returns_panicked fun h => h.2 ?_ rfl
          exact Nat.not_le.mp hopen
  | frame f rest ih =>
      by_cases hopen : depth ≤ raw.length
      · rw [collectFrames_full hopen, Nat.sub_eq_zero_of_le hopen, List.take_zero]
        exact iff_of_true (returns_returned _) ⟨by simp, fun hlt => by omega⟩
      · have hroom : depth - raw.length = (depth - raw.length - 1) + 1 := by omega
        rw [collectFrames_cons hopen, hroom, FrameIter.frames, List.take_succ_cons,
          List.forall_mem_cons, ← returns_rawFrame]
        cases hr : rawFrame f with
        | panicked => simp
        | returned r =>
            have hlen : depth - (raw ++ [r]).length = depth - raw.length - 1 := by
              rw [List.length_append, List.length_singleton]
              omega
            have hlt : (raw ++ [r]).length + rest.frames.length < depth ↔
                raw.length + (f :: rest.frames).length < depth := by
              rw [List.length_append, List.length_singleton, List.length_cons]
              omega
            rw [returned_bind, ih, hlen, hlt]
            simp [FrameIter.ending]

/-! ### Rows -/

/-- A row shows a frame: its name as stored and demangled, and its location. -/
structure Shows (rd : Readers) (f : AddrFrame) (r : ResolvedFrame) : Prop where
  functionRaw : rawName f = .returned r.functionRaw
  function : demangled rd r.functionRaw = .returned r.function
  file : r.file = f.location.bind (·.file)
  line : r.line = f.location.bind (·.line)
  column : r.column = f.location.bind (·.column)

/-- A row shows a frame through the raw frame read from it. -/
theorem shows_of_rawFrame {f : AddrFrame} {raw : RawFrame} {r : ResolvedFrame}
    (hraw : rawFrame f = .returned raw)
    (hdemangled : demangled rd raw.function = .returned r.function)
    (hr : (⟨r.functionRaw, r.file, r.line, r.column⟩ : RawFrame) = raw) : Shows rd f r := by
  obtain ⟨function, hname, hraw⟩ := bind_eq_returned.mp hraw
  have heq := hr.trans (returned.inj hraw).symm
  rw [← hr] at hdemangled
  simp only [RawFrame.mk.injEq] at heq
  obtain ⟨hfunction, hfile, hline, hcolumn⟩ := heq
  exact ⟨hfunction ▸ hname, hdemangled, hfile, hline, hcolumn⟩

/-- The frames that one row shows read the same. -/
theorem Shows.rawFrame_eq {f : AddrFrame} {r : ResolvedFrame} (h : Shows rd f r) :
    rawFrame f = .returned ⟨r.functionRaw, r.file, r.line, r.column⟩ := by
  rw [rawFrame, h.functionRaw, h.file, h.line, h.column]
  rfl

theorem Shows.congr {f f' : AddrFrame} {r : ResolvedFrame} (h : Shows rd f r)
    (heq : rawFrame f' = rawFrame f) : Shows rd f' r :=
  shows_of_rawFrame (heq.trans h.rawFrame_eq) h.function rfl

/-- The rows of the raw frames: a chain of them, one a frame. -/
theorem chain_frameRows {m : DwarfModule} {n i : Nat} {raw : List RawFrame}
    {rows : List ResolvedFrame} (h : frameRows rd m n i raw = .returned rows) :
    Chain (some m.name) (some m.identity.debugIdStr) n i rows ∧
      List.Forall₂ (fun f r => demangled rd f.function = .returned r.function ∧
        (⟨r.functionRaw, r.file, r.line, r.column⟩ : RawFrame) = f) raw rows := by
  induction raw generalizing i rows with
  | nil =>
      cases h
      exact ⟨trivial, List.Forall₂.nil⟩
  | cons f raw ih =>
      obtain ⟨function, hf, h⟩ := bind_eq_returned.mp h
      obtain ⟨rest, hrest, h⟩ := bind_eq_returned.mp h
      cases h
      obtain ⟨hchain, hall⟩ := ih hrest
      exact ⟨⟨⟨rfl, rfl, rfl, rfl, rfl⟩, hchain⟩, List.Forall₂.cons ⟨hf, rfl⟩ hall⟩

/-- The rows can be built when all their names can be demangled. -/
theorem frameRows_returns_iff {m : DwarfModule} {n i : Nat} {raw : List RawFrame} :
    (frameRows rd m n i raw).Returns ↔ ∀ f ∈ raw, (demangled rd f.function).Returns := by
  induction raw generalizing i with
  | nil => simp [frameRows]
  | cons f rest ih =>
      rw [List.forall_mem_cons, frameRows]
      cases hd : demangled rd f.function with
      | panicked => simp
      | returned function =>
          rw [returned_bind, ← ih (i := i + 1)]
          cases frameRows rd m n (i + 1) rest <;> simp

/-- The frames up to the cap can be walked to, named and demangled without a panic. -/
structure ReadsThrough (rd : Readers) (depth : Nat) (iter : FrameIter) : Prop where
  named : ∀ f ∈ iter.frames.take depth, (rawName f >>= demangled rd).Returns
  walked : iter.frames.length < depth → iter.ending ≠ .panicked

/-- `resolve` comes back for an address the reader finds frames for when they can be read. -/
theorem returns_resolve_iff {m : DwarfModule} {addr : UInt64} {limits : Limits}
    {iter : FrameIter} (hprobe : dwarfProbeOk addr = true)
    (hfind : m.ctx.findFrames addr = .returned (.ok iter)) :
    (m.resolve rd addr limits).Returns ↔ ReadsThrough rd limits.maxInlineDepth iter := by
  unfold resolve
  simp only [hprobe, hfind, Bool.not_true, Bool.false_eq_true, if_false, returned_bind]
  have hcollected : (collectFrames limits.maxInlineDepth [] iter).Returns ↔
      (∀ f ∈ iter.frames.take limits.maxInlineDepth, (rawName f).Returns) ∧
        (iter.frames.length < limits.maxInlineDepth → iter.ending ≠ .panicked) := by
    rw [returns_collectFrames, List.length_nil, Nat.sub_zero, Nat.zero_add]
  -- what remains to be read of a collected frame is its demangled name
  have hnamed : ∀ {raw : List RawFrame},
      List.Forall₂ (fun f r => rawFrame f = .returned r)
        (iter.frames.take limits.maxInlineDepth) raw →
      ((∀ f ∈ iter.frames.take limits.maxInlineDepth, (rawName f >>= demangled rd).Returns) ↔
        ∀ r ∈ raw, (demangled rd r.function).Returns) := by
    intro raw hraw
    have hname : ∀ {f : AddrFrame} {r : RawFrame}, rawFrame f = .returned r →
        (rawName f >>= demangled rd) = demangled rd r.function := by
      intro f r hf
      obtain ⟨function, hfunction, hf⟩ := bind_eq_returned.mp hf
      cases hf
      rw [hfunction, returned_bind]
    constructor
    · intro h r hr
      obtain ⟨f, hf, hfr⟩ := hraw.exists_left hr
      exact hname hfr ▸ h f hf
    · intro h f hf
      obtain ⟨r, hr, hfr⟩ := hraw.exists_right hf
      exact (hname hfr).symm ▸ h r hr
  cases hcollect : collectFrames limits.maxInlineDepth [] iter with
  | panicked =>
      rw [hcollect] at hcollected
      apply iff_of_false not_returns_panicked
      intro h
      refine not_returns_panicked (hcollected.mpr ⟨fun f hf => ?_, h.walked⟩)
      obtain ⟨name, hname⟩ := h.named f hf
      obtain ⟨function, hfunction, -⟩ := bind_eq_returned.mp hname
      exact ⟨function, hfunction⟩
  | returned collected =>
      rw [hcollect] at hcollected
      have hwalked := (hcollected.mp (returns_returned _)).2
      match collected with
      | none =>
          obtain ⟨-, rfl, -⟩ := collectFrames_eq_none hcollect
          exact iff_of_true (returns_returned _) ⟨by simp [FrameIter.frames], hwalked⟩
      | some [] =>
          obtain ⟨more, heq, hraw⟩ := collectFrames_eq_some hcollect
          cases heq
          rw [List.length_nil, Nat.sub_zero] at hraw
          exact iff_of_true (returns_returned _) ⟨(hnamed hraw).mpr (by simp), hwalked⟩
      | some (r :: raw) =>
          obtain ⟨more, heq, hraw⟩ := collectFrames_eq_some hcollect
          cases heq
          rw [List.length_nil, Nat.sub_zero] at hraw
          show (frameRows rd m (r :: raw).length 0 (r :: raw)).Returns ↔ _
          rw [frameRows_returns_iff, ← hnamed hraw]
          exact ⟨fun h => ⟨h, hwalked⟩, ReadsThrough.named⟩

/-! ### The fallback row -/

theorem status_noLineFrame (m : DwarfModule) (addr : UInt64) :
    (m.noLineFrame addr).status = .noLine := by
  unfold noLineFrame
  cases m.symbolFor addr <;> rfl

theorem function_noLineFrame (m : DwarfModule) (addr : UInt64) :
    (m.noLineFrame addr).function = m.symbolFor addr := by
  unfold noLineFrame
  cases h : m.symbolFor addr with
  | none => rfl
  | some name => rfl

theorem functionRaw_noLineFrame (m : DwarfModule) (addr : UInt64) :
    (m.noLineFrame addr).functionRaw = m.symbolFor addr := by
  unfold noLineFrame
  cases h : m.symbolFor addr with
  | none => rfl
  | some name => rfl

/-! ### What `resolve` returns -/

/-- Every way `resolve` can return. -/
inductive Resolved (rd : Readers) (m : DwarfModule) (addr : UInt64) (depth : Nat) :
    List ResolvedFrame → Prop where
  /-- The address is kept from the reader. -/
  | unprobed (hprobe : dwarfProbeOk addr = false) : Resolved rd m addr depth [m.noLineFrame addr]
  /-- The reader fails before the first frame. -/
  | broken {found : Except Unit FrameIter} (hprobe : dwarfProbeOk addr = true)
      (hfind : m.ctx.findFrames addr = .returned found)
      (hfound : found = .error () ∨ found = .ok .failed ∧ 0 < depth) :
      Resolved rd m addr depth [m.errorFrame .corruptInlineTree]
  /-- There is no frame, or no room for one. -/
  | empty {iter : FrameIter} (hprobe : dwarfProbeOk addr = true)
      (hfind : m.ctx.findFrames addr = .returned (.ok iter))
      (hiter : depth = 0 ∨ iter = .done) : Resolved rd m addr depth [m.noLineFrame addr]
  /-- The frames up to the cap. -/
  | frames {iter : FrameIter} {rows : List ResolvedFrame} (hprobe : dwarfProbeOk addr = true)
      (hfind : m.ctx.findFrames addr = .returned (.ok iter))
      (hne : iter.frames.take depth ≠ [])
      (hshows : List.Forall₂ (Shows rd) (iter.frames.take depth) rows)
      (hchain : Chain (some m.name) (some m.identity.debugIdStr) rows.length 0 rows) :
      Resolved rd m addr depth rows

theorem resolved_of_returned {m : DwarfModule} {addr : UInt64} {limits : Limits}
    {rows : List ResolvedFrame} (h : m.resolve rd addr limits = .returned rows) :
    Resolved rd m addr limits.maxInlineDepth rows := by
  unfold resolve at h
  cases hprobe : dwarfProbeOk addr with
  | false =>
      rw [hprobe] at h
      cases h
      exact .unprobed hprobe
  | true =>
      simp only [hprobe, Bool.not_true, Bool.false_eq_true, if_false] at h
      obtain ⟨found, hfind, h⟩ := bind_eq_returned.mp h
      cases found with
      | error e =>
          cases h
          exact .broken hprobe hfind (Or.inl rfl)
      | ok iter =>
          obtain ⟨collected, hcollect, h⟩ := bind_eq_returned.mp h
          match collected with
          | none =>
              cases h
              obtain ⟨-, rfl, hpos⟩ := collectFrames_eq_none hcollect
              exact .broken hprobe hfind (Or.inr ⟨rfl, hpos⟩)
          | some [] =>
              cases h
              exact .empty hprobe hfind (collectFrames_eq_nil hcollect)
          | some (f :: raw) =>
              obtain ⟨more, heq, hraw⟩ := collectFrames_eq_some hcollect
              rw [List.nil_append] at heq
              subst heq
              rw [List.length_nil, Nat.sub_zero] at hraw
              obtain ⟨hchain, hall⟩ := chain_frameRows h
              rw [hall.length_eq] at hchain
              refine .frames hprobe hfind (fun hnil => ?_) ?_ hchain
              · rw [hnil] at hraw
                cases hraw
              · refine List.Forall₂.comp (fun f raw r hf hr => ?_) hraw hall
                exact shows_of_rawFrame hf hr.1 hr.2

end DwarfModule

/-! ## PDB modules -/

namespace PdbModule

/-- A row shows a frame of the PDB reader. -/
structure Shows (f : PdbFrame) (r : ResolvedFrame) : Prop where
  functionRaw : r.functionRaw = f.function
  function : r.function = f.function
  file : r.file = f.file
  line : r.line = f.line
  column : r.column = none

theorem chain_frameRows (m : PdbModule) (n i : Nat) (frames : List PdbFrame) :
    Chain (some m.name) (some m.identity.debugIdStr) n i (m.frameRows n i frames) ∧
      List.Forall₂ Shows frames (m.frameRows n i frames) := by
  induction frames generalizing i with
  | nil => exact ⟨trivial, List.Forall₂.nil⟩
  | cons f frames ih =>
      obtain ⟨hchain, hall⟩ := ih (i + 1)
      exact ⟨⟨⟨rfl, rfl, rfl, rfl, rfl⟩, hchain⟩,
        List.Forall₂.cons ⟨rfl, rfl, rfl, rfl, rfl⟩ hall⟩

/-- Every way `resolve` can return: the frames up to the cap, or a single row of a status that
is not `ok`. -/
inductive Resolved (m : PdbModule) (addr : UInt64) (depth : Nat) : List ResolvedFrame → Prop where
  | blank {status : ResolveStatus} (hstatus : status ≠ .ok)
      (hnone : ∀ ctx probe frames, m.data.makeContext = .returned (.ok ctx) →
        toU32 addr = some probe → ctx.findFrames probe = .returned (.ok (some frames)) →
        frames.take depth = []) : Resolved m addr depth [m.blankFrame status]
  | frames {ctx : PdbContext} {probe : UInt32} {frames : List PdbFrame}
      {rows : List ResolvedFrame} (hctx : m.data.makeContext = .returned (.ok ctx))
      (hprobe : toU32 addr = some probe)
      (hfind : ctx.findFrames probe = .returned (.ok (some frames)))
      (hne : frames.take depth ≠ []) (hshows : List.Forall₂ Shows (frames.take depth) rows)
      (hchain : Chain (some m.name) (some m.identity.debugIdStr) rows.length 0 rows) :
      Resolved m addr depth rows

theorem resolved_of_returned {m : PdbModule} {addr : UInt64} {limits : Limits}
    {rows : List ResolvedFrame} (h : m.resolve addr limits = .returned rows) :
    Resolved m addr limits.maxInlineDepth rows := by
  obtain ⟨ctx?, hctx, h⟩ := bind_eq_returned.mp h
  cases ctx? with
  | error e =>
      cases h
      refine .blank (by decide) fun ctx probe frames hctx' => ?_
      rw [hctx] at hctx'
      cases hctx'
  | ok ctx =>
      simp only at h
      cases hprobe : toU32 addr with
      | none =>
          rw [hprobe] at h
          cases h
          refine .blank (by decide) fun ctx probe frames _ hprobe' => ?_
          rw [hprobe] at hprobe'
          cases hprobe'
      | some probe =>
          simp only [hprobe] at h
          obtain ⟨found, hfind, h⟩ := bind_eq_returned.mp h
          have hother : ∀ {status : ResolveStatus}, status ≠ .ok →
              (∀ frames, found = .ok (some frames) → frames.take limits.maxInlineDepth = []) →
              Resolved m addr limits.maxInlineDepth [m.blankFrame status] := by
            intro status hstatus hnone
            refine .blank hstatus fun ctx' probe' frames hctx' hprobe' hfind' => hnone frames ?_
            cases hctx.symm.trans hctx'
            cases hprobe.symm.trans hprobe'
            exact returned.inj (hfind.symm.trans hfind')
          match found with
          | .ok none =>
              cases h
              exact hother (by decide) fun frames hframes => by cases hframes
          | .error e =>
              cases h
              exact hother (by decide) fun frames hframes => by cases hframes
          | .ok (some frames) =>
              simp only at h
              -- The frames are cut to the depth cap before they are numbered.
              have htake : frames.take (min frames.length limits.maxInlineDepth)
                  = frames.take limits.maxInlineDepth := by
                rw [Nat.min_comm, ← List.take_take, List.take_length]
              have hlen : min frames.length limits.maxInlineDepth
                  = (frames.take limits.maxInlineDepth).length := by
                rw [List.length_take, Nat.min_comm]
              rw [htake, hlen] at h
              split at h
              · next hzero =>
                  cases h
                  apply hother (by decide)
                  intro frames' hframes
                  cases hframes
                  exact List.length_eq_zero_iff.mp hzero
              · next hne =>
                  cases h
                  obtain ⟨hchain, hall⟩ := chain_frameRows m
                    (frames.take limits.maxInlineDepth).length 0 (frames.take limits.maxInlineDepth)
                  refine .frames hctx hprobe hfind
                    (fun hnil => hne (by rw [hnil, List.length_nil])) hall ?_
                  rw [← hall.length_eq]
                  exact hchain

end PdbModule

/-! ## Stand-in modules -/

namespace StandIn

/-- An ELF module whose reader finds the given frames at every address. -/
def dwarfModule (found : Except Unit FrameIter) (symbols : List (UInt64 × String)) :
    DwarfModule where
  ctx := ⟨fun _ => .returned found⟩
  identity :=
    { format := .elf, arch := "x86_64", debugId := DebugId.fromGuidAge (buildIdGuid [0x11]) 0
      rawBuildId := some (hexEncode [0x11]), codeId := none, imageBase := 0 }
  name := "a.debug"
  symbols := symbols
  fileCount := 1
  hasLineTable := true
  byteSize := 1

/-- A PDB module whose reader finds the given frames at every address. -/
def pdbModule (frames : List PdbFrame) : PdbModule where
  data :=
    ⟨.returned (.ok ⟨.returned 1, fun _ => .returned (.ok (some frames))⟩)⟩
  identity :=
    { format := .pdb, arch := "x86_64", debugId := DebugId.fromGuidAge (buildIdGuid [0x22]) 1
      rawBuildId := some (hexEncode [0x22]), codeId := none, imageBase := 0 }
  name := "a.pdb"
  byteSize := 1
  symbolCount := 1

/-- `main` with `n` frames of `leaf` inlined into it. -/
def deepChain : Nat → FrameIter
  | 0 => .frame (frame (some "main")) .done
  | n + 1 => .frame (frame (some "leaf")) (deepChain n)

theorem frames_deepChain (n : Nat) : (deepChain n).frames =
    List.replicate n (frame (some "leaf")) ++ [frame (some "main")] := by
  induction n with
  | zero => rfl
  | succ n ih => rw [deepChain, FrameIter.frames, ih, List.replicate_succ, List.cons_append]

theorem ending_deepChain (n : Nat) : (deepChain n).ending = .done := by
  induction n with
  | zero => rfl
  | succ n ih => exact ih

end StandIn

end VgiSymbols
