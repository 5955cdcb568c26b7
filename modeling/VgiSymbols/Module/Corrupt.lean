import VgiSymbols.Module.Physical

set_option autoImplicit false

/-! # Corrupt inline trees

The iterator of the DWARF reader may fail at any of its calls, and finding the frames may fail
before it. A failure before the first frame is answered by an error row. A failure behind some
frames ends the loop like the end of the chain does, and the rows kept are all stamped `ok`:
`corruptReported_iff` says when a failure is told.
-/

namespace VgiSymbols

open Unwind

variable {rd : Readers}

namespace DwarfModule

/-- What the reader found at an address, as an iterator: where finding the frames fails, it has
failed before the first frame. -/
def foundFrames : Except Unit FrameIter → FrameIter
  | .error _ => .failed
  | .ok iter => iter

/-- A failure of the reader before the cap on the depth is told by a row, next to the rows of the
frames read before it; and no row tells of an error when the chain ends as it should. -/
structure CorruptReported (rd : Readers) (depth : Nat) (iter : FrameIter)
    (rows : List ResolvedFrame) : Prop where
  marked : iter.ending = .failed → iter.frames.length < depth →
    ∃ r ∈ rows, r.status = .error .corruptInlineTree
  kept : iter.ending = .failed → iter.frames.length < depth →
    ∃ kept, kept.Sublist rows ∧ List.Forall₂ (Shows rd) iter.frames kept
  clean : iter.ending = .done → ∀ r ∈ rows, ∀ kind, r.status ≠ .error kind

/-- Rows that tell of no error do not tell of a corrupt tree either. -/
theorem corruptReported_of_clean {depth : Nat} {iter : FrameIter} {rows : List ResolvedFrame}
    (hclean : ∀ r ∈ rows, ∀ kind, r.status ≠ .error kind) :
    CorruptReported rd depth iter rows ↔
      ¬ (iter.ending = .failed ∧ iter.frames.length < depth) := by
  constructor
  · rintro h ⟨hfailed, hlt⟩
    obtain ⟨r, hr, hstatus⟩ := h.marked hfailed hlt
    exact hclean r hr _ hstatus
  · intro h
    exact ⟨fun hfailed hlt => absurd ⟨hfailed, hlt⟩ h, fun hfailed hlt => absurd ⟨hfailed, hlt⟩ h,
      fun _ => hclean⟩

/-- **When a corrupt inline tree is told.** The rows of an address tell of the failure of the
reader there exactly when it fails at once, before the first frame, of an address it was given;
behind the first frame a failure before the cap goes untold. -/
theorem corruptReported_iff {m : DwarfModule} {addr : UInt64} {limits : Limits}
    {found : Except Unit FrameIter} {rows : List ResolvedFrame}
    (hfind : m.ctx.findFrames addr = .returned found)
    (h : m.resolve rd addr limits = .returned rows) :
    CorruptReported rd limits.maxInlineDepth (foundFrames found) rows ↔
      ((foundFrames found).ending = .failed →
        (foundFrames found).frames.length < limits.maxInlineDepth →
        dwarfProbeOk addr = true ∧ (foundFrames found).frames = []) := by
  have hnoLine : ∀ r ∈ [m.noLineFrame addr], ∀ kind, r.status ≠ .error kind := by
    intro r hr kind
    rw [List.mem_singleton.mp hr, status_noLineFrame]
    exact ResolveStatus.noConfusion
  cases resolved_of_returned h with
  | unprobed hprobe =>
      rw [corruptReported_of_clean hnoLine, hprobe]
      simp
  | broken hprobe hfind' hfound =>
      cases hfind.symm.trans hfind'
      -- the one row is the error row, and no frame was read before it
      have hfailed : foundFrames found = .failed := by
        rcases hfound with rfl | ⟨rfl, -⟩ <;> rfl
      rw [hfailed]
      refine iff_of_true ⟨fun _ _ => ⟨_, List.mem_singleton_self _, rfl⟩, fun _ _ => ?_, ?_⟩
        fun _ _ => ⟨hprobe, rfl⟩
      · exact ⟨[], List.nil_sublist _, List.Forall₂.nil⟩
      · intro hdone
        cases hdone
  | empty hprobe hfind' hiter =>
      cases hfind.symm.trans hfind'
      rw [corruptReported_of_clean hnoLine]
      apply iff_of_true
      · rintro ⟨hfailed, hlt⟩
        rcases hiter with hzero | rfl
        · omega
        · cases hfailed
      · intro hfailed hlt
        rcases hiter with hzero | rfl
        · omega
        · cases hfailed
  | frames hprobe hfind' hne hshows hchain =>
      cases hfind.symm.trans hfind'
      -- The rows of the frames are stamped `ok`, whatever comes behind them.
      have hok : ∀ r ∈ rows, ∀ kind, r.status ≠ .error kind := by
        intro r hr kind
        obtain ⟨k, hk⟩ := List.getElem?_of_mem hr
        rw [(hchain.get hk).2.2.2.2]
        exact ResolveStatus.noConfusion
      rw [corruptReported_of_clean hok]
      constructor
      · intro hnot hfailed hlt
        exact absurd ⟨hfailed, hlt⟩ hnot
      · rintro himp ⟨hfailed, hlt⟩
        have hnil : FrameIter.frames _ = [] := (himp hfailed hlt).2
        rw [foundFrames] at hnil
        exact hne (by rw [hnil, List.take_nil])

/-- A failure at the first call of the iterator. -/
theorem corruptReported_atOnce :
    CorruptReported StandIn.readers 256 (foundFrames (.ok .failed))
      [(StandIn.dwarfModule (.ok .failed) []).errorFrame .corruptInlineTree] := by
  have hrows : (StandIn.dwarfModule (.ok .failed) []).resolve StandIn.readers 4 Limits.default
      = .returned [(StandIn.dwarfModule (.ok .failed) []).errorFrame .corruptInlineTree] := rfl
  exact (corruptReported_iff rfl hrows).mpr fun _ _ => ⟨rfl, rfl⟩

/-- A failure behind the frame of `main`: its row is the only one, and says `ok`. -/
theorem not_corruptReported_midWalk :
    ∃ rows, (StandIn.dwarfModule (.ok (.frame (StandIn.frame (some "main")) .failed)) []).resolve
        StandIn.readers 4 Limits.default = .returned rows ∧
      ¬ CorruptReported StandIn.readers 256
        (foundFrames (.ok (.frame (StandIn.frame (some "main")) .failed))) rows := by
  refine ⟨_, rfl, fun h => ?_⟩
  obtain ⟨r, hr, hstatus⟩ := h.marked rfl (by decide)
  rw [List.mem_singleton.mp hr] at hstatus
  cases hstatus

end DwarfModule

end VgiSymbols
