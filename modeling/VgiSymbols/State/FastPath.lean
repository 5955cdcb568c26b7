import VgiSymbols.State.Lookup
import VgiSymbols.Module.Walk

set_option autoImplicit false

/-! # The fast path against the slow path

`functionName` should be the function of the first row of `resolve`. The two are written
separately, and differ in their fallbacks: `functionName` asks the symbol table whenever DWARF
has no name to give, `resolve` only when DWARF has no frame at all; and `resolve` also depends
on the frames behind the innermost one. `NamesAgree` is the exact condition, by the outcome of
the reader; PDB modules always agree.
-/

namespace VgiSymbols

open Unwind

variable {rd : Readers}

/-- The function of the first, innermost row. -/
def innermost (rows : List ResolvedFrame) : Option String := rows.head?.bind fun r => r.function

@[simp] theorem innermost_cons (r : ResolvedFrame) (rows : List ResolvedFrame) :
    innermost (r :: rows) = r.function := rfl

/-- The guard's error row has no function. -/
theorem innermost_guard (rows : Unwind (List ResolvedFrame)) (kind : ErrorKind)
    (debugId : Option String) :
    innermost (rows.catchUnwind.getD [ResolvedFrame.error kind debugId])
      = (innermost <$> rows).catchUnwind.getD none := by
  cases rows <;> rfl

/-! ## DWARF modules -/

namespace DwarfModule

/-- The names of the next `n` frames are read and demangled without a panic, and so is the walk
to them. -/
def RestReturns (rd : Readers) : Nat → FrameIter → Prop
  | 0, _ => True
  | _ + 1, .done => True
  | _ + 1, .failed => True
  | _ + 1, .panicked => False
  | n + 1, .frame f rest =>
      ((rawName f) >>= demangled rd).Returns ∧ RestReturns rd n rest

/-- When the fast path agrees with the slow path at an address, by what the reader does there:
where DWARF has a frame but no name for it, or breaks off, the symbol table must have nothing to
say; where it names the innermost frame, the frames behind it must not make the reader panic. -/
def NamesAgree (rd : Readers) (m : DwarfModule) (addr : UInt64) (maxInlineDepth : Nat) : Prop :=
  dwarfProbeOk addr = true →
    match m.ctx.findFrames addr with
    | .panicked => True
    | .returned (.error _) => m.symbolFor addr = none
    | .returned (.ok .done) => True
    | .returned (.ok .panicked) => True
    | .returned (.ok .failed) => m.symbolFor addr = none
    | .returned (.ok (.frame f rest)) =>
        match rawName f with
        | .panicked => True
        | .returned none => m.symbolFor addr = none
        | .returned (some raw) =>
            (rd.tryDemangle raw).Returns → RestReturns rd (maxInlineDepth - 1) rest

/-- One more frame is read through when its name is, and the frames behind it are. -/
theorem readsThrough_frame {n : Nat} {f : AddrFrame} {rest : FrameIter} :
    ReadsThrough rd (n + 1) (.frame f rest) ↔
      (rawName f >>= demangled rd).Returns ∧ ReadsThrough rd n rest := by
  constructor
  · rintro ⟨hnamed, hwalked⟩
    rw [FrameIter.frames, List.take_succ_cons, List.forall_mem_cons] at hnamed
    exact ⟨hnamed.1, hnamed.2, fun hlt => hwalked (Nat.succ_lt_succ hlt)⟩
  · rintro ⟨hf, hnamed, hwalked⟩
    refine ⟨?_, fun hlt => hwalked (Nat.lt_of_succ_lt_succ hlt)⟩
    rw [FrameIter.frames, List.take_succ_cons, List.forall_mem_cons]
    exact ⟨hf, hnamed⟩

/-- `RestReturns` says of the next frames that the walk reads through them. By induction on the
frames still to be read, along the iterator. -/
theorem restReturns_iff {n : Nat} {iter : FrameIter} :
    RestReturns rd n iter ↔ ReadsThrough rd n iter := by
  induction n generalizing iter with
  | zero =>
      -- the cap is reached, whatever the iterator has left
      refine iff_of_true (by cases iter <;> trivial) ⟨?_, fun hlt => absurd hlt (by omega)⟩
      rw [List.take_zero]
      exact List.forall_mem_nil _
  | succ n ih =>
      cases iter with
      | done => exact iff_of_true trivial ⟨List.forall_mem_nil _, fun _ => by decide⟩
      | failed => exact iff_of_true trivial ⟨List.forall_mem_nil _, fun _ => by decide⟩
      | panicked =>
          refine iff_of_false id fun h => h.walked ?_ rfl
          exact Nat.succ_pos n
      | frame f rest => rw [RestReturns, readsThrough_frame, ih]

/-- The loop takes the first frame. -/
theorem not_le_length_nil {n : Nat} (h : 1 ≤ n) : ¬ n ≤ ([] : List RawFrame).length := by
  rw [List.length_nil]
  omega

/-- The first row shows the innermost frame. -/
theorem demangled_of_resolve {m : DwarfModule} {addr : UInt64} {limits : Limits}
    (hdepth : 1 ≤ limits.maxInlineDepth) (hprobe : dwarfProbeOk addr = true) {f : AddrFrame}
    {rest : FrameIter} (hfind : m.ctx.findFrames addr = .returned (.ok (.frame f rest)))
    {name : Option String} (hname : rawName f = .returned name) {rows : List ResolvedFrame}
    (h : m.resolve rd addr limits = .returned rows) :
    demangled rd name = .returned (innermost rows) := by
  cases resolved_of_returned h with
  | unprobed hprobe' =>
      rw [hprobe] at hprobe'
      cases hprobe'
  | broken _ hfind' hfound =>
      cases returned.inj (hfind.symm.trans hfind')
      rcases hfound with hfound | ⟨hfound, -⟩ <;> cases hfound
  | empty _ hfind' hiter =>
      cases returned.inj (hfind.symm.trans hfind')
      rcases hiter with hzero | hdone
      · omega
      · cases hdone
  | frames _ hfind' _ hshows _ =>
      cases returned.inj (hfind.symm.trans hfind')
      obtain ⟨n, hn⟩ : ∃ n, limits.maxInlineDepth = n + 1 :=
        Nat.exists_eq_succ_of_ne_zero (by omega)
      rw [hn, FrameIter.frames, List.take_succ_cons] at hshows
      cases hshows with
      | cons hfirst _ =>
          cases hname.symm.trans hfirst.functionRaw
          exact hfirst.function

/-- The rows of an address whose innermost frame is `f`: the first has its demangled linkage
name, if the rows can be built at all. -/
theorem innermost_resolve_frame (rd : Readers) {m : DwarfModule} {addr : UInt64} {limits : Limits}
    (hdepth : 1 ≤ limits.maxInlineDepth) (hprobe : dwarfProbeOk addr = true) {f : AddrFrame}
    {rest : FrameIter} (hfind : m.ctx.findFrames addr = .returned (.ok (.frame f rest)))
    {name : Option String} (hname : rawName f = .returned name) :
    (RestReturns rd (limits.maxInlineDepth - 1) rest →
      innermost <$> m.resolve rd addr limits = demangled rd name) ∧
    (¬ RestReturns rd (limits.maxInlineDepth - 1) rest →
      m.resolve rd addr limits = .panicked) := by
  have hreturns : (m.resolve rd addr limits).Returns ↔
      (demangled rd name).Returns ∧ RestReturns rd (limits.maxInlineDepth - 1) rest := by
    have hn : limits.maxInlineDepth = limits.maxInlineDepth - 1 + 1 := by omega
    rw [returns_resolve_iff hprobe hfind, restReturns_iff, hn, readsThrough_frame, hname,
      returned_bind, Nat.add_sub_cancel]
  constructor
  · intro hrest
    cases hrows : m.resolve rd addr limits with
    | returned rows =>
        rw [map_returned, demangled_of_resolve hdepth hprobe hfind hname hrows]
    | panicked =>
        -- nothing but the innermost name can have made it panic
        cases hd : demangled rd name with
        | panicked => rfl
        | returned function =>
            rw [hrows, hd] at hreturns
            exact absurd (hreturns.mpr ⟨returns_returned _, hrest⟩) not_returns_panicked
  · intro hrest
    by_contra hne
    exact hrest (hreturns.mp (returns_iff_ne_panicked.mpr hne)).2

/-- An innermost frame without a readable name: the first row has no function. -/
theorem innermost_resolve_unnamed {m : DwarfModule} {addr : UInt64} {limits : Limits}
    (hdepth : 1 ≤ limits.maxInlineDepth) (hprobe : dwarfProbeOk addr = true) {f : AddrFrame}
    {rest : FrameIter} (hfind : m.ctx.findFrames addr = .returned (.ok (.frame f rest)))
    (hname : rawName f = .returned none) :
    (innermost <$> m.resolve rd addr limits).catchUnwind.getD none = none := by
  obtain ⟨hgood, hbad⟩ := innermost_resolve_frame rd hdepth hprobe hfind hname
  by_cases hrest : RestReturns rd (limits.maxInlineDepth - 1) rest
  · rw [hgood hrest]
    rfl
  · rw [hbad hrest]
    rfl

/-! ### The two paths, by the outcome of the reader -/

section Outcomes

variable (rd) {m : DwarfModule} {addr : UInt64} (hprobe : dwarfProbeOk addr = true)
include hprobe

theorem functionName_frame {f : AddrFrame} {rest : FrameIter}
    (hfind : m.ctx.findFrames addr = .returned (.ok (.frame f rest))) :
    m.functionName rd addr = rawName f >>= fun name => match name with
      | some raw => some <$> rd.tryDemangle raw
      | none => .returned (m.symbolFor addr) := by
  unfold functionName rawName
  rw [hprobe, hfind]
  simp only [Bool.not_true, Bool.false_eq_true, if_false, returned_bind, FrameIter.next]
  rcases f.function with _ | (e | raw) | _ <;> rfl

/-- Before any frame the fast path falls back to the symbol table. -/
theorem functionName_no_frame {r : Except Unit FrameIter}
    (hfind : m.ctx.findFrames addr = .returned r)
    (hr : r = .error () ∨ r = .ok .done ∨ r = .ok .failed) :
    m.functionName rd addr = .returned (m.symbolFor addr) := by
  rw [functionName, hprobe, hfind]
  rcases hr with rfl | rfl | rfl <;> rfl

/-- The slow path does so only when the reader says that there is no frame. -/
theorem innermost_resolve_no_frame {limits : Limits} (hdepth : 1 ≤ limits.maxInlineDepth)
    {r : Except Unit FrameIter} (hfind : m.ctx.findFrames addr = .returned r) :
    (r = .ok .done →
      innermost <$> m.resolve rd addr limits = .returned (m.symbolFor addr)) ∧
    (r = .error () ∨ r = .ok .failed →
      innermost <$> m.resolve rd addr limits = .returned none) := by
  have hopen := not_le_length_nil hdepth
  unfold resolve
  rw [hprobe, hfind]
  simp only [Bool.not_true, Bool.false_eq_true, if_false, returned_bind]
  constructor
  · rintro rfl
    simp only
    rw [collectFrames, if_neg hopen, ← function_noLineFrame]
    rfl
  · rintro (rfl | rfl)
    · rfl
    · simp only
      rw [collectFrames, if_neg hopen]
      rfl

/-- A panic in finding, walking to or naming the innermost frame reaches both guards. -/
theorem panicked_of_find {limits : Limits} (hdepth : 1 ≤ limits.maxInlineDepth)
    (h : m.ctx.findFrames addr = .panicked ∨
      m.ctx.findFrames addr = .returned (.ok .panicked) ∨
      ∃ f rest, m.ctx.findFrames addr = .returned (.ok (.frame f rest)) ∧
        rawName f = .panicked) :
    m.functionName rd addr = .panicked ∧ m.resolve rd addr limits = .panicked := by
  have hopen := not_le_length_nil hdepth
  rcases h with hfind | hfind | ⟨f, rest, hfind, hname⟩
  · rw [functionName, resolve, hprobe, hfind]
    exact ⟨rfl, rfl⟩
  · rw [functionName, resolve, hprobe, hfind]
    simp only [Bool.not_true, Bool.false_eq_true, if_false, returned_bind]
    rw [collectFrames, if_neg hopen]
    exact ⟨rfl, rfl⟩
  · rw [functionName_frame rd hprobe hfind, resolve, hprobe, hfind]
    simp only [Bool.not_true, Bool.false_eq_true, if_false, returned_bind]
    rw [collectFrames, if_neg hopen, hname]
    exact ⟨rfl, rfl⟩

end Outcomes

/-- **The fast path of a DWARF module agrees with the slow path exactly when `NamesAgree`.** -/
theorem functionName_eq_innermost_iff (rd : Readers) (m : DwarfModule) (addr : UInt64)
    {limits : Limits} (hdepth : 1 ≤ limits.maxInlineDepth) :
    (m.functionName rd addr).catchUnwind.getD none
        = (innermost <$> m.resolve rd addr limits).catchUnwind.getD none ↔
      NamesAgree rd m addr limits.maxInlineDepth := by
  unfold NamesAgree
  cases hprobe : dwarfProbeOk addr with
  | false =>
      -- `u64::MAX` is not probed: both sides ask the symbol table
      have hf : m.functionName rd addr = .returned (m.symbolFor addr) := by
        rw [functionName, hprobe]
        rfl
      have hr : innermost <$> m.resolve rd addr limits = .returned (m.symbolFor addr) := by
        rw [resolve, hprobe, ← function_noLineFrame]
        rfl
      rw [hf, hr]
      simp
  | true =>
      rw [forall_prop_of_true rfl]
      have hpanic := panicked_of_find rd (m := m) hprobe hdepth
      cases hfind : m.ctx.findFrames addr with
      | panicked =>
          obtain ⟨hf, hr⟩ := hpanic (Or.inl hfind)
          rw [hf, hr]
          exact iff_of_true rfl trivial
      | returned r =>
          have hf := functionName_no_frame rd hprobe hfind
          obtain ⟨hdone, hbroken⟩ := innermost_resolve_no_frame rd hprobe hdepth hfind
          rcases r with ⟨⟩ | (_ | _ | _ | ⟨f, rest⟩)
          · -- the lookup fails: only the fast path asks the symbol table
            rw [hf (by simp), hbroken (by simp)]
            exact Iff.rfl
          · -- no frame: both ask it
            rw [hf (by simp), hdone rfl]
            exact iff_of_true rfl trivial
          · -- the iterator fails before it yields a frame: as when the lookup fails
            rw [hf (by simp), hbroken (by simp)]
            exact Iff.rfl
          · obtain ⟨hf, hr⟩ := hpanic (Or.inr (Or.inl hfind))
            rw [hf, hr]
            exact iff_of_true rfl trivial
          · -- an innermost frame: by what its name turns out to be
            have hfast := functionName_frame rd hprobe hfind
            simp only
            rcases hname : rawName f with (_ | raw) | _
            · rw [hfast, hname, innermost_resolve_unnamed hdepth hprobe hfind hname]
              exact Iff.rfl
            · obtain ⟨hgood, hbad⟩ :=
                innermost_resolve_frame rd hdepth hprobe hfind hname
              rw [hfast, hname, returned_bind]
              by_cases hrest : RestReturns rd (limits.maxInlineDepth - 1) rest
              · rw [hgood hrest]
                exact iff_of_true rfl fun _ => hrest
              · rw [hbad hrest]
                cases hd : rd.tryDemangle raw with
                | panicked => simp [hd]
                | returned d => simp [hd, hrest]
            · obtain ⟨hf, hr⟩ := hpanic (Or.inr (Or.inr ⟨f, rest, hfind, hname⟩))
              rw [hf, hr]
              exact iff_of_true rfl trivial

end DwarfModule

/-! ## PDB modules -/

/-- The rows of a PDB module have the functions of its frames. -/
theorem PdbModule.innermost_frameRows (m : PdbModule) (n i : Nat) (frames : List PdbFrame) :
    innermost (m.frameRows n i frames) = frames.head?.bind (·.function) := by
  cases frames <;> rfl

/-- **The two paths of a PDB module agree.** -/
theorem PdbModule.functionName_eq_innermost (m : PdbModule) (addr : UInt64) {limits : Limits}
    (hdepth : 1 ≤ limits.maxInlineDepth) :
    (m.functionName addr).catchUnwind.getD none
      = (innermost <$> m.resolve addr limits).catchUnwind.getD none := by
  unfold PdbModule.functionName PdbModule.resolve
  cases hprobe : PdbModule.toU32 addr with
  | none => rcases m.data.makeContext with (e | ctx) | _ <;> rfl
  | some probe =>
      rcases m.data.makeContext with (e | ctx) | _
      · rfl
      · simp only [returned_bind]
        rcases ctx.findFrames probe with (e | (_ | frames)) | _
        · rfl
        · rfl
        · simp only [returned_bind]
          cases frames with
          | nil =>
              rw [if_pos (by simp)]
              rfl
          | cons f rest =>
              have hn : ¬ min (f :: rest).length limits.maxInlineDepth = 0 := by
                rw [List.length_cons]
                omega
              rw [if_neg hn]
              simp only [pure_eq, map_returned, catchUnwind_returned, Option.getD_some]
              rw [innermost_frameRows, List.head?_take, if_neg hn]
        · rfl
      · rfl

/-! ## The worker -/

namespace SymbolsState

/-- **Exactly when the fast path answers like the slow path**, in every reachable state: when the
answering module is not a DWARF module on which `NamesAgree` fails. -/
theorem functionName_eq_resolve_iff (rd : Readers) (maxBytes : UInt64) (maxModules : Nat)
    (ops : List (World × Op)) (w : World) (token : String) (addr : UInt64) :
    ((runOps rd (withBudgets maxBytes maxModules) ops).functionName rd w token addr).1
        = innermost <$>
          ((runOps rd (withBudgets maxBytes maxModules) ops).resolve rd w token addr).1 ↔
      ∀ m, ((runOps rd (withBudgets maxBytes maxModules) ops).lookup rd w token).1
          = .returned (.module (.dwarf m)) →
        m.NamesAgree rd addr Limits.default.maxInlineDepth := by
  -- Every state of a run has the default limits, which leave room for the innermost frame.
  have hdepth : 1 ≤ Limits.default.maxInlineDepth := by decide
  have hlimits := limits_runOps rd maxBytes maxModules ops
  generalize runOps rd (withBudgets maxBytes maxModules) ops = s at hlimits
  rw [functionName_eq_lookup, resolve_eq_lookup, hlimits]
  simp only
  cases hout : (s.lookup rd w token).1 with
  | panicked => exact iff_of_true rfl fun m h => by cases h
  | returned answer =>
      cases answer with
      | notFound => exact iff_of_true rfl fun m h => by cases h
      | error kind => exact iff_of_true rfl fun m h => by cases h
      | module m =>
          rw [map_returned, map_returned, map_returned, Unwind.returned.injEq]
          cases m with
          | dwarf m =>
              refine Iff.trans ?_ ⟨fun h m' heq => ?_, fun h => h m rfl⟩
              · show (m.functionName rd addr).catchUnwind.getD none
                  = innermost ((m.resolve rd addr Limits.default).catchUnwind.getD _) ↔ _
                rw [innermost_guard]
                exact DwarfModule.functionName_eq_innermost_iff rd m addr hdepth
              · cases heq
                exact h
          | pdb m =>
              refine iff_of_true ?_ fun m' h => by cases h
              show (m.functionName addr).catchUnwind.getD none
                = innermost ((m.resolve addr Limits.default).catchUnwind.getD _)
              rw [innermost_guard]
              exact m.functionName_eq_innermost addr hdepth

/-- An image with a line table but no function names: `resolve` has no function for its row,
`functionName` falls back to the symbol `start`. -/
theorem not_functionName_eq_resolve :
    ¬ ∀ (ops : List (World × Op)) (w : World) (token : String) (addr : UInt64),
      ((runOps StandIn.readers (withBudgets 4096 4) ops).functionName StandIn.readers w token
        addr).1
      = innermost <$> ((runOps StandIn.readers (withBudgets 4096 4) ops).resolve
        StandIn.readers w token addr).1 := by
  intro h
  let w : World := ⟨StandIn.directory "d" [("d/a", 3 :: StandIn.buildId 0x11)], 0⟩
  have h₁ := h [(w, .addSource "dir" (some "d") none none none none)] w (StandIn.token 0x11) 4
  revert h₁
  decide +kernel

end SymbolsState

end VgiSymbols
