import VgiSymbols.State.Containment
import VgiSymbols.Module.Walk

set_option autoImplicit false

/-! # The shape of an answer

Whatever the readers do inside the guarded calls, the rows of an answer form a chain: numbered
from the innermost frame, all inline but the last one, of one module, and alone if they tell of a
problem (`wellShaped_resolve`). Both module formats build their rows by `Chain`, a piece of such
a chain; every other exit returns a single row.
-/

namespace VgiSymbols

open Unwind

variable {rd : Readers}

/-! ## Chains of rows -/

/-- The rows of one answer. -/
structure WellShaped (rows : List ResolvedFrame) : Prop where
  nonempty : rows ≠ []
  depth : ∀ (i : Nat) (r : ResolvedFrame), rows[i]? = some r → r.inlineDepth.toInt = i
  inline : ∀ (i : Nat) (r : ResolvedFrame), rows[i]? = some r →
    (r.isInline = true ↔ i + 1 ≠ rows.length)
  sameModule : ∀ r ∈ rows, ∀ r' ∈ rows, r.module = r'.module ∧ r.debugId = r'.debugId
  alone : ∀ r ∈ rows, r.status ≠ .ok → rows = [r]

/-- A single physical frame, or a single row that tells of a problem. -/
theorem wellShaped_singleton {r : ResolvedFrame} (hdepth : r.inlineDepth = 0)
    (hinline : r.isInline = false) : WellShaped [r] where
  nonempty := List.cons_ne_nil _ _
  depth i r' h := by
    obtain ⟨rfl, rfl⟩ : i = 0 ∧ r = r' := by
      cases i with
      | zero => exact ⟨rfl, Option.some.inj h⟩
      | succ i => cases h
    rw [hdepth]
    rfl
  inline i r' h := by
    obtain ⟨rfl, rfl⟩ : i = 0 ∧ r = r' := by
      cases i with
      | zero => exact ⟨rfl, Option.some.inj h⟩
      | succ i => cases h
    simp [hinline]
  sameModule r₁ h₁ r₂ h₂ := by
    rw [List.mem_singleton.mp h₁, List.mem_singleton.mp h₂]
    exact ⟨rfl, rfl⟩
  alone r' h _ := by rw [List.mem_singleton.mp h]

/-- A whole chain is well shaped, as long as its depths can be told. -/
theorem Chain.wellShaped {module debugId : Option String} {rows : List ResolvedFrame}
    (h : Chain module debugId rows.length 0 rows) (hne : rows ≠ [])
    (hlen : rows.length ≤ 2 ^ 31) : WellShaped rows where
  nonempty := hne
  depth i r hi := by
    have hlt := (List.getElem?_eq_some_iff.mp hi).1
    rw [(h.get hi).1, Nat.zero_add]
    exact Int32.toInt_ofNat_of_lt (by omega)
  inline i r hi := by
    have hlt := (List.getElem?_eq_some_iff.mp hi).1
    rw [(h.get hi).2.1, decide_eq_true_eq, Nat.zero_add]
    omega
  sameModule r hr r' hr' := by
    obtain ⟨i, hi⟩ := List.getElem?_of_mem hr
    obtain ⟨j, hj⟩ := List.getElem?_of_mem hr'
    have h₁ := (h.get hi).2.2
    have h₂ := (h.get hj).2.2
    exact ⟨h₁.1.trans h₂.1.symm, h₁.2.1.trans h₂.2.1.symm⟩
  alone r hr hstatus := by
    obtain ⟨i, hi⟩ := List.getElem?_of_mem hr
    exact absurd (h.get hi).2.2.2.2 hstatus

/-- The rows of the frames up to the cap on the depth. -/
theorem Chain.wellShaped_of_take {module debugId : Option String} {rows : List ResolvedFrame}
    (h : Chain module debugId rows.length 0 rows) {limits : Limits}
    (hlimit : limits.maxInlineDepth ≤ 2 ^ 31) {α : Type} {frames : List α}
    (hne : frames.take limits.maxInlineDepth ≠ []) {R : α → ResolvedFrame → Prop}
    (hshows : List.Forall₂ R (frames.take limits.maxInlineDepth) rows) : WellShaped rows := by
  refine h.wellShaped (fun hnil => hne ?_) ?_
  · rw [hnil] at hshows
    exact List.forall₂_nil_right_iff.mp hshows
  · calc rows.length = (frames.take limits.maxInlineDepth).length := hshows.length_eq.symm
      _ ≤ limits.maxInlineDepth := List.length_take_le _ _
      _ ≤ 2 ^ 31 := hlimit

/-! ## DWARF modules -/

namespace DwarfModule

theorem wellShaped_resolve {m : DwarfModule} {addr : UInt64} {limits : Limits}
    (hlimit : limits.maxInlineDepth ≤ 2 ^ 31) {rows : List ResolvedFrame}
    (h : m.resolve rd addr limits = .returned rows) : WellShaped rows := by
  have hnoLine : WellShaped [m.noLineFrame addr] := by
    refine wellShaped_singleton ?_ ?_ <;>
      (unfold noLineFrame; cases m.symbolFor addr <;> rfl)
  cases resolved_of_returned h with
  | unprobed _ => exact hnoLine
  | broken _ _ _ => exact wellShaped_singleton rfl rfl
  | empty _ _ _ => exact hnoLine
  | frames _ _ hne hshows hchain => exact hchain.wellShaped_of_take hlimit hne hshows

end DwarfModule

/-! ## PDB modules -/

namespace PdbModule

theorem wellShaped_resolve {m : PdbModule} {addr : UInt64} {limits : Limits}
    (hlimit : limits.maxInlineDepth ≤ 2 ^ 31) {rows : List ResolvedFrame}
    (h : m.resolve addr limits = .returned rows) : WellShaped rows := by
  cases resolved_of_returned h with
  | blank _ _ => exact wellShaped_singleton rfl rfl
  | frames _ _ _ hne hshows hchain => exact hchain.wellShaped_of_take hlimit hne hshows

end PdbModule

/-! ## Answers -/

theorem ParsedModule.wellShaped_resolve (m : ParsedModule) (addr : UInt64) {limits : Limits}
    (hlimit : limits.maxInlineDepth ≤ 2 ^ 31) : WellShaped (m.resolve rd addr limits) := by
  have hguard : ∀ {out : Unwind (List ResolvedFrame)},
      (∀ rows, out = .returned rows → WellShaped rows) →
      WellShaped (out.catchUnwind.getD
        [ResolvedFrame.error .corruptLineProgram (some m.identity.debugIdStr)]) := by
    intro out h
    cases out with
    | returned rows => exact h rows rfl
    | panicked => exact wellShaped_singleton rfl rfl
  cases m with
  | dwarf m => exact hguard fun rows hrows => DwarfModule.wellShaped_resolve hlimit hrows
  | pdb m => exact hguard fun rows hrows => PdbModule.wellShaped_resolve hlimit hrows

theorem Answer.wellShaped_frames (answer : Answer) (addr : UInt64) {limits : Limits}
    (hlimit : limits.maxInlineDepth ≤ 2 ^ 31) : WellShaped (answer.frames rd limits addr) := by
  cases answer with
  | module m => exact m.wellShaped_resolve addr hlimit
  | notFound => exact wellShaped_singleton rfl rfl
  | error kind => exact wellShaped_singleton rfl rfl

namespace SymbolsState

/-- **Every answer is well shaped.** In every reachable state a lookup that probes no file which
makes the probe panic returns rows, and they form a chain. -/
theorem resolve_wellShaped (rd : Readers) (maxBytes : UInt64) (maxModules : Nat)
    (ops : List (World × Op)) (w : World) (token : String) (addr : UInt64) :
    let s := runOps rd (withBudgets maxBytes maxModules) ops
    (s.cache.isResident token = true ∨ s.cache.isKnownMiss token = true ∨
      ProbesReturn rd w.fs s.sources.pending) →
    ∃ rows, (s.resolve rd w token addr).1 = .returned rows ∧ WellShaped rows := by
  intro s hprobes
  obtain ⟨answer, hanswer⟩ := (lookup_returns_iff w s token).mpr hprobes
  refine ⟨answer.frames rd s.limits addr, ?_, ?_⟩
  · rw [resolve_eq_lookup, hanswer]
    rfl
  · apply answer.wellShaped_frames addr
    rw [limits_runOps]
    decide

/-- A file that panics in the guarded parse. -/
theorem resolve_wellShaped_goodAndHostile :
    ∃ rows, ((runOps StandIn.readers (withBudgets 4096 4)
        [(⟨StandIn.goodAndHostile 4, 0⟩, .addSource "dir" (some "d") none none none none)]).resolve
      StandIn.readers ⟨StandIn.goodAndHostile 4, 1⟩ (StandIn.token 0x22) 4).1 = .returned rows ∧
        WellShaped rows :=
  resolve_wellShaped StandIn.readers 4096 4 _ ⟨StandIn.goodAndHostile 4, 1⟩ (StandIn.token 0x22) 4
    (Or.inr (Or.inr (probesReturn_iff.mpr (listsReturn_of_total StandIn.readers_total _))))

end SymbolsState

end VgiSymbols
