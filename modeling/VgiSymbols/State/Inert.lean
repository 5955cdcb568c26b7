import VgiSymbols.State.Alike

set_option autoImplicit false

/-! # Inert sources

Sources that are remote, inline or disabled can be registered at any point of a run: no lookup and
no eviction shows a difference (`emitted_inert`), whatever becomes of the files and wherever the
readers unwind: registries with the same local sources answer alike (`answersAlike_localIndex`).
-/

namespace VgiSymbols

open Unwind

namespace SymbolsState

variable {rd : Readers}

/-- Registries with the same local sources, ids apart, answer alike. -/
theorem answersAlike_localIndex (rd : Readers) :
    AnswersAlike rd (fun _ => True) fun reg reg' => reg.localIndex = reg'.localIndex where
  locate w reg reg' token _ hreg hunique hunique' := by
    have hlocate : reg.localIndex.locate rd w.fs token = _ :=
      SourceRegistry.localIndex_locate hunique.ids token
    rw [hreg, SourceRegistry.localIndex_locate hunique'.ids] at hlocate
    obtain ⟨hout, hindex⟩ := Prod.mk.inj hlocate
    exact ⟨hout.symm, hindex.symm⟩
  add _ _ kind path url bucket enabled secret hreg hunique hunique' :=
    SourceRegistry.localIndex_add hreg hunique hunique' kind path url bucket enabled secret

/-! ## Registering sources -/

/-- The operation registers a source that is disabled, or neither a directory nor a glob. -/
def Op.isInert : Op → Bool
  | .addSource kind _ _ _ enabled _ =>
      enabled == some false || (asciiLower (trim kind) != "dir" && asciiLower (trim kind) != "glob")
  | _ => false

theorem Op.exists_of_isInert {op : Op} (h : op.isInert = true) :
    ∃ (kind : String) (path url bucket : Option String) (enabled : Option Bool)
      (secret : Option String), op = .addSource kind path url bucket enabled secret ∧
      (enabled = some false ∨
        (asciiLower (trim kind) ≠ "dir" ∧ asciiLower (trim kind) ≠ "glob")) := by
  cases op with
  | addSource kind path url bucket enabled secret =>
      refine ⟨kind, path, url, bucket, enabled, secret, rfl, ?_⟩
      simpa [Op.isInert] using h
  | _ => cases h

/-- An inert source on one side is not seen. -/
theorem Alike.inert {n : Nat} {s s' : SymbolsState}
    (h : Alike (fun reg reg' => reg.localIndex = reg'.localIndex) (n + 1) s s') {op : Op}
    (hop : op.isInert = true) (w : World) :
    Alike (fun reg reg' => reg.localIndex = reg'.localIndex) n s
      (SymbolsState.step rd s' (w, op)) := by
  obtain ⟨kind, path, url, bucket, enabled, secret, rfl, hinert⟩ := Op.exists_of_isInert hop
  show Alike _ n s (s'.addSource kind path url bucket enabled secret).2
  refine ⟨?_, ?_, ?_, h.roomy.of_succ, h.roomy'.addSource kind path url bucket enabled secret⟩
  · rw [cache_addSource, h.cache]
  · rw [limits_addSource, h.limits]
  · rw [sources_addSource, SourceRegistry.localIndex_add_not_local _ path url bucket secret hinert,
      h.sources]

theorem emitted_inert (rd : Readers) {ops ops' : List (World × Op)}
    (hops : Run.Padded (fun i : World × Op => i.2.isInert = true) ops ops')
    (hkind : ∀ i ∈ ops, i.2.dropsNone = true) (hlen : ops'.length < 2 ^ 64) (maxBytes : UInt64)
    (maxModules : Nat) :
    Run.emitted (step rd) (shown rd) (withBudgets maxBytes maxModules) ops
      = Run.emitted (step rd) (shown rd) (withBudgets maxBytes maxModules) ops' := by
  let R : SourceRegistry → SourceRegistry → Prop :=
    fun reg reg' => reg.localIndex = reg'.localIndex
  have hstep : ∀ n s s' (i : World × Op), Alike R (n + 1) s s' → i.2.dropsNone = true →
      shown rd s i = shown rd s' i ∧ Alike R n (step rd s i) (step rd s' i) :=
    fun _ _ _ _ h hi => h.step (answersAlike_localIndex rd) hi trivial
  have hsilent : ∀ n s s' (i : World × Op), Alike R (n + 1) s s' → i.2.isInert = true →
      shown rd s' i = none ∧ Alike R n s (step rd s' i) := by
    intro n s s' i h hi
    obtain ⟨_, _, _, _, _, _, hop, -⟩ := Op.exists_of_isInert hi
    refine ⟨shown_of_not_work ?_, h.inert hi i.1⟩
    rw [hop]
    rfl
  have hroomy := roomy_withBudgets hlen maxBytes maxModules
  exact Run.emitted_padded hstep hsilent hops hkind ⟨rfl, rfl, rfl, hroomy, hroomy⟩

/-- A disabled directory and a debuginfod server change no answer. -/
theorem emitted_inert_goodAndBad :
    let w : World := ⟨StandIn.goodAndBad, 4⟩
    let local' : World × Op := (w, .addSource "dir" (some "d") none none none none)
    let lookup : World × Op := (w, .resolve (StandIn.token 0x11) 4)
    Run.emitted (step StandIn.readers) (shown StandIn.readers) SymbolsState.new
        [local', lookup]
      = Run.emitted (step StandIn.readers) (shown StandIn.readers) SymbolsState.new
          [(w, .addSource "dir" (some "e") none none (some false) none), local',
            (w, .addSource "Debuginfod" none (some "u") none none none), lookup] :=
  emitted_inert StandIn.readers (.pad (by decide) (.cons _ (.pad (by decide) (.cons _ .nil))))
    (by decide) (by decide) defaultMaxBytes defaultMaxModules

end SymbolsState

end VgiSymbols
