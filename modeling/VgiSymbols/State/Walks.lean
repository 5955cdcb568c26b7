import VgiSymbols.State.Alike
import VgiSymbols.State.FallThrough
import VgiSymbols.State.Ledger

set_option autoImplicit false

/-! # Each source is walked once

Indexing is a queue. The enabled local sources wait in the order they were registered, a lookup
that gets to the index walks the ones that wait, and a source that was walked does not wait again
while none is dropped (`walked_once`). A walk that unwinds leaves its source in front of the queue.
-/

namespace VgiSymbols

open Unwind

namespace SourceRegistry

variable {rd : Readers} {fs : FileSystem}

/-- The sources whose listing returns, up to one whose listing unwinds. -/
def walked (rd : Readers) (fs : FileSystem) : List SourceSpec → List SourceSpec
  | [] => []
  | s :: rest =>
      match s.list rd fs with
      | .panicked => []
      | .returned _ => s :: walked rd fs rest

theorem walked_isPrefix (rd : Readers) (fs : FileSystem) (l : List SourceSpec) :
    walked rd fs l <+: l := by
  induction l with
  | nil => exact List.prefix_refl []
  | cons s l ih =>
      rw [walked]
      split
      · exact List.nil_prefix
      · exact (List.prefix_cons_inj s).mpr ih

/-- Indexing marks the sources it walked. -/
theorem mem_indexed_walked (l : List SourceSpec) {reg : SourceRegistry} {x : String} :
    x ∈ (indexPending rd fs l reg).2.indexed ↔
      x ∈ reg.indexed ∨ ∃ s ∈ walked rd fs l, s.sourceId = x := by
  induction l generalizing reg with
  | nil => simp [indexPending, walked]
  | cons s l ih =>
      rw [indexPending, walked]
      cases s.list rd fs with
      | panicked => simp
      | returned files =>
          simp only [ih, Finset.mem_insert, List.exists_mem_cons_iff]
          tauto

/-- What waits is walked from the front, and the rest goes on waiting. -/
theorem walked_append_pending {reg : SourceRegistry} (hids : IdsDistinct reg.sources) :
    walked rd fs reg.pending ++ (reg.ensureIndexed rd fs).2.pending = reg.pending := by
  obtain ⟨rest, hrest⟩ := walked_isPrefix rd fs reg.pending
  have hnodup : (reg.pending.map SourceSpec.sourceId).Nodup :=
    hids.sublist (List.filter_sublist.map _)
  rw [← hrest, List.map_append, List.nodup_append] at hnodup
  obtain ⟨-, -, hapart⟩ := hnodup
  have hpending : (reg.ensureIndexed rd fs).2.pending
      = reg.pending.filter fun s =>
          decide (∀ d ∈ walked rd fs reg.pending, d.sourceId ≠ s.sourceId) := by
    have hiff : ∀ s : SourceSpec, s.sourceId ∉ (reg.ensureIndexed rd fs).2.indexed ↔
        s.sourceId ∉ reg.indexed ∧
          ∀ d ∈ walked rd fs reg.pending, d.sourceId ≠ s.sourceId := by
      intro s
      rw [ensureIndexed, mem_indexed_walked, not_or]
      simp only [not_exists, not_and, ne_eq]
    generalize walked rd fs reg.pending = done at hiff ⊢
    rw [SourceRegistry.pending, sources_ensureIndexed, SourceRegistry.pending, List.filter_filter]
    apply List.filter_congr
    intro s _
    rw [Bool.eq_iff_iff]
    simp only [Bool.and_eq_true, decide_eq_true_eq, hiff]
    tauto
  have hleft : reg.pending.filter (fun s =>
      decide (∀ d ∈ walked rd fs reg.pending, d.sourceId ≠ s.sourceId)) = rest := by
    generalize walked rd fs reg.pending = done at hrest hapart ⊢
    rw [← hrest, List.filter_append, List.filter_eq_nil_iff.mpr, List.nil_append,
      List.filter_eq_self.mpr]
    · intro s hs
      rw [decide_eq_true_iff]
      exact fun d hd => hapart _ (List.mem_map_of_mem hd) _ (List.mem_map_of_mem hs)
    · intro s hs h
      exact of_decide_eq_true h s hs rfl
  rw [hpending, hleft, hrest]

/-- A new source waits behind the others if it is local. -/
theorem pending_add {reg : SourceRegistry} (h : reg.Unique) (kind : String)
    (path url bucket : Option String) (enabled : Option Bool) (secret : Option String) :
    (reg.add kind path url bucket enabled secret).2.pending = reg.pending ++
      ((reg.newSource kind path url bucket enabled secret).filter SourceSpec.isLocal).toList := by
  rw [newSource, Option.filter_some]
  cases hmissing : (SourceSpec.described (numberedId reg.nextId.toNat) kind path url bucket enabled
    secret).missing with
  | some e =>
      rw [add_of_missing hmissing]
      exact (List.append_nil _).symm
  | none =>
      have hfresh : numberedId reg.nextId.toNat ∉ reg.indexed := h.notMem_indexed
      rw [add_of_complete hmissing, SourceRegistry.pending, List.filter_append]
      refine congrArg (reg.pending ++ ·) ?_
      generalize hs : SourceSpec.described (numberedId reg.nextId.toNat) kind path url bucket
        enabled secret = s
      have hid : s.sourceId ∉ reg.indexed := hs ▸ hfresh
      cases hlocal : s.isLocal <;> simp [Option.filter_some, hlocal, hid]

end SourceRegistry

namespace SymbolsState

variable {rd : Readers}

/-- The sources a step walks to their end. -/
def walkedIn (rd : Readers) (s : SymbolsState) (i : World × Op) : List SourceSpec :=
  match i.2.token? with
  | some token =>
      if s.cache.isResident token || s.cache.isKnownMiss token then []
      else SourceRegistry.walked rd i.1.fs s.sources.pending
  | none => []

/-! ## The queue of sources -/

/-- **The step lemma.** What a step walks was in front of the queue, and what it registers is at
its end. -/
theorem walkedIn_append_pending {n : Nat} {s : SymbolsState} (h : Roomy (n + 1) s)
    {i : World × Op} (hi : i.2.dropsNone = true) :
    walkedIn rd s i ++ (step rd s i).sources.pending
      = s.sources.pending ++ ((s.registers i).filter SourceSpec.isLocal).toList := by
  have hlookup : ∀ (w : World) (token : String),
      (if s.cache.isResident token || s.cache.isKnownMiss token then []
        else SourceRegistry.walked rd w.fs s.sources.pending)
          ++ (s.lookup rd w token).2.sources.pending = s.sources.pending := by
    intro w token
    rw [sources_lookup]
    split
    · rfl
    · exact SourceRegistry.walked_append_pending h.unique.ids
  obtain ⟨w, op⟩ := i
  cases op with
  | addSource kind path url bucket enabled secret =>
      have hwalked : walkedIn rd s (w, .addSource kind path url bucket enabled secret) = [] := rfl
      rw [hwalked, step_addSource, sources_addSource, List.nil_append, registers]
      exact SourceRegistry.pending_add h.unique kind path url bucket enabled secret
  | resolve token addr =>
      rw [step_resolve]
      exact (hlookup w token).trans (List.append_nil _).symm
  | functionName token addr =>
      rw [step_functionName]
      exact (hlookup w token).trans (List.append_nil _).symm
  | cacheEvict token => exact (List.append_nil _).symm
  | dropSource sourceId => cases hi
  | importManifest manifest => cases hi
  | restart maxBytes maxModules => cases hi

/-- While nothing is dropped, the sources that are registered come behind the others. -/
theorem listSources_runOps_append (rd : Readers) {ops : List (World × Op)}
    (hops : ∀ i ∈ ops, i.2.dropsNone = true) (s : SymbolsState) :
    (runOps rd s ops).listSources = s.listSources ++ Run.emitted (step rd) registers s ops := by
  refine Ledger.held_run (step rd) listSources registers (fun s i hi => ?_) hops s
  obtain ⟨w, op⟩ := i
  have himports : op.importsNone = true := by cases op <;> first | rfl | cases hi
  rw [listSources_step rd s himports]
  cases op with
  | dropSource sourceId => cases hi
  | _ => rfl

/-- **Each source is walked once.** After any session, and as long as nothing is dropped from then
on, the sources that are walked to their end are those that waited and then those that are
registered, in this order, up to the ones that wait in the end. So none is walked twice, and none
is passed over. -/
theorem walked_once (rd : Readers) {before ops : List (World × Op)}
    (hbefore : ∀ i ∈ before, i.2.isSession = true) (hops : ∀ i ∈ ops, i.2.dropsNone = true)
    (hlen : before.length + ops.length < 2 ^ 64) (maxBytes : UInt64) (maxModules : Nat) :
    let s := runOps rd (withBudgets maxBytes maxModules) before
    let walks := (Run.trace (step rd) (walkedIn rd) s ops).flatten
    walks ++ (runOps rd s ops).sources.pending
        = s.sources.pending
          ++ (Run.emitted (step rd) registers s ops).filter SourceSpec.isLocal ∧
      (walks.map SourceSpec.sourceId).Nodup := by
  intro s walks
  have hs : Roomy ops.length s :=
    (roomy_withBudgets (by omega) maxBytes maxModules).runOps hbefore
  have hqueue := Ledger.taken_append_held (step rd) (fun s => s.sources.pending) (walkedIn rd)
    (fun s i => (s.registers i).filter SourceSpec.isLocal) (J := Roomy)
    (fun _ _ _ hroomy hi =>
      ⟨walkedIn_append_pending hroomy hi, hroomy.step (Op.isSession_of_dropsNone hi)⟩) hops hs
  rw [Ledger.emitted_filter] at hqueue
  refine ⟨hqueue, ?_⟩
  have hend : Roomy 0 (runOps rd s ops) :=
    Roomy.runOps (fun i hi => Op.isSession_of_dropsNone (hops i hi)) (by rwa [Nat.zero_add])
  have hsub : walks.Sublist (runOps rd s ops).listSources := by
    have hfront : walks.Sublist (s.sources.pending
        ++ (Run.emitted (step rd) registers s ops).filter SourceSpec.isLocal) := by
      rw [← hqueue]
      exact List.sublist_append_left _ _
    rw [listSources_runOps_append rd hops s]
    exact hfront.trans (List.filter_sublist.append List.filter_sublist)
  exact hend.unique.ids.sublist (hsub.map _)

/-- The directory waits again when the other source is dropped, and is walked once more. -/
theorem walked_once_goodAndBad :
    let w : World := ⟨StandIn.goodAndBad, 4⟩
    let before : List (World × Op) :=
      [(w, .addSource "dir" (some "d") none none none none),
        (w, .addSource "inline" none none none none none),
        (w, .resolve (StandIn.token 0x11) 4), (w, .dropSource "src1")]
    let ops : List (World × Op) :=
      [(w, .resolve (StandIn.token 0x22) 4), (w, .addSource "dir" (some "d") none none none none),
        (w, .functionName (StandIn.token 0x33) 4), (w, .functionName (StandIn.token 0x44) 4)]
    let s := runOps StandIn.readers (withBudgets 10 1) before
    let walks := (Run.trace (step StandIn.readers) (walkedIn StandIn.readers) s ops).flatten
    walks ++ (runOps StandIn.readers s ops).sources.pending
        = s.sources.pending
          ++ (Run.emitted (step StandIn.readers) registers s ops).filter SourceSpec.isLocal ∧
      (walks.map SourceSpec.sourceId).Nodup :=
  walked_once StandIn.readers (by decide) (by decide) (by decide) 10 1

end SymbolsState

end VgiSymbols
