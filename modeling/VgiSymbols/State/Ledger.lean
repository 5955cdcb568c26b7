import VgiSymbols.Basic.Ledger
import VgiSymbols.State.Confined
import VgiSymbols.Core.Inspect

set_option autoImplicit false

/-! # The list of sources

`list_sources` lists the sources that were registered and not dropped since, in the order they
were registered (`listSources_runOps`). Lookups, evictions and restarts do not touch the list, and
each source in it is complete and marked as remote exactly if it is.
-/

namespace VgiSymbols

namespace SymbolsState

/-- The source an operation registers, if any. -/
def registers (s : SymbolsState) (i : World × Op) : Option SourceSpec :=
  match i.2 with
  | .addSource kind path url bucket enabled secret =>
      s.sources.newSource kind path url bucket enabled secret
  | _ => none

/-- The operation drops the source. -/
def drops (i : World × Op) (spec : SourceSpec) : Prop := i.2 = .dropSource spec.sourceId

/-- The operation imports no list of sources. -/
def Op.importsNone : Op → Bool
  | .importManifest _ => false
  | _ => true

variable {rd : Readers}

theorem listSources_lookup (rd : Readers) (s : SymbolsState) (w : World) (token : String) :
    (s.lookup rd w token).2.listSources = s.listSources := by
  rcases sources_looked (looked_lookup rd w s token) with heq | heq
  · rw [listSources, heq, listSources]
  · rw [listSources, heq, SourceRegistry.sources_ensureIndexed, listSources]

/-- Adding a source puts it behind the others, dropping one filters the list, and nothing else
touches it. -/
theorem listSources_step (rd : Readers) (s : SymbolsState) {i : World × Op}
    (hi : i.2.importsNone = true) :
    (step rd s i).listSources =
      (match i.2 with
        | .dropSource sourceId => s.listSources.filter fun spec => spec.sourceId ≠ sourceId
        | _ => s.listSources) ++ (s.registers i).toList := by
  obtain ⟨w, op⟩ := i
  cases op with
  | addSource kind path url bucket enabled secret =>
      rw [step_addSource, listSources, sources_addSource, SourceRegistry.sources_add]
      rfl
  | dropSource sourceId =>
      have hsources : (s.sources.dropSource sourceId).2.sources
          = s.sources.sources.filter fun spec => spec.sourceId ≠ sourceId := by
        unfold SourceRegistry.dropSource
        simp only
        split <;> rfl
      exact hsources.trans (List.append_nil _).symm
  | resolve token addr =>
      rw [step_resolve, listSources_lookup]
      exact (List.append_nil _).symm
  | functionName token addr =>
      rw [step_functionName, listSources_lookup]
      exact (List.append_nil _).symm
  | cacheEvict token => exact (List.append_nil _).symm
  | importManifest manifest => cases hi
  | restart maxBytes maxModules => exact (List.append_nil _).symm

theorem mem_listSources_step (rd : Readers) (s : SymbolsState) {i : World × Op}
    (hi : i.2.importsNone = true) (spec : SourceSpec) :
    spec ∈ (step rd s i).listSources ↔
      spec ∈ s.listSources ∧ ¬ drops i spec ∨ s.registers i = some spec := by
  rw [listSources_step rd s hi, List.mem_append, Option.mem_toList]
  refine or_congr_left ?_
  obtain ⟨w, op⟩ := i
  cases op with
  | dropSource sourceId =>
      rw [List.mem_filter, decide_eq_true_iff]
      refine and_congr_right fun _ => not_congr ?_
      exact ⟨fun h => congrArg Op.dropSource h.symm, fun h => (Op.dropSource.inj h).symm⟩
  | _ => simp [drops]

theorem sublist_listSources_step (rd : Readers) (s : SymbolsState) {i : World × Op}
    (hi : i.2.importsNone = true) :
    (step rd s i).listSources.Sublist (s.listSources ++ (s.registers i).toList) := by
  rw [listSources_step rd s hi]
  refine List.Sublist.append_right ?_ _
  split
  · exact List.filter_sublist
  · exact List.Sublist.refl _

/-- **The list of sources.** After any run that imports no manifest, `list_sources` lists the
sources that were registered and not dropped since, in the order they were registered; each of them
is what a call of `add_source` described, complete, and under the number of that call. -/
theorem listSources_runOps (rd : Readers) {ops : List (World × Op)}
    (hops : ∀ i ∈ ops, i.2.importsNone = true) (maxBytes : UInt64) (maxModules : Nat) :
    let start := withBudgets maxBytes maxModules
    (∀ spec, spec ∈ (runOps rd start ops).listSources ↔
      ∃ before w kind path url bucket enabled secret after,
        ops = before ++ (w, Op.addSource kind path url bucket enabled secret) :: after ∧
        spec = SourceSpec.described
          (SourceRegistry.numberedId (runOps rd start before).sources.nextId.toNat) kind path url
          bucket enabled secret ∧
        spec.Complete ∧ ∀ j ∈ after, j.2 ≠ .dropSource spec.sourceId) ∧
      (runOps rd start ops).listSources.Sublist (Run.emitted (step rd) registers start ops) := by
  intro start
  have hmem := fun spec => Ledger.mem_run_iff (step rd) listSources registers drops
    (fun s _ spec hi => mem_listSources_step rd s hi spec) hops start spec
  have hsub := Ledger.sublist_run (step rd) listSources registers
    (fun s _ hi => sublist_listSources_step rd s hi) hops start
  refine ⟨fun spec => (hmem spec).trans ?_, hsub⟩
  have hnone : spec ∉ start.listSources := List.not_mem_nil
  constructor
  · rintro (⟨h, -⟩ | ⟨before, ⟨w, op⟩, after, rfl, hadd, hkept⟩)
    · exact absurd h hnone
    · cases op with
      | addSource kind path url bucket enabled secret =>
          obtain ⟨hspec, hcomplete⟩ := SourceRegistry.newSource_eq_some.mp hadd
          exact ⟨before, w, kind, path, url, bucket, enabled, secret, after, rfl, hspec, hcomplete,
            hkept⟩
      | _ => cases hadd
  · rintro ⟨before, w, kind, path, url, bucket, enabled, secret, after, rfl, hspec, hcomplete,
      hkept⟩
    exact Or.inr ⟨before, _, after, rfl,
      SourceRegistry.newSource_eq_some.mpr ⟨hspec, hcomplete⟩, hkept⟩

/-- A server takes the place of a directory; a bucket without a name is refused. -/
theorem listSources_runOps_server :
    let w : World := ⟨StandIn.goodAndBad, 4⟩
    let ops : List (World × Op) :=
      [(w, .addSource " Dir" (some "d") none none none none),
        (w, .resolve (StandIn.token 0x11) 4),
        (w, .addSource "HTTP" none (some "u") none none none),
        (w, .addSource "s3" none none none none none), (w, .dropSource "src0"),
        (w, .restart 10 1)]
    let start := withBudgets 10 1
    (∀ spec, spec ∈ (runOps StandIn.readers start ops).listSources ↔
      ∃ before w kind path url bucket enabled secret after,
        ops = before ++ (w, Op.addSource kind path url bucket enabled secret) :: after ∧
        spec = SourceSpec.described
          (SourceRegistry.numberedId (runOps StandIn.readers start before).sources.nextId.toNat)
          kind path url bucket enabled secret ∧
        spec.Complete ∧ ∀ j ∈ after, j.2 ≠ .dropSource spec.sourceId) ∧
      (runOps StandIn.readers start ops).listSources.Sublist
        (Run.emitted (step StandIn.readers) registers start ops) :=
  listSources_runOps StandIn.readers (by decide) 10 1

end SymbolsState

end VgiSymbols
