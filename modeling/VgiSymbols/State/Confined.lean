import VgiSymbols.Source.Confined
import VgiSymbols.Source.Specs
import VgiSymbols.State.Lookup

set_option autoImplicit false

/-! # Confinement

Whatever is done with the worker, the files outside the registered directories and globs have no
influence on its replies and its state: two runs of the same operations on file systems that agree
on a closed scope are the same, if all registered local sources start in the scope
(`confined_run`).
-/

namespace VgiSymbols

namespace SymbolsState

variable {rd : Readers} {scope : Scope}

/-- The local sources that the operation registers start in the scope. -/
def Op.InScope (scope : Scope) : Op → Prop
  | .addSource kind path url bucket enabled secret =>
      let s := SourceSpec.described "" kind path url bucket enabled secret
      s.isLocal = true → s.InScope scope
  | .importManifest manifest => ∀ s ∈ manifest.sources, s.isLocal = true → s.InScope scope
  | _ => True

/-- The same operation at the same time, on file systems that agree on a closed scope. -/
structure SameIn (scope : Scope) (i i' : World × Op) : Prop where
  op : i.2 = i'.2
  now : i.1.now = i'.1.now
  closed : scope.Closed i.1.fs
  agree : i.1.fs.AgreeOn scope i'.1.fs
  inScope : i.2.InScope scope

/-! ## Registries -/

theorem inScope_described {sourceId : String} (sourceId' : String) {kind : String}
    {path url bucket : Option String} {enabled : Option Bool} {secret : Option String}
    (h : (SourceSpec.described sourceId kind path url bucket enabled secret).InScope scope) :
    (SourceSpec.described sourceId' kind path url bucket enabled secret).InScope scope := h

theorem confined_add {reg : SourceRegistry} (h : reg.Confined scope) {kind : String}
    {path url bucket : Option String} {enabled : Option Bool} {secret : Option String}
    (hop : (Op.addSource kind path url bucket enabled secret).InScope scope) :
    (reg.add kind path url bucket enabled secret).2.Confined scope := by
  cases hmissing : (SourceSpec.described (SourceRegistry.numberedId reg.nextId.toNat) kind path url
    bucket enabled secret).missing with
  | some e =>
      rw [SourceRegistry.add_of_missing hmissing]
      exact h
  | none =>
      rw [SourceRegistry.add_of_complete hmissing]
      refine ⟨fun s hs hlocal => ?_, h.index⟩
      rcases List.mem_append.mp hs with hs | hs
      · exact h.sources s hs hlocal
      · rw [List.mem_singleton.mp hs] at hlocal ⊢
        rw [SourceSpec.isLocal_described _ ""] at hlocal
        exact inScope_described _ (hop hlocal)

theorem confined_dropSource {reg : SourceRegistry} (h : reg.Confined scope) (sourceId : String) :
    (reg.dropSource sourceId).2.Confined scope := by
  have hsources : ∀ s ∈ reg.sources.filter fun s => s.sourceId ≠ sourceId,
      s.isLocal = true → s.InScope scope :=
    fun s hs => h.sources s (List.mem_filter.mp hs).1
  unfold SourceRegistry.dropSource
  simp only
  split
  · exact ⟨hsources, fun _ _ hentry => by cases hentry⟩
  · exact ⟨hsources, h.index⟩

theorem confined_restore (reg : SourceRegistry) {specs : List SourceSpec}
    (h : ∀ s ∈ specs, s.isLocal = true → s.InScope scope) :
    (reg.restore specs).Confined scope :=
  ⟨h, fun _ _ hentry => by cases hentry⟩

/-! ## Lookups -/

section Lookup

variable {s : SymbolsState} {fs fs' : FileSystem} {token : String}

theorem ensureResident_agree
    (h : s.sources.locate rd fs token = s.sources.locate rd fs' token) (now : UInt64) :
    s.ensureResident rd ⟨fs, now⟩ token = s.ensureResident rd ⟨fs', now⟩ token := by
  unfold ensureResident
  rw [h]

theorem lookup_agree (h : s.sources.locate rd fs token = s.sources.locate rd fs' token)
    (now : UInt64) : s.lookup rd ⟨fs, now⟩ token = s.lookup rd ⟨fs', now⟩ token := by
  unfold lookup
  rw [ensureResident_agree h]
  rfl

/-- A lookup sees the scope alone. -/
theorem lookup_confined (hs : s.sources.Confined scope) (hclosed : scope.Closed fs)
    (hagree : fs.AgreeOn scope fs') (rd : Readers) (now : UInt64) (token : String) :
    s.lookup rd ⟨fs, now⟩ token = s.lookup rd ⟨fs', now⟩ token ∧
      (s.lookup rd ⟨fs, now⟩ token).2.sources.Confined scope := by
  have hlocate := SourceRegistry.locate_agree rd hclosed hagree hs token
  refine ⟨lookup_agree hlocate now, ?_⟩
  rcases sources_looked (looked_lookup rd ⟨fs, now⟩ s token) with heq | heq
  · rw [heq]
    exact hs
  · rw [heq]
    exact (SourceRegistry.ensureIndexed_agree rd hclosed hagree hs).2

end Lookup

/-! ## Runs -/

theorem step_addSource (rd : Readers) (s : SymbolsState) (w : World) (kind : String)
    (path url bucket : Option String) (enabled : Option Bool) (secret : Option String) :
    step rd s (w, .addSource kind path url bucket enabled secret)
      = (s.addSource kind path url bucket enabled secret).2 := rfl

/-- Only lookups look at files. -/
theorem step_of_not_lookup {op : Op} (h : op.token? = none) (rd : Readers) (s : SymbolsState)
    (w w' : World) :
    reply rd s (w, op) = reply rd s (w', op) ∧ step rd s (w, op) = step rd s (w', op) := by
  cases op with
  | resolve token addr => cases h
  | functionName token addr => cases h
  | _ => exact ⟨rfl, rfl⟩

/-- **The step lemma.** -/
theorem confined_step {s : SymbolsState} (hs : s.sources.Confined scope) {i i' : World × Op}
    (h : SameIn scope i i') :
    reply rd s i = reply rd s i' ∧ step rd s i = step rd s i' ∧
      (step rd s i).sources.Confined scope := by
  obtain ⟨⟨fs, now⟩, op⟩ := i
  obtain ⟨⟨fs', now'⟩, op'⟩ := i'
  obtain ⟨hop, hnow, hclosed, hagree, hin⟩ := h
  obtain rfl : op = op' := hop
  obtain rfl : now = now' := hnow
  have hother (hop : op.token? = none)
      (hnext : (step rd s (⟨fs, now⟩, op)).sources.Confined scope) :
      reply rd s (⟨fs, now⟩, op) = reply rd s (⟨fs', now⟩, op) ∧
        step rd s (⟨fs, now⟩, op) = step rd s (⟨fs', now⟩, op) ∧
        (step rd s (⟨fs, now⟩, op)).sources.Confined scope := by
    obtain ⟨hreply, hstep⟩ := step_of_not_lookup hop rd s ⟨fs, now⟩ ⟨fs', now⟩
    exact ⟨hreply, hstep, hnext⟩
  cases op with
  | addSource kind path url bucket enabled secret =>
      apply hother rfl
      rw [step_addSource, sources_addSource]
      exact confined_add hs hin
  | dropSource sourceId => exact hother rfl (confined_dropSource hs sourceId)
  | resolve token addr =>
      obtain ⟨hlookup, hnext⟩ := lookup_confined hs hclosed hagree rd now token
      refine ⟨?_, ?_, ?_⟩
      · show Reply.frames (s.resolve rd ⟨fs, now⟩ token addr).1
          = Reply.frames (s.resolve rd ⟨fs', now⟩ token addr).1
        rw [resolve_eq_lookup, resolve_eq_lookup, hlookup]
      · rw [step_resolve, step_resolve, hlookup]
      · rwa [step_resolve]
  | functionName token addr =>
      obtain ⟨hlookup, hnext⟩ := lookup_confined hs hclosed hagree rd now token
      refine ⟨?_, ?_, ?_⟩
      · show Reply.name (s.functionName rd ⟨fs, now⟩ token addr).1
          = Reply.name (s.functionName rd ⟨fs', now⟩ token addr).1
        rw [functionName_eq_lookup, functionName_eq_lookup, hlookup]
      · rw [step_functionName, step_functionName, hlookup]
      · rwa [step_functionName]
  | cacheEvict token => exact hother rfl hs
  | importManifest manifest => exact hother rfl (confined_restore s.sources hin)
  | restart maxBytes maxModules => exact hother rfl (confined_restore SourceRegistry.new hs.sources)

/-- **Confinement.** What lies outside the scope of the registered sources has no influence: two
runs of the same operations, on file systems that agree on the scope, give the same replies and
lead to the same state. -/
theorem confined_run (rd : Readers) {scope : Scope} {ops ops' : List (World × Op)}
    (hops : List.Forall₂ (SameIn scope) ops ops') (maxBytes : UInt64) (maxModules : Nat) :
    Run.trace (step rd) (reply rd) (withBudgets maxBytes maxModules) ops
        = Run.trace (step rd) (reply rd) (withBudgets maxBytes maxModules) ops' ∧
      runOps rd (withBudgets maxBytes maxModules) ops
        = runOps rd (withBudgets maxBytes maxModules) ops' := by
  have hstart : (withBudgets maxBytes maxModules).sources.Confined scope :=
    ⟨fun _ h => (by cases h), fun _ _ h => by cases h⟩
  let R (s s' : SymbolsState) : Prop := s = s' ∧ s.sources.Confined scope
  have hstep : ∀ s s' (i i' : World × Op), R s s' → SameIn scope i i' → True →
      reply rd s i = reply rd s' i' ∧ R (step rd s i) (step rd s' i') := by
    rintro s _ i i' ⟨rfl, hs⟩ hi -
    exact confined_step hs hi
  have hrun := Run.trace_eq hstep ⟨rfl, hstart⟩ hops
    (Run.MeetsAlong.of_forall (fun _ _ => trivial) _ _)
  exact ⟨hrun.1, hrun.2.1⟩

end SymbolsState

namespace StandIn

/-- The directory of `goodAndBad` and its files. -/
def directoryScope : Scope := ⟨{("d" : PathBuf), ("d/a" : PathBuf), ("d/b" : PathBuf)}, ∅⟩

/-- The files of `goodAndBad`, and one outside of its directory. -/
def besides : FileSystem :=
  { goodAndBad with
    isFile := fun p => p == "e" || goodAndBad.isFile p
    read := fun p => if p = "e" then some [1] else goodAndBad.read p }

theorem closed_directoryScope : directoryScope.Closed goodAndBad where
  listed dir _ entries hread entry hentry _ := by
    have hfiles : ∀ entry ∈ [DirEntry.mk "d/a" (some .file), DirEntry.mk "d/b" (some .file)],
        entry.path ∈ directoryScope.paths := by
      simp [directoryScope]
    by_cases hdir : dir = "d"
    · rw [hdir] at hread
      cases hread
      exact hfiles entry hentry
    · have hnone : goodAndBad.readDir dir = none := if_neg hdir
      rw [hnone] at hread
      cases hread
  matched _ h := absurd h (Set.notMem_empty _)

theorem agreeOn_directoryScope : goodAndBad.AgreeOn directoryScope besides where
  readDir _ _ := rfl
  isFile := by simp [directoryScope, besides]
  isDir _ _ := rfl
  mapFile _ _ := rfl
  read := by simp [directoryScope, besides]
  glob _ _ := rfl

end StandIn

/-- A file outside of the registered directory is not seen. -/
theorem SymbolsState.confined_run_besides :
    let ops (fs : FileSystem) : List (World × Op) :=
      [(⟨fs, 0⟩, .addSource "Dir" (some "d") none none none none),
        (⟨fs, 1⟩, .resolve (StandIn.token 0x11) 4), (⟨fs, 2⟩, .functionName (StandIn.token 0x33) 4)]
    Run.trace (step StandIn.readers) (reply StandIn.readers) (withBudgets 10 1)
        (ops StandIn.goodAndBad)
      = Run.trace (step StandIn.readers) (reply StandIn.readers) (withBudgets 10 1)
          (ops StandIn.besides) ∧
    runOps StandIn.readers (withBudgets 10 1) (ops StandIn.goodAndBad)
      = runOps StandIn.readers (withBudgets 10 1) (ops StandIn.besides) := by
  have hadd : (Op.addSource "Dir" (some "d") none none none none).InScope
      StandIn.directoryScope := by
    rintro - p hp
    cases hp
    exact ⟨fun h => absurd h (by decide), fun _ => by simp [StandIn.directoryScope]⟩
  have hsame (now : UInt64) (op : Op) (hop : op.InScope StandIn.directoryScope) :
      SameIn StandIn.directoryScope (⟨StandIn.goodAndBad, now⟩, op) (⟨StandIn.besides, now⟩, op) :=
    ⟨rfl, rfl, StandIn.closed_directoryScope, StandIn.agreeOn_directoryScope, hop⟩
  exact confined_run StandIn.readers
    (.cons (hsame 0 _ hadd) (.cons (hsame 1 (.resolve _ _) trivial)
      (.cons (hsame 2 (.functionName _ _) trivial) .nil))) 10 1

end VgiSymbols
