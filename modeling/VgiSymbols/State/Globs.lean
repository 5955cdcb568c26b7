import VgiSymbols.Source.Globs
import VgiSymbols.State.Alike

set_option autoImplicit false

/-! # One glob or several

A glob source with groups of alternatives answers like one source for each of its expanded
patterns, registered in the order of the expansion (`emitted_glob`). The registries differ in how
the sources are cut; what they have in common is the index and the rows that are still to be
indexed (`SameRows`).
-/

namespace VgiSymbols

open Unwind

/-- The registries have the same index, and in the worlds of `P` the same rows are pending. -/
def SameRows (rd : Readers) (P : World → Prop) (reg reg' : SourceRegistry) : Prop :=
  reg.index = reg'.index ∧
    ∀ w, P w → fileRows rd w.fs reg.pending = fileRows rd w.fs reg'.pending

namespace SymbolsState

variable {rd : Readers} {P : World → Prop}

/-- Where no probe unwinds, registries with the same rows answer alike. -/
theorem answersAlike_sameRows (hP : ∀ w, P w → ∀ path, (aliasesOf rd w.fs path).Returns) :
    AnswersAlike rd P (SameRows rd P) where
  locate w reg reg' token hw hreg _ _ := by
    obtain ⟨hindex, hrows⟩ := hreg
    have hlist (l : List SourceSpec) : ListsReturn rd w.fs l := fun s _ _ =>
      returns_list_iff.mpr fun path _ => hP w hw path
    rw [SourceRegistry.locate_of_returns (hlist _), SourceRegistry.locate_of_returns (hlist _),
      fileFor, fileFor, hindex, hrows w hw]
    refine ⟨rfl, ?_, fun w' _ => ?_⟩
    · rw [SourceRegistry.index_ensureIndexed (hlist _),
        SourceRegistry.index_ensureIndexed (hlist _), hindex, hrows w hw]
    · rw [SourceRegistry.pending_ensureIndexed (hlist _),
        SourceRegistry.pending_ensureIndexed (hlist _)]
  add reg reg' kind path url bucket enabled secret hreg hunique hunique' := by
    obtain ⟨hindex, hrows⟩ := hreg
    have hadd := SourceRegistry.add_anonymous reg reg' kind path url bucket enabled secret
    rcases hadd with ⟨heq, heq'⟩ | ⟨s, s', hid, hid', hsame, heq, heq'⟩
    · rw [heq, heq']
      exact ⟨hindex, hrows⟩
    have hfresh : s.sourceId ∉ reg.indexed := hid ▸ hunique.notMem_indexed
    have hfresh' : s'.sourceId ∉ reg'.indexed := hid' ▸ hunique'.notMem_indexed
    rw [heq, heq']
    refine ⟨hindex, fun w hw => ?_⟩
    rw [SourceRegistry.fileRows_pending_append hfresh,
      SourceRegistry.fileRows_pending_append hfresh', hrows w hw,
      SourceRegistry.fileRows_eq_of_anonymous hsame]

/-! ## Registering globs -/

/-- From `s` to `s'` some sources were registered, which list `rows`. -/
structure Grown (rd : Readers) (n : Nat)
    (rows : FileSystem → List (List String × (PathBuf × Bool))) (s s' : SymbolsState) : Prop where
  cache : s'.cache = s.cache
  limits : s'.limits = s.limits
  index : s'.sources.index = s.sources.index
  pending : ∀ fs, fileRows rd fs s'.sources.pending = fileRows rd fs s.sources.pending ++ rows fs
  roomy : Roomy n s'

section Register

variable (rd) {kind : String} (hkind : asciiLower (trim kind) = "glob") (url bucket : Option String)
  (enabled : Option Bool) (secret : Option String) (w : World)
include hkind

theorem grown_addSource {n : Nat} {s : SymbolsState} (h : Roomy (n + 1) s) {q : String}
    (hq : q ≠ "") :
    Grown rd n (fun fs => fileRows rd fs [globSource (enabled.getD true) q]) s
      (step rd s (w, .addSource kind (some q) url bucket enabled secret)) := by
  show Grown rd n _ s (s.addSource kind (some q) url bucket enabled secret).2
  obtain ⟨spec, hid, hspec, hadd⟩ :=
    SourceRegistry.add_glob s.sources hkind hq url bucket enabled secret
  have hfresh : spec.sourceId ∉ s.sources.indexed := hid ▸ h.unique.notMem_indexed
  refine ⟨cache_addSource .., limits_addSource .., ?_, fun fs => ?_,
    h.addSource kind (some q) url bucket enabled secret⟩
  · rw [sources_addSource, hadd]
  · rw [sources_addSource, hadd, SourceRegistry.fileRows_pending_append hfresh, ← hspec,
      SourceRegistry.fileRows_anonymous]

/-- One source for each of some patterns. -/
theorem grown_run {n : Nat} {s : SymbolsState} {patterns : List String}
    (h : Roomy (n + patterns.length) s) (hne : ∀ q ∈ patterns, q ≠ "") :
    Grown rd n
      (fun fs => patterns.flatMap fun q => fileRows rd fs [globSource (enabled.getD true) q]) s
      (Run.run (step rd) s (patterns.map fun q =>
        (w, Op.addSource kind (some q) url bucket enabled secret))) := by
  induction patterns generalizing s with
  | nil =>
      have hrows (fs : FileSystem) : fileRows rd fs s.sources.pending
          = fileRows rd fs s.sources.pending ++ [] := (List.append_nil _).symm
      exact ⟨rfl, rfl, rfl, hrows, h⟩
  | cons q patterns ih =>
      have h : Roomy (n + patterns.length + 1) s := h
      have hone := grown_addSource rd hkind url bucket enabled secret w h (hne q (by simp))
      have hrest := ih hone.roomy fun q' hq' => hne q' (by simp [hq'])
      rw [List.map_cons, Run.run_cons]
      refine ⟨hrest.cache.trans hone.cache, hrest.limits.trans hone.limits,
        hrest.index.trans hone.index, fun fs => ?_, hrest.roomy⟩
      rw [hrest.pending, hone.pending, List.flatMap_cons, List.append_assoc]

end Register

/-! ## Runs -/

/-- Registered on the two sides, sources that list the same make the states alike. -/
theorem Grown.alike {n : Nat} {rows rows' : FileSystem → List (List String × (PathBuf × Bool))}
    {s s₁ s₂ : SymbolsState} (h₁ : Grown rd n rows s s₁) (h₂ : Grown rd n rows' s s₂)
    (hrows : ∀ w : World, P w → rows w.fs = rows' w.fs) : Alike (SameRows rd P) n s₁ s₂ where
  cache := h₁.cache.trans h₂.cache.symm
  limits := h₁.limits.trans h₂.limits.symm
  sources := ⟨h₁.index.trans h₂.index.symm, fun w hw => by
    rw [h₁.pending, h₂.pending, hrows w hw]⟩
  roomy := h₁.roomy
  roomy' := h₂.roomy

/-- **One glob or several.** A glob with groups of alternatives, none inside another, can be
registered as one source for each of its expanded patterns, in their order: no lookup and no
eviction of the run shows a difference, if in the worlds afterwards no probe unwinds and the matches
do not reach the cap on indexed files. -/
theorem emitted_glob (rd : Readers) {p : List Segment} {pattern : String}
    (hp : String.ofList (Segment.render p) = pattern) {kind : String}
    (hkind : asciiLower (trim kind) = "glob") (url bucket : Option String) (enabled : Option Bool)
    (secret : Option String) (w : World) {before after : List (World × Op)}
    (hbefore : ∀ i ∈ before, i.2.dropsNone = true) (hafter : ∀ i ∈ after, i.2.dropsNone = true)
    (hne : ∀ q ∈ expandBraces pattern, q ≠ "") (hfits : ∀ i ∈ after, i.1.fs.Fits rd pattern)
    (hlen : before.length + (expandBraces pattern).length + after.length + 1 < 2 ^ 64)
    (maxBytes : UInt64) (maxModules : Nat) :
    let register (q : String) : World × Op :=
      (w, .addSource kind (some q) url bucket enabled secret)
    Run.emitted (step rd) (shown rd) (withBudgets maxBytes maxModules)
        (before ++ register pattern :: after)
      = Run.emitted (step rd) (shown rd) (withBudgets maxBytes maxModules)
          (before ++ (expandBraces pattern).map register ++ after) := by
  intro register
  -- up to the registration the two runs are one
  have hstart : Roomy (after.length + (expandBraces pattern).length + 1)
      (Run.run (step rd) (withBudgets maxBytes maxModules) before) :=
    (roomy_withBudgets (by omega) maxBytes maxModules).runOps fun i hi =>
      Op.isSession_of_dropsNone (hbefore i hi)
  have hempty : pattern ≠ "" := by
    rintro rfl
    exact hne "" (by rw [expandBraces_of_noBraces ⟨List.not_mem_nil, List.not_mem_nil⟩]; simp) rfl
  have hone := grown_addSource rd hkind url bucket enabled secret w (n := after.length)
    ⟨hstart.unique, by have hroom := hstart.room; omega⟩ hempty
  have hmany := grown_run rd hkind url bucket enabled secret w hstart.of_succ hne
  have hrows : ∀ w : World, w.fs.Fits rd pattern →
      fileRows rd w.fs [globSource (enabled.getD true) pattern] =
        (expandBraces pattern).flatMap fun q =>
          fileRows rd w.fs [globSource (enabled.getD true) q] := by
    intro w hw
    rw [← hp] at hw ⊢
    exact rows_glob hw _
  have halike := hone.alike hmany hrows
  have hfrom : AnswersAlike rd (fun w => w.fs.Fits rd pattern) _ :=
    answersAlike_sameRows fun _ hw => hw.returns
  rw [← Nat.zero_add after.length] at halike
  have hend := halike.run hfrom fun i hi => ⟨hafter i hi, hfits i hi⟩
  have hsilent (s : SymbolsState) :
      Run.emitted (step rd) (shown rd) s ((expandBraces pattern).map register) = [] := by
    refine Run.emitted_eq_nil (fun i hi s => ?_) s
    obtain ⟨q, -, rfl⟩ := List.mem_map.mp hi
    exact shown_of_not_work rfl
  rw [Run.emitted_append, Run.emitted, shown_of_not_work rfl, List.append_assoc,
    Run.emitted_append, Run.emitted_append, hsilent]
  exact congrArg _ hend.1

end SymbolsState

namespace StandIn

/-- The two files of `goodAndBad`, where a pattern matches the file it names. -/
def globbed : FileSystem :=
  { goodAndBad with glob := fun q => some (if goodAndBad.isFile q then [q] else []) }

/-- The pattern of the two files. -/
def bothFiles : List Segment :=
  [.literal ['d', '/'] (by simp [NoBraces]),
    .group [['a'], ['b']] (by decide) (by simp [NoBraces])]

theorem expandBraces_bothFiles : expandBraces "d/{a,b}" = ["d/a", "d/b"] := by
  rw [show "d/{a,b}" = String.ofList (Segment.render bothFiles) by decide, expandBraces_render]
  decide

theorem fits_globbed : globbed.Fits readers "d/{a,b}" where
  returns := aliasesOf_returns readers_total
  cap := by
    rw [expandBraces_bothFiles]
    decide

end StandIn

/-- The two files of a directory, by one pattern and by two. -/
theorem SymbolsState.emitted_glob_bothFiles :
    let w : World := ⟨StandIn.globbed, 4⟩
    let register (q : String) : World × Op := (w, .addSource "Glob" (some q) none none none none)
    let lookups : List (World × Op) :=
      [(w, .resolve (StandIn.token 0x11) 4), (w, .resolve (StandIn.token 0x22) 4)]
    Run.emitted (step StandIn.readers) (shown StandIn.readers) (withBudgets 10 1)
        ([] ++ register "d/{a,b}" :: lookups)
      = Run.emitted (step StandIn.readers) (shown StandIn.readers) (withBudgets 10 1)
          ([] ++ (expandBraces "d/{a,b}").map register ++ lookups) :=
  emitted_glob StandIn.readers (p := StandIn.bothFiles) (by decide) (by decide) none none none none
    _ (by decide) (by decide) (by rw [StandIn.expandBraces_bothFiles]; decide)
    (by simp [StandIn.fits_globbed]) (by rw [StandIn.expandBraces_bothFiles]; decide) 10 1

end VgiSymbols
