import VgiSymbols.Core.Inspect
import VgiSymbols.State.Shape
import VgiSymbols.State.Transparency

set_option autoImplicit false

/-! # Triage agrees with resolving

`module_info` parses the file it is pointed to, `resolve` finds a file by a token. Over fixed
sources and unchanged files that share no alias the two agree in every state a session reaches
(`triage_agrees`): each identifier that `module_info` reports of a listed file, in any spelling,
resolves to that file, and a listed file that it cannot make sense of resolves to the same error.
-/

namespace VgiSymbols

open Unwind

variable {rd : Readers}

/-! ## Reported identifiers -/

/-- The identifiers a file is reported under. -/
def ModuleInfo.ids (info : ModuleInfo) : List String :=
  [info.debugId, info.buildId, info.codeId].filterMap fun id => id

theorem ModuleInfo.mem_ids {info : ModuleInfo} {t : String} :
    t ∈ info.ids ↔ info.debugId = some t ∨ info.buildId = some t ∨ info.codeId = some t := by
  simp [ids, eq_comm]

/-- The code-id of a file, if it has one, is its raw build-id. -/
theorem rawBuildId_of_codeId {data : Bytes} {i : Identity}
    (h : probeIdentity rd data = .returned (.ok i)) {c : String} (hc : i.codeId = some c) :
    i.rawBuildId = some c := by
  unfold probeIdentity at h
  split at h
  · -- a PDB has none
    obtain ⟨pdb, -, h⟩ := run_bind_eq_ok.mp h
    obtain ⟨info, -, h⟩ := run_bind_eq_ok.mp h
    obtain ⟨machine, -, h⟩ := run_bind_eq_ok.mp h
    cases h
    cases hc
  · obtain ⟨kind, -, h⟩ := run_bind_eq_ok.mp h
    obtain ⟨format, -, h⟩ := run_bind_eq_ok.mp h
    obtain ⟨obj, -, h⟩ := run_bind_eq_ok.mp h
    obtain ⟨arch, -, h⟩ := run_bind_eq_ok.mp h
    obtain ⟨imageBase, -, h⟩ := run_bind_eq_ok.mp h
    obtain ⟨⟨debugId, rawBuildId, codeId⟩, hids, h⟩ := run_bind_eq_ok.mp h
    cases h
    have hc : codeId = some c := hc
    show rawBuildId = some c
    cases format with
    | elf =>
        obtain ⟨build, -, h⟩ := run_bind_eq_ok.mp hids
        cases h
        exact hc
    | machO =>
        obtain ⟨uuid, -, h⟩ := run_bind_eq_ok.mp hids
        cases h
        exact hc
    | pe =>
        obtain ⟨cv, -, h⟩ := run_bind_eq_ok.mp hids
        cases h
        cases hc
    | dSym | pdb | breakpad => cases hids

namespace ParsedModule

variable {data : Bytes} {name : String} {limits : Limits} {m : ParsedModule}

/-- A module is indexed under every identifier it is reported under. -/
theorem canonicalToken_mem_aliases (h : parse rd data name limits = .ok m) {t : String}
    (ht : t ∈ m.info.ids) : canonicalToken t ∈ m.identity.aliases := by
  have hdebug : m.info.debugId = some m.identity.debugIdStr := m.debugId_info
  have hbuild : m.info.buildId = m.identity.rawBuildId := by cases m <;> rfl
  have hcode : m.info.codeId = m.identity.codeId := by cases m <;> rfl
  rw [Identity.mem_aliases]
  rcases ModuleInfo.mem_ids.mp ht with ht | ht | ht
  · rw [hdebug] at ht
    cases ht
    exact Or.inl (Identity.canonicalToken_debugIdStr _)
  · exact Or.inr (Or.inr ⟨t, hbuild ▸ ht, rfl⟩)
  · rw [hcode] at ht
    exact Or.inr (Or.inr ⟨t, rawBuildId_of_codeId (probeIdentity_of_parse h) ht, rfl⟩)

end ParsedModule

/-! ## Rows carry the debug-id of their module -/

theorem Chain.debugId_of_mem {module debugId : Option String} {n i : Nat}
    {rows : List ResolvedFrame} (h : Chain module debugId n i rows) {r : ResolvedFrame}
    (hr : r ∈ rows) : r.debugId = debugId := by
  obtain ⟨k, hk⟩ := List.getElem?_of_mem hr
  exact (h.get hk).2.2.2.1

theorem DwarfModule.debugId_of_mem {m : DwarfModule} {addr : UInt64} {limits : Limits}
    {rows : List ResolvedFrame} (h : m.resolve rd addr limits = .returned rows)
    {r : ResolvedFrame} (hr : r ∈ rows) : r.debugId = some m.identity.debugIdStr := by
  have hnoLine : (m.noLineFrame addr).debugId = some m.identity.debugIdStr := by
    unfold noLineFrame
    cases m.symbolFor addr <;> rfl
  cases resolved_of_returned h with
  | unprobed _ =>
      rw [List.mem_singleton.mp hr]
      exact hnoLine
  | broken _ _ _ =>
      rw [List.mem_singleton.mp hr]
      rfl
  | empty _ _ _ =>
      rw [List.mem_singleton.mp hr]
      exact hnoLine
  | frames _ _ _ _ hchain => exact hchain.debugId_of_mem hr

theorem PdbModule.debugId_of_mem {m : PdbModule} {addr : UInt64} {limits : Limits}
    {rows : List ResolvedFrame} (h : m.resolve addr limits = .returned rows) {r : ResolvedFrame}
    (hr : r ∈ rows) : r.debugId = some m.identity.debugIdStr := by
  cases resolved_of_returned h with
  | blank _ _ =>
      rw [List.mem_singleton.mp hr]
      rfl
  | frames _ _ _ _ _ hchain => exact hchain.debugId_of_mem hr

/-- Also the row that tells of a panic does. -/
theorem ParsedModule.debugId_of_mem_resolve {m : ParsedModule} {addr : UInt64} {limits : Limits}
    {r : ResolvedFrame} (hr : r ∈ m.resolve rd addr limits) : r.debugId = some m.debugId := by
  have hguard : ∀ {out : Unwind (List ResolvedFrame)},
      (∀ rows, out = .returned rows → ∀ r ∈ rows, r.debugId = some m.debugId) →
      ∀ r ∈ out.catchUnwind.getD
        [ResolvedFrame.error .corruptLineProgram (some m.identity.debugIdStr)],
      r.debugId = some m.debugId := by
    intro out h r hr
    cases out with
    | returned rows => exact h rows rfl r hr
    | panicked =>
        rw [List.mem_singleton.mp hr]
        rfl
  cases m with
  | dwarf m => exact hguard (fun rows hrows r hr => DwarfModule.debugId_of_mem hrows hr) r hr
  | pdb m => exact hguard (fun rows hrows r hr => PdbModule.debugId_of_mem hrows hr) r hr

/-! ## Triage -/

namespace SymbolsState

variable {fs : FileSystem} {sources : List SourceSpec}

/-- What `module_info` says of a listed file is what the uncached resolver answers to its names. -/
theorem answerFor_of_row (hfs : fs.Unchanged) (hdis : DisjointAliases rd fs sources)
    {row : List String × (PathBuf × Bool)} (hrow : row ∈ fileRows rd fs sources) {k : String}
    (hk : k ∈ row.1) :
    ∃ data name, fs.read row.2.1 = some data ∧ fileName row.2.1 = some name ∧
      answerFor rd fs sources k
        = .ofParse (ParsedModule.parse rd data name Limits.default) := by
  -- the first file of the name shares it with this one, so it is this one
  obtain ⟨entry, hf⟩ := Table.firstMatch_isSome hrow hk
  obtain ⟨row', hrow', hk', rfl⟩ := Table.exists_of_firstMatch hf
  have hpath : row'.2.1 = row.2.1 := by
    by_contra hne
    exact hdis row' hrow' row hrow hne k hk' hk
  obtain ⟨data, identity, name, hdata, hid, -, hname⟩ := exists_of_row hrow
  refine ⟨data, name, hfs _ _ hdata, hname, ?_⟩
  exact answerFor_eq hfs hf (hpath ▸ hdata) (hpath ▸ hname)

/-- **Triage agrees with resolving.** After any run over fixed sources, each identifier that
`module_info` reports of a listed file resolves, in any spelling, to rows with the reported
debug-id; and where it reports an error, every name the file is listed under resolves to that
error. (`module_info` takes a text, and so sees the files whose path is one.) -/
theorem triage_agrees (hlist : ListsReturn rd fs sources) (hfs : fs.Unchanged)
    (hdis : DisjointAliases rd fs sources) (maxBytes : UInt64) (maxModules : Nat)
    (nextId : UInt64) {ops : List (UInt64 × Op)} (hops : ∀ i ∈ ops, i.2.keepsSources = true)
    {names : List String} {path : String} {isGlob : Bool}
    (hrow : (names, ((path : PathBuf), isGlob)) ∈ fileRows rd fs sources) (now : UInt64)
    (addr : UInt64) :
    let s := runIn rd fs (registered maxBytes maxModules nextId sources) ops
    (∀ info, s.moduleInfoPath rd fs path = .ok info →
      ∀ t ∈ info.ids, ∀ token, canonicalToken token = canonicalToken t →
        ∃ rows, (s.resolve rd ⟨fs, now⟩ token addr).1 = .returned rows ∧ rows ≠ [] ∧
          ∀ r ∈ rows, r.debugId = info.debugId) ∧
    (∀ e, s.moduleInfoPath rd fs path = .error e →
      ∀ k ∈ names, ∀ token, canonicalToken token = k →
        (s.resolve rd ⟨fs, now⟩ token addr).1 = .returned [ResolvedFrame.error e.kind none]) := by
  intro s
  have hs : s.Consistent rd fs sources :=
    (consistent_registered maxBytes maxModules nextId).runIn hlist hfs hops
  have hresolve : ∀ token, (s.resolve rd ⟨fs, now⟩ token addr).1
      = .returned (uncachedResolve rd fs sources token addr) := fun token =>
    hs.resolve_eq hlist hfs (coherent_of_disjointAliases hfs hdis _) now token addr
  obtain ⟨data, identity, name, hmap, hid, haliases, hname⟩ := exists_of_row hrow
  have hread : fs.read path = some data := hfs _ _ hmap
  have hinfo : s.moduleInfoPath rd fs path = inspect rd data name Limits.default := by
    rw [moduleInfoPath, hread, hs.limits_eq, hname]
    rfl
  have hanswer : ∀ k ∈ names, answerFor rd fs sources k
      = .ofParse (ParsedModule.parse rd data name Limits.default) := by
    intro k hk
    obtain ⟨data', name', hread', hname', hanswer⟩ := answerFor_of_row hfs hdis hrow hk
    rw [hread] at hread'
    cases hread'
    rw [hname] at hname'
    cases hname'
    exact hanswer
  rw [hinfo, inspect]
  constructor
  · intro info hok t ht token htoken
    cases hp : ParsedModule.parse rd data name Limits.default with
    | error e =>
        rw [hp] at hok
        cases hok
    | ok m =>
        obtain rfl : m.info = info := by
          rw [hp] at hok
          cases hok
          rfl
        have hk : canonicalToken t ∈ names := by
          show _ ∈ (names, ((path : PathBuf), isGlob)).1
          rw [aliases_of_row hrow hmap (ParsedModule.probeIdentity_of_parse hp)]
          exact ParsedModule.canonicalToken_mem_aliases hp ht
        have hrows : uncachedResolve rd fs sources token addr
            = m.resolve rd addr Limits.default := by
          rw [uncachedResolve, htoken, hanswer _ hk, hp]
          rfl
        refine ⟨_, hresolve token, ?_, fun r hr => ?_⟩
        · rw [hrows]
          exact (m.wellShaped_resolve addr (by decide)).nonempty
        · rw [hrows] at hr
          rw [ParsedModule.debugId_of_mem_resolve hr, m.debugId_info]
  · intro e herr k hk token htoken
    cases hp : ParsedModule.parse rd data name Limits.default with
    | ok m =>
        rw [hp] at herr
        cases herr
    | error e' =>
        obtain rfl : e' = e := by
          rw [hp] at herr
          cases herr
          rfl
        rw [hresolve, uncachedResolve, htoken, hanswer k hk, hp]
        rfl

/-- The good image, after a run. -/
theorem triage_agrees_goodAndBad :
    let names := [StandIn.token 0x11, StandIn.token 0x11 ++ "0"]
    let s := runIn StandIn.readers StandIn.goodAndBad
      (registered 10 1 1 [StandIn.dirSource "src0" "d"])
      [(0, .resolve (StandIn.token 0x22) 4), (1, .cacheEvict none), (2, .restart 4 4)]
    (∀ info, s.moduleInfoPath StandIn.readers StandIn.goodAndBad "d/a" = .ok info →
      ∀ t ∈ info.ids, ∀ token, canonicalToken token = canonicalToken t →
        ∃ rows, (s.resolve StandIn.readers ⟨StandIn.goodAndBad, 4⟩ token 4).1 = .returned rows ∧
          rows ≠ [] ∧ ∀ r ∈ rows, r.debugId = info.debugId) ∧
    (∀ e, s.moduleInfoPath StandIn.readers StandIn.goodAndBad "d/a" = .error e →
      ∀ k ∈ names, ∀ token, canonicalToken token = k →
        (s.resolve StandIn.readers ⟨StandIn.goodAndBad, 4⟩ token 4).1
          = .returned [ResolvedFrame.error e.kind none]) := by
  intro names
  have hrow : (names, (("d/a" : PathBuf), false)) ∈
      fileRows StandIn.readers StandIn.goodAndBad [StandIn.dirSource "src0" "d"] := by
    decide +kernel
  exact triage_agrees (listsReturn_of_total StandIn.readers_total _)
    (StandIn.directory_unchanged _ _) StandIn.disjointAliases_goodAndBad 10 1 1 (by decide) hrow 4 4

end SymbolsState

end VgiSymbols
