import VgiSymbols.State.Lookup

set_option autoImplicit false

/-! # The origin of an evicted module

The entry of a module that is no longer resident says which file it was located at. The next
lookup of its debug-id does not read the entry: it goes through the index of the sources like any
other. `answersFromOrigin_iff` says exactly when it ends at the same file all the same.
-/

namespace VgiSymbols

namespace SymbolsState

/-- The entry of the module `d` names the path `p`, which still holds its bytes, and the module is
no longer resident. -/
structure LeftBehind (rd : Readers) (w : World) (s : SymbolsState) (d p : String) : Prop where
  entry : (s.cache.entries.lookup d).bind (fun e => e.origin.bind Origin.path) = some p
  file : ∃ data name m, w.fs.read p = some data ∧
    ParsedModule.parse rd data name s.limits = .ok m ∧ m.debugId = d
  evicted : s.cache.resident.contains d = false

/-- The next lookup of `d` parses the file at `p` and answers from it. -/
def AnswersFromOrigin (rd : Readers) (w : World) (s : SymbolsState) (d p : String) : Prop :=
  ∃ located m, s.parseAttempt rd w d = some located ∧
    s.sources.indexedFile rd w.fs d = some (p : PathBuf) ∧
    ParsedModule.parse rd located.data located.name s.limits = .ok m ∧
    ∀ addr, (s.resolve rd w d addr).1 = .returned (m.resolve rd addr s.limits)

/-- The token `d` is neither answered from the cache nor a known miss, the sources that are still
to be indexed can be listed, and the file they or the index have for `d` is the one at `p`. -/
def FoundAgain (rd : Readers) (w : World) (s : SymbolsState) (d p : String) : Prop :=
  s.cache.isResident d = false ∧ s.cache.isKnownMiss d = false ∧
    ListsReturn rd w.fs s.sources.pending ∧
    ((s.sources.index.lookup d).or (fileFor rd w.fs s.sources.pending d)).map Prod.fst
      = some (p : PathBuf)

section Origin

variable {rd : Readers} {w : World} {s : SymbolsState} {d p : String}

/-- A module that is parsed under one of its own tokens answers. -/
theorem resolve_parseAttempt {token : String} {located : Located} {m : ParsedModule}
    (h : s.parseAttempt rd w token = some located)
    (hp : ParsedModule.parse rd located.data located.name s.limits = .ok m)
    (htoken : canonicalToken token ∈ m.identity.aliases) (addr : UInt64) :
    (s.resolve rd w token addr).1 = .returned (m.resolve rd addr s.limits) := by
  have hlooked := looked_lookup rd w s token
  rw [h] at hlooked
  rw [resolve_eq_lookup]
  generalize (s.lookup rd w token).2 = s' at hlooked
  generalize (s.lookup rd w token).1 = out at hlooked
  cases hlooked with
  | failed hr hm hl hp' =>
      rw [hp] at hp'
      cases hp'
  | parsed hr hm hl hp' hr' =>
      rw [hp] at hp'
      cases hp'
      rw [SymbolCache.reached_insert_of_mem htoken] at hr'
      cases hr'
      rfl
  | lost hr hm hl hp' hr' =>
      rw [hp] at hp'
      cases hp'
      rw [SymbolCache.reached_insert_of_mem htoken] at hr'
      cases hr'

/-- The lookup hands a file to the parser that is at `p` exactly when the module is found
again. -/
theorem parseAttempt_iff (hd : canonicalToken d = d) (hread : ∃ data, w.fs.read p = some data) :
    (∃ located, s.parseAttempt rd w d = some located ∧
        s.sources.indexedFile rd w.fs d = some (p : PathBuf)) ↔
      FoundAgain rd w s d p := by
  constructor
  · rintro ⟨located, hattempt, hpath⟩
    obtain ⟨hres, hmiss, hlocate⟩ := parseAttempt_eq_some.mp hattempt
    have hlist := SourceRegistry.locate_returns_iff.mp ⟨_, hlocate⟩
    rw [SourceRegistry.indexedFile_of_returns hlist, hd] at hpath
    exact ⟨hres, hmiss, hlist, hpath⟩
  · rintro ⟨hres, hmiss, hlist, hfile⟩
    obtain ⟨entry, hentry, hpath⟩ := Option.map_eq_some_iff.mp hfile
    obtain ⟨data, hdata⟩ := hread
    rw [← hpath] at hdata
    have hlocated : ∃ located, SourceRegistry.readLocated w.fs d entry = some located := by
      rw [SourceRegistry.readLocated, hdata]
      exact ⟨_, rfl⟩
    obtain ⟨located, hlocated⟩ := hlocated
    refine ⟨located, parseAttempt_eq_some.mpr ⟨hres, hmiss, ?_⟩, ?_⟩
    · rw [SourceRegistry.locate_of_returns hlist, hd, hentry, Option.bind_some, hlocated]
    · rw [SourceRegistry.indexedFile_of_returns hlist, hd, hfile]

/-- **Exactly when an evicted module is parsed from its origin again.** -/
theorem answersFromOrigin_iff (h : LeftBehind rd w s d p) :
    AnswersFromOrigin rd w s d p ↔ FoundAgain rd w s d p := by
  obtain ⟨data, name, m, hread, hparse, hid⟩ := h.file
  have hd : canonicalToken d = d := by
    rw [← hid]
    exact Identity.canonicalToken_debugIdStr m.identity
  rw [← parseAttempt_iff hd ⟨data, hread⟩]
  constructor
  · rintro ⟨located, -, hattempt, hpath, -, -⟩
    exact ⟨located, hattempt, hpath⟩
  · rintro ⟨located, hattempt, hpath⟩
    -- The file at the path still parses to a module of this debug-id.
    obtain ⟨p', hpath', hread', -⟩ := indexedFile_of_parseAttempt hattempt
    have hdata : located.data = data := by
      rw [hpath] at hpath'
      cases hpath'
      exact Option.some.inj (hread'.symm.trans hread)
    obtain ⟨m', hm', hid'⟩ := ParsedModule.parse_name hparse located.name
    rw [← hdata] at hm'
    refine ⟨located, m', hattempt, hpath, hm', resolve_parseAttempt hattempt hm' ?_⟩
    rw [hd, ← hid, ← hid']
    exact Identity.debugIdStr_mem_aliases m'.identity

end Origin

theorem exists_of_toOption {r : SymResult ParsedModule} {d : String}
    (h : r.toOption.map ParsedModule.debugId = some d) : ∃ m, r = .ok m ∧ m.debugId = d := by
  cases r with
  | error e => cases h
  | ok m => exact ⟨m, rfl, Option.some.inj h⟩

/-- A module is resolved and evicted, and its source is still there. -/
theorem answersFromOrigin_goodAndBad :
    AnswersFromOrigin StandIn.readers ⟨StandIn.goodAndBad, 3⟩
      (runOps StandIn.readers (withBudgets 4096 4)
        [(⟨StandIn.goodAndBad, 0⟩, .addSource "dir" (some "d") none none none none),
          (⟨StandIn.goodAndBad, 1⟩, .resolve (StandIn.token 0x11) 4),
          (⟨StandIn.goodAndBad, 2⟩, .cacheEvict none)])
      "111111111111111111111111111111110" "d/a" := by
  generalize hs : runOps StandIn.readers _ _ = s
  have hstate : (s.cache.entries.lookup "111111111111111111111111111111110").bind
        (fun e => e.origin.bind Origin.path) = some "d/a" ∧
      s.cache.resident.contains "111111111111111111111111111111110" = false ∧
      s.cache.isResident "111111111111111111111111111111110" = false ∧
      s.cache.isKnownMiss "111111111111111111111111111111110" = false ∧
      ((s.sources.index.lookup "111111111111111111111111111111110").or
        (fileFor StandIn.readers StandIn.goodAndBad s.sources.pending
          "111111111111111111111111111111110")).map Prod.fst = some ("d/a" : PathBuf) := by
    rw [← hs]
    decide +kernel
  obtain ⟨hentry, hevicted, hresident, hmiss, hfile⟩ := hstate
  have hlimits : s.limits = Limits.default := by
    rw [← hs]
    exact limits_runOps StandIn.readers 4096 4 _
  have hparse : (ParsedModule.parse StandIn.readers (1 :: StandIn.buildId 0x11) "a"
      Limits.default).toOption.map ParsedModule.debugId
        = some "111111111111111111111111111111110" := by decide +kernel
  obtain ⟨m, hm, hid⟩ := exists_of_toOption hparse
  exact (answersFromOrigin_iff
    ⟨hentry, ⟨1 :: StandIn.buildId 0x11, "a", m, by decide +kernel, by rw [hlimits, hm], hid⟩,
      hevicted⟩).mpr
    ⟨hresident, hmiss, listsReturn_of_total StandIn.readers_total _, hfile⟩

/-- A module is located, and a file with the same debug-id appears in its directory. After a cold
start the debug-id is answered from that file. -/
theorem not_answersFromOrigin_sharedPrefix :
    ¬ ∀ (ops : List (World × Op)) (w : World) (d p : String),
      LeftBehind StandIn.readers w (runOps StandIn.readers (withBudgets 4096 4) ops) d p →
        AnswersFromOrigin StandIn.readers w (runOps StandIn.readers (withBudgets 4096 4) ops)
          d p := by
  intro h
  have h₁ := h
    [(⟨StandIn.secondOfSharedPrefix, 0⟩, .addSource "dir" (some "d") none none none none),
      (⟨StandIn.secondOfSharedPrefix, 1⟩, .resolve "111111111111111111111111111111110" 4),
      (⟨StandIn.sharedPrefix, 2⟩, .restart 4096 4)]
    ⟨StandIn.sharedPrefix, 3⟩ "111111111111111111111111111111110" "d/b"
  generalize hs : runOps StandIn.readers _ _ = s at h₁
  have hstate : (s.cache.entries.lookup "111111111111111111111111111111110").bind
        (fun e => e.origin.bind Origin.path) = some "d/b" ∧
      s.cache.resident.contains "111111111111111111111111111111110" = false ∧
      s.sources.indexedFile StandIn.readers StandIn.sharedPrefix
        "111111111111111111111111111111110" = some ("d/a" : PathBuf) := by
    rw [← hs]
    decide +kernel
  obtain ⟨hentry, hevicted, hother⟩ := hstate
  have hlimits : s.limits = Limits.default := by
    rw [← hs]
    exact limits_runOps StandIn.readers 4096 4 _
  have hparse : (ParsedModule.parse StandIn.readers (1 :: StandIn.buildId 0x11 ++ [0xbb]) "b"
      Limits.default).toOption.map ParsedModule.debugId
        = some "111111111111111111111111111111110" := by decide +kernel
  obtain ⟨m, hm, hid⟩ := exists_of_toOption hparse
  obtain ⟨located, -, -, hpath, -, -⟩ :=
    h₁ ⟨hentry, ⟨1 :: StandIn.buildId 0x11 ++ [0xbb], "b", m, by decide +kernel,
      by rw [hlimits, hm], hid⟩, hevicted⟩
  -- The lookup parses `d/a`, not the `d/b` of the entry.
  rw [hpath] at hother
  revert hother
  decide

end SymbolsState

end VgiSymbols
