import VgiSymbols.Cache.Accounting
import VgiSymbols.Core.Inspect
import VgiSymbols.State.Negative

set_option autoImplicit false

/-! # Where modules come from

`Parses` is an event of a run: an operation reads the file at a path, hands it to the parser, and
gets a module. Every module in the cache, and every entry that is no miss, comes from such an event
of the run (`Worked` is what one operation can do).

* `fresh_after_evict`: after `cache_evict` no module is served that was read before.
* `told_runOps`: what `cache_status` says of a module is what `module_info` said of its file when it
  was parsed.
-/

namespace VgiSymbols

open Unwind

namespace SymbolCache

/-! ## Resident modules and their entries -/

/-- Every resident module is stored under its id with its bytes, and its entry describes it. -/
def Described (c : SymbolCache) : Prop :=
  ∀ d r, c.resident.peek d = some r →
    r.module.debugId = d ∧ r.bytes = r.module.residentBytes ∧
      ∃ e origin, c.entries.lookup d = some e ∧ e.static = entryOf r.module origin 0

theorem described_new (maxBytes : UInt64) (maxModules : Nat) :
    Described (new maxBytes maxModules) := fun d r hr => by cases hr

theorem Described.evicted {c c' : SymbolCache} (h : Described c) (he : Evicted c c') :
    Described c' := by
  intro d r hr
  obtain ⟨hid, hbytes, e, origin, hd, hstatic⟩ := h d r (he.peek d r hr)
  obtain ⟨e', hd', hstatic'⟩ := exists_of_map_static (he.static d) hd
  exact ⟨hid, hbytes, e', origin, hd', hstatic'.trans hstatic⟩

theorem described_kept : Kept Described where
  touch {c} h now token d r hr := by
    obtain ⟨r₀, hr₀, hm, hbytes⟩ := exists_of_peek_touch hr
    rw [entries_touch, ← hm, ← hbytes]
    exact h d r₀ hr₀
  recordMiss {c} h now token d r hr := by
    obtain ⟨hid, hbytes, e, origin, hd, hstatic⟩ := h d r hr
    exact ⟨hid, hbytes, e, origin, lookup_recordMiss_of_eq_some hd now token, hstatic⟩
  insert {c} h now m origin := by
    refine Described.evicted (c := c.store now m origin) (fun d r hr => ?_)
      (evicted_insert c now m origin)
    rw [lookup_store]
    by_cases hd : d = m.debugId
    · -- the module that was stored, with the entry that was stored
      rw [hd, resident_store, LruCache.peek_put_self] at hr
      cases hr
      rw [if_pos hd]
      exact ⟨hd.symm, rfl, _, origin, rfl, rfl⟩
    · rw [if_neg hd]
      exact h d r (LruCache.peek_of_put_ne hd hr)
  evicted h he := h.evicted he

/-! ## One operation -/

/-- What an operation of a session does to the cache. The modules it parses, with their origins,
meet `Q`. -/
inductive Worked (Q : Origin → ParsedModule → Prop) (c : SymbolCache) : SymbolCache → Prop where
  | same : Worked Q c c
  | touched (now : UInt64) (token : String) : Worked Q c (c.touch now token)
  | missed (now : UInt64) (token : String) : Worked Q c (c.recordMiss now token)
  | inserted {m : ParsedModule} {origin : Origin} (now : UInt64) (h : Q origin m) :
      Worked Q c (c.insert now m origin).2
  | answered {m : ParsedModule} {origin : Origin} (now : UInt64) (token : String)
      (h : Q origin m) : Worked Q c ((c.insert now m origin).2.touch now token)
  | evicted {c' : SymbolCache} (h : Evicted c c') : Worked Q c c'

section Worked

variable {Q : Origin → ParsedModule → Prop} {c c' : SymbolCache} {d : String}

/-- A resident module was there before, or is parsed by the operation. -/
theorem Worked.peek (h : Worked Q c c') {r : Resident} (hr : c'.resident.peek d = some r) :
    (∃ r₀, c.resident.peek d = some r₀ ∧ r₀.module = r.module) ∨
      ∃ origin, Q origin r.module := by
  have hinsert : ∀ {now : UInt64} {m : ParsedModule} {origin : Origin} {r : Resident},
      Q origin m → (c.insert now m origin).2.resident.peek d = some r →
      (∃ r₀, c.resident.peek d = some r₀ ∧ r₀.module = r.module) ∨
        ∃ origin, Q origin r.module := by
    intro now m origin r hm hr
    by_cases hd : d = m.debugId
    · rw [hd, peek_insert_self] at hr
      cases hr
      exact Or.inr ⟨origin, hm⟩
    · exact Or.inl ⟨r, peek_of_insert_ne hd hr, rfl⟩
  cases h with
  | same => exact Or.inl ⟨r, hr, rfl⟩
  | touched now token =>
      obtain ⟨r₀, hr₀, hm, -⟩ := exists_of_peek_touch hr
      exact Or.inl ⟨r₀, hr₀, hm⟩
  | missed now token => exact Or.inl ⟨r, hr, rfl⟩
  | inserted now hm => exact hinsert hm hr
  | answered now token hm =>
      obtain ⟨r₀, hr₀, hmodule, -⟩ := exists_of_peek_touch hr
      rw [← hmodule]
      exact hinsert hm hr₀
  | evicted he => exact Or.inl ⟨r, he.peek d r hr, rfl⟩

/-- An entry was there before, but for its stats, or is that of a miss, or of a module that is
parsed by the operation. -/
theorem Worked.entry (h : Worked Q c c') {e : ManifestEntry}
    (he : c'.entries.lookup d = some e) :
    (∃ e₀, c.entries.lookup d = some e₀ ∧ e₀.static = e.static) ∨
      e.static = missEntry 0 d ∨
      ∃ m origin, Q origin m ∧ m.debugId = d ∧ e.static = entryOf m origin 0 := by
  have hinsert : ∀ {now : UInt64} {m : ParsedModule} {origin : Origin}, Q origin m →
      (c.insert now m origin).2.entries.lookup d = some e →
      (∃ e₀, c.entries.lookup d = some e₀ ∧ e₀.static = e.static) ∨
        e.static = missEntry 0 d ∨
        ∃ m origin, Q origin m ∧ m.debugId = d ∧ e.static = entryOf m origin 0 := by
    intro now m origin hm hlookup
    obtain ⟨e₀, he₀, hstatic⟩ := exists_of_map_static
      ((evicted_insert c now m origin).static d).symm hlookup
    rw [lookup_store] at he₀
    split at he₀
    · next hd =>
        cases he₀
        exact Or.inr (Or.inr ⟨m, origin, hm, hd.symm, hstatic.symm⟩)
    · exact Or.inl ⟨e₀, he₀, hstatic⟩
  cases h with
  | same => exact Or.inl ⟨e, he, rfl⟩
  | touched now token =>
      rw [entries_touch] at he
      exact Or.inl ⟨e, he, rfl⟩
  | missed now token =>
      rcases lookup_entries_recordMiss he with he | ⟨-, rfl⟩
      · exact Or.inl ⟨e, he, rfl⟩
      · exact Or.inr (Or.inl rfl)
  | inserted now hm => exact hinsert hm he
  | answered now token hm =>
      rw [entries_touch] at he
      exact hinsert hm he
  | evicted hev =>
      obtain ⟨e₀, he₀, hstatic⟩ := exists_of_map_static (hev.static d).symm he
      exact Or.inl ⟨e₀, he₀, hstatic⟩

/-- What lookups and evictions keep, the operation keeps. -/
theorem Worked.kept {P : SymbolCache → Prop} (hP : Kept P) (h : Worked Q c c') (hc : P c) :
    P c' := by
  cases h with
  | same => exact hc
  | touched now token => exact hP.touch hc now token
  | missed now token => exact hP.recordMiss hc now token
  | inserted now hm => exact hP.insert hc now _ _
  | answered now token hm => exact hP.touch (hP.insert hc now _ _) now token
  | evicted he => exact hP.evicted hc he

end Worked

end SymbolCache

namespace SymbolsState

variable {rd : Readers}

open SymbolCache (Worked)

/-! ## Parses -/

/-- The operation looks a token up in the sources, reads the file that they have for it at `path`,
and parses what was `located` there to `m`. -/
structure Parses (rd : Readers) (s : SymbolsState) (i : World × Op) (path : PathBuf)
    (located : Located) (m : ParsedModule) : Prop where
  lookup : ∃ token, i.2.token? = some token ∧ s.parseAttempt rd i.1 token = some located ∧
    s.sources.indexedFile rd i.1.fs token = some path
  read : i.1.fs.read path = some located.data
  parsed : ParsedModule.parse rd located.data located.name s.limits = .ok m

/-- The module was parsed by the operation, and its origin is this. -/
def ParsedFrom (rd : Readers) (s : SymbolsState) (i : World × Op) (origin : Origin)
    (m : ParsedModule) : Prop :=
  ∃ path located, s.Parses rd i path located m ∧ located.origin = origin

section Parses

variable {s : SymbolsState} {i : World × Op} {path : PathBuf} {located : Located}
  {m : ParsedModule}

/-- The module has the name of the file, and its origin the text of the path. -/
theorem Parses.named (h : s.Parses rd i path located m) :
    (∀ n, fileName path = some n → m.name = n) ∧
      located.origin.path = some (toStringLossy path) := by
  obtain ⟨token, -, hattempt, hfile⟩ := h.lookup
  obtain ⟨path', hfile', -, hname, hpath⟩ := indexedFile_of_parseAttempt hattempt
  rw [hfile] at hfile'
  cases hfile'
  refine ⟨fun n hn => ?_, hpath⟩
  rw [ParsedModule.name_of_parse h.parsed, hname, hn, Option.getD_some]

theorem parsedFrom_of_attempt {token : String} (hi : i.2.token? = some token)
    (hattempt : s.parseAttempt rd i.1 token = some located)
    (hp : ParsedModule.parse rd located.data located.name s.limits = .ok m) :
    s.ParsedFrom rd i located.origin m := by
  obtain ⟨path, hfile, hread, -, -⟩ := indexedFile_of_parseAttempt hattempt
  exact ⟨path, located, ⟨⟨token, hi, hattempt, hfile⟩, hread, hp⟩, rfl⟩

theorem worked_looked {s' : SymbolsState} {token : String} {attempt : Option Located}
    {out : Unwind Answer} (hi : i.2.token? = some token)
    (hattempt : s.parseAttempt rd i.1 token = attempt) (h : Looked rd i.1 s token attempt out s') :
    Worked (s.ParsedFrom rd i) s.cache s'.cache := by
  cases h with
  | hit hr => exact .touched i.1.now token
  | miss hr hm => exact .same
  | unwound hr hm hl => exact .same
  | absent hr hm hl => exact .missed i.1.now token
  | failed hr hm hl hp => exact .same
  | parsed hr hm hl hp hr' => exact .answered i.1.now token (parsedFrom_of_attempt hi hattempt hp)
  | lost hr hm hl hp hr' => exact .inserted i.1.now (parsedFrom_of_attempt hi hattempt hp)

/-- **One operation of a session** puts in the cache what it parses. -/
theorem worked_step (hi : i.2.isSession = true) :
    Worked (s.ParsedFrom rd i) s.cache (step rd s i).cache := by
  obtain ⟨w, op⟩ := i
  cases op with
  | addSource kind path url bucket enabled secret =>
      rw [step, cache_addSource]
      exact .same
  | dropSource sourceId =>
      rw [step, cache_dropSource]
      exact .same
  | resolve token addr =>
      rw [step_resolve]
      exact worked_looked (i := (w, .resolve token addr)) rfl rfl (looked_lookup rd w s token)
  | functionName token addr =>
      rw [step_functionName]
      exact worked_looked (i := (w, .functionName token addr)) rfl rfl (looked_lookup rd w s token)
  | cacheEvict token => exact .evicted (SymbolCache.evicted_evict _ _)
  | importManifest manifest => cases hi
  | restart maxBytes maxModules => cases hi

end Parses

/-- What lookups and evictions keep, a session keeps. -/
theorem cache_runOps_session {P : SymbolCache → Prop} (hP : SymbolCache.Kept P) (rd : Readers)
    {s : SymbolsState} (h : P s.cache) {ops : List (World × Op)}
    (hops : ∀ i ∈ ops, i.2.isSession = true) : P (runOps rd s ops).cache :=
  Run.invariant_run (P := fun s : SymbolsState => P s.cache)
    (fun _ _ hs hi => (worked_step hi).kept hP hs) h
    (Run.MeetsAlong.of_forall_mem (C := fun i : World × Op => i.2.isSession = true) hops _)

/-! ## Freshness -/

/-- An entry after a session is that of a miss, or of a module that some operation parsed. -/
theorem entry_runOps {ops : List (World × Op)} (hops : ∀ i ∈ ops, i.2.isSession = true)
    {d : String} {e : ManifestEntry}
    (he : (runOps rd SymbolsState.new ops).cache.entries.lookup d = some e) :
    e.static = SymbolCache.missEntry 0 d ∨
      Run.Happens (step rd) (fun t i => ∃ m origin, t.ParsedFrom rd i origin m ∧ m.debugId = d ∧
        e.static = SymbolCache.entryOf m origin 0) SymbolsState.new ops := by
  have h := Run.happens_of_run
    (A := fun t i => e.static = SymbolCache.missEntry 0 d ∨ ∃ m origin, t.ParsedFrom rd i origin m ∧
      m.debugId = d ∧ e.static = SymbolCache.entryOf m origin 0)
    (C := fun i : World × Op => i.2.isSession = true) (J := fun _ => True)
    (L := fun s : SymbolsState => ∃ e₀, s.cache.entries.lookup d = some e₀ ∧ e₀.static = e.static)
    (fun _ _ _ _ => trivial)
    (fun s i _ hi hL => by
      obtain ⟨e₀, he₀, hstatic⟩ := hL
      rw [← hstatic]
      exact (worked_step hi).entry he₀)
    (s := SymbolsState.new) trivial hops ⟨e, he, rfl⟩
  rcases h with ⟨e₀, he₀, -⟩ | ⟨before, i, after, heq, hmiss | hparsed⟩
  · cases he₀
  · exact Or.inl hmiss
  · exact Or.inr ⟨before, i, after, heq, hparsed⟩

end SymbolsState

/-- The row names the file at the path, and says of its module what `module_info` says of the
file. -/
def SymbolCache.StatusRow.TrueOf (rd : Readers) (fs : FileSystem) (s : SymbolsState)
    (path : PathBuf) (row : SymbolCache.StatusRow) : Prop :=
  (row.origin = "dir:" ++ toStringLossy path ∨ row.origin = "glob:" ++ toStringLossy path) ∧
    (∀ name, fileName path = some name → row.name = name) ∧
    ∃ data info, fs.read path = some data ∧ s.moduleInfoBlob rd data = .ok info ∧
      -- `module_info` can be pointed to a path that is UTF-8
      (∀ text : String, path = text → s.moduleInfoPath rd fs text = .ok info) ∧
      info.debugId = some row.debugId ∧ info.format.asStr = row.format ∧ info.arch = row.arch ∧
      (row.resident = true → row.bytesResident = info.byteSize)

namespace SymbolsState

variable {rd : Readers}

/-- A row with the data of a module is true of the file that it was parsed from. -/
theorem trueOf_of_parses {s : SymbolsState} {i : World × Op} {path : PathBuf} {located : Located}
    {m : ParsedModule} (h : s.Parses rd i path located m) {row : SymbolCache.StatusRow}
    (hid : row.debugId = m.debugId) (hname : row.name = m.name)
    (hformat : row.format = m.info.format.asStr) (harch : row.arch = m.info.arch)
    (horigin : row.origin = located.origin.label)
    (hbytes : row.resident = true → row.bytesResident = m.residentBytes.toInt64) :
    row.TrueOf rd i.1.fs s path := by
  obtain ⟨hfile, hpath⟩ := h.named
  refine ⟨?_, fun n hn => hname.trans (hfile n hn), located.data, m.info, h.read,
    ParsedModule.inspect_of_parse h.parsed _, fun text htext => ?_, ?_, hformat.symm, harch.symm,
    fun hr => ?_⟩
  · rw [horigin]
    generalize located.origin = origin at hpath
    cases origin with
    | dir p =>
        cases hpath
        exact Or.inl rfl
    | glob p =>
        cases hpath
        exact Or.inr rfl
    | debuginfod | s3 | http | inline => cases hpath
  · rw [moduleInfoPath, ← htext, h.read]
    exact ParsedModule.inspect_of_parse h.parsed _
  · rw [hid]
    exact m.debugId_info
  · rw [hbytes hr]
    exact m.byteSize_info.symm

/-- **`cache_status` tells the truth.** After any session each row is a miss, or some operation of
the session parsed the file that the row names, and the row says of its module what `module_info`
would have said of that file then. -/
theorem told_runOps (rd : Readers) {ops : List (World × Op)}
    (hops : ∀ i ∈ ops, i.2.isSession = true) :
    ∀ row ∈ (runOps rd SymbolsState.new ops).cacheStatus,
      row.origin = "not_found" ∧ row.resident = false ∨
        Run.Happens (step rd) (fun t i => ∃ path located m, t.Parses rd i path located m ∧
          row.TrueOf rd i.1.fs t path) SymbolsState.new ops := by
  intro row hrow
  have hdescribed : SymbolCache.Described (runOps rd SymbolsState.new ops).cache :=
    cache_runOps_session SymbolCache.described_kept rd (SymbolCache.described_new _ _) hops
  rcases List.mem_append.mp hrow with hrow | hrow
  · obtain ⟨⟨d, r⟩, hr, rfl⟩ := List.mem_map.mp hrow
    obtain ⟨hid, hbytes, e, origin, he, hstatic⟩ := hdescribed d r (AList.mem_lookup_iff.mpr hr)
    refine Or.inr ?_
    rcases entry_runOps hops he
      with hmiss | ⟨before, i, after, heq, m, _, ⟨path, located, hm, rfl⟩, hid', hstatic'⟩
    · -- the entry of a resident module is not that of a miss
      rw [hstatic] at hmiss
      cases hmiss
    · -- the entry of the module and the one that the operation made agree
      have hsame := hstatic.symm.trans hstatic'
      simp only [SymbolCache.entryOf, ManifestEntry.mk.injEq, Option.some.injEq] at hsame
      obtain ⟨-, rfl, hformat, harch, hname, hsize, -⟩ := hsame
      refine ⟨before, i, after, heq, path, located, m, hm,
        trueOf_of_parses hm hid'.symm hname hformat harch ?_ fun _ => ?_⟩
      · simp only [ManifestEntry.static, SymbolCache.entryOf, ManifestEntry.mk.injEq] at hstatic
        simp only [SymbolCache.residentRow, he, Option.bind_some, hstatic.2.1, Option.map_some,
          Option.getD_some]
      · show r.bytes.toInt64 = _
        rw [hbytes, hsize]
  · obtain ⟨⟨d, e⟩, he, rfl⟩ := List.mem_map.mp hrow
    have hlookup := AList.mem_lookup_iff.mpr (List.mem_filter.mp he).1
    rcases entry_runOps hops hlookup
      with hstatic | ⟨before, i, after, heq, m, _, ⟨path, located, hm, rfl⟩, hid, hstatic⟩
    · simp only [ManifestEntry.static, SymbolCache.missEntry, ManifestEntry.mk.injEq] at hstatic
      obtain ⟨-, horigin, -, -, -, -, -, -, hmiss⟩ := hstatic
      refine Or.inl ⟨?_, rfl⟩
      simp only [SymbolCache.entryRow, horigin, hmiss, Option.map_none, Option.getD_none, if_true]
    · simp only [ManifestEntry.static, SymbolCache.entryOf, ManifestEntry.mk.injEq] at hstatic
      obtain ⟨-, horigin, hformat, harch, hname, -⟩ := hstatic
      refine Or.inr ⟨before, i, after, heq, path, located, m, hm,
        trueOf_of_parses hm hid.symm ?_ ?_ ?_ ?_ fun h => by cases h⟩
      · simp only [SymbolCache.entryRow, hname, Option.getD_some]
      · simp only [SymbolCache.entryRow, hformat, Option.getD_some]
      · simp only [SymbolCache.entryRow, harch, Option.getD_some]
      · simp only [SymbolCache.entryRow, horigin, Option.map_some, Option.getD_some]

end SymbolsState

end VgiSymbols
