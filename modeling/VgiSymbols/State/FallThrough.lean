import VgiSymbols.State.Lookup

set_option autoImplicit false

/-! # Falling through to the next source

A run keeps beside the state, as a ghost, every file that was indexed since the index was last
cleared, with the data it had then. The index itself keeps one path for each alias, that of the
first such file (`Recorded`). `fallsThrough_iff` says when a lookup nevertheless finds a file
that is left: when the first one is.
-/

namespace VgiSymbols

open Unwind

variable {rd : Readers} {fs : FileSystem}

/-- A file as it was indexed: its source, its aliases and path, and the data it had. -/
structure IndexRecord where
  source : SourceSpec
  file : Indexed
  data : Option Bytes

/-- The row of the index for the file. -/
def IndexRecord.row (r : IndexRecord) : List String × (PathBuf × Bool) :=
  (r.file.aliases, (r.file.path, r.source.kind == "glob"))

/-- The files indexed for a list of sources, up to one whose listing unwinds. -/
def indexRecords (rd : Readers) (fs : FileSystem) : List SourceSpec → List IndexRecord
  | [] => []
  | s :: rest =>
      match s.list rd fs with
      | .panicked => []
      | .returned files =>
          files.map (fun ix => ⟨s, ix, fs.mapFile ix.path⟩) ++ indexRecords rd fs rest

/-- The registry still has the source of the record, enabled, and its file is readable and has
the data it had when it was indexed under the canonical token `k`. -/
def IndexRecord.Supplies (sources : List SourceSpec) (fs : FileSystem) (k : String)
    (r : IndexRecord) : Prop :=
  r.source ∈ sources ∧ r.source.isLocal = true ∧ k ∈ r.file.aliases ∧ r.data ≠ none ∧
    fs.read r.file.path = r.data

instance (sources : List SourceSpec) (fs : FileSystem) (k : String) (r : IndexRecord) :
    Decidable (r.Supplies sources fs k) :=
  inferInstanceAs (Decidable (_ ∧ _))

namespace SourceRegistry

/-- The index has the first recorded file for each alias. -/
def Recorded (records : List IndexRecord) (reg : SourceRegistry) : Prop :=
  ∀ k, reg.index.lookup k = Table.firstMatch (records.map IndexRecord.row) k

theorem recorded_of_index_eq {records : List IndexRecord} {reg reg' : SourceRegistry}
    (h : reg.Recorded records) (hindex : reg'.index = reg.index) : reg'.Recorded records := by
  intro k
  rw [hindex]
  exact h k

theorem recorded_of_empty {reg : SourceRegistry} (h : reg.index = ∅) : reg.Recorded [] := by
  intro k
  rw [h]
  rfl

/-- Indexing adds the rows of what it records. -/
theorem recorded_indexPending {records : List IndexRecord} (l : List SourceSpec)
    {reg : SourceRegistry} (h : reg.Recorded records) :
    (indexPending rd fs l reg).2.Recorded (records ++ indexRecords rd fs l) := by
  induction l generalizing records reg with
  | nil =>
      rw [indexRecords, List.append_nil]
      exact h
  | cons s l ih =>
      rw [indexPending, indexRecords]
      cases hlist : s.list rd fs with
      | panicked =>
          rw [List.append_nil]
          exact h
      | returned files =>
          rw [← List.append_assoc]
          apply ih
          intro k
          have hrows : (files.map fun ix => (⟨s, ix, fs.mapFile ix.path⟩ : IndexRecord)).map
              IndexRecord.row = indexRows s files := by
            rw [List.map_map]
            rfl
          rw [Table.lookup_orInsertAll, h k, List.map_append, hrows, Table.firstMatch_append]

theorem recorded_ensureIndexed {records : List IndexRecord} {reg : SourceRegistry}
    (h : reg.Recorded records) :
    (reg.ensureIndexed rd fs).2.Recorded (records ++ indexRecords rd fs reg.pending) :=
  recorded_indexPending _ h

/-- `locate` reads the first recorded file. -/
theorem locate_of_recorded {records : List IndexRecord} {reg : SourceRegistry}
    (h : reg.Recorded records) (hlist : ListsReturn rd fs reg.pending) (token : String) :
    (reg.locate rd fs token).1 = .returned ((Table.firstMatch
      ((records ++ indexRecords rd fs reg.pending).map IndexRecord.row)
        (canonicalToken token)).bind (readLocated fs (canonicalToken token))) := by
  rw [locate_of_returns hlist, ← lookup_ensureIndexed_of_returns hlist,
    recorded_ensureIndexed h (canonicalToken token)]

theorem indexedFile_of_recorded {records : List IndexRecord} {reg : SourceRegistry}
    (h : reg.Recorded records) (token : String) :
    reg.indexedFile rd fs token = (Table.firstMatch
      ((records ++ indexRecords rd fs reg.pending).map IndexRecord.row)
        (canonicalToken token)).map Prod.fst := by
  rw [indexedFile, recorded_ensureIndexed h (canonicalToken token)]

theorem recorded_add {records : List IndexRecord} {reg : SourceRegistry}
    (h : reg.Recorded records) (kind : String) (path url bucket : Option String)
    (enabled : Option Bool) (secret : Option String) :
    (reg.add kind path url bucket enabled secret).2.Recorded records := by
  apply recorded_of_index_eq h
  unfold add
  simp only
  split <;> rfl

theorem recorded_dropSource {records : List IndexRecord} {reg : SourceRegistry}
    (h : reg.Recorded records) (sourceId : String) :
    (reg.dropSource sourceId).2.Recorded
      (if (reg.dropSource sourceId).1 then [] else records) := by
  unfold dropSource
  simp only
  split
  · exact recorded_of_empty rfl
  · exact recorded_of_index_eq h rfl

end SourceRegistry

namespace SymbolsState

/-! ## Runs with records -/

/-- What a lookup of the token adds to the records: nothing, if it does not get to the index. -/
def recordsOf (rd : Readers) (w : World) (s : SymbolsState) (token : String) : List IndexRecord :=
  if s.cache.isResident token || s.cache.isKnownMiss token then []
  else indexRecords rd w.fs s.sources.pending

/-- A step, with the files indexed since the index was last cleared. -/
def recordedStep (rd : Readers) (t : SymbolsState × List IndexRecord) (i : World × Op) :
    SymbolsState × List IndexRecord :=
  (step rd t.1 i,
    match i.2 with
    | .addSource .. | .cacheEvict _ => t.2
    | .dropSource sourceId => if (t.1.dropSource sourceId).1 then [] else t.2
    | .resolve token _ | .functionName token _ => t.2 ++ recordsOf rd i.1 t.1 token
    | .importManifest _ | .restart _ _ => [])

/-- The registry after a lookup is indexed when the lookup got that far. -/
theorem sources_lookup (w : World) (s : SymbolsState) (token : String) :
    (s.lookup rd w token).2.sources =
      if s.cache.isResident token || s.cache.isKnownMiss token then s.sources
      else (s.sources.ensureIndexed rd w.fs).2 := by
  have hindexed : ∀ {o : Unwind (Option Located)} {reg : SourceRegistry},
      s.cache.reached token = none → canonicalToken token ∉ s.cache.negative →
      s.sources.locate rd w.fs token = (o, reg) →
      reg = if s.cache.isResident token || s.cache.isKnownMiss token then s.sources
        else (s.sources.ensureIndexed rd w.fs).2 := by
    intro o reg hr hm hl
    rw [goesOn_of_reached_eq_none hr hm, SourceRegistry.eq_ensureIndexed_of_locate hl]
    rfl
  have hlooked := looked_lookup rd w s token
  generalize (s.lookup rd w token).1 = out at hlooked
  generalize (s.lookup rd w token).2 = s' at hlooked ⊢
  generalize s.parseAttempt rd w token = attempt at hlooked
  cases hlooked with
  | hit hr =>
      rw [SymbolCache.isResident_eq, hr]
      rfl
  | miss hr hm =>
      rw [SymbolCache.isKnownMiss_iff.mpr hm, Bool.or_true]
      rfl
  | unwound hr hm hl => exact hindexed hr hm hl
  | absent hr hm hl => exact hindexed hr hm hl
  | failed hr hm hl hp => exact hindexed hr hm hl
  | parsed hr hm hl hp hr' => exact hindexed hr hm hl
  | lost hr hm hl hp hr' => exact hindexed hr hm hl

theorem dropSource_fst (s : SymbolsState) (sourceId : String) :
    (s.dropSource sourceId).1 = (s.sources.dropSource sourceId).1 := by
  unfold dropSource
  cases s.sources.dropSource sourceId
  rfl

theorem recorded_lookup {w : World} {s : SymbolsState} {records : List IndexRecord}
    (h : s.sources.Recorded records) (token : String) :
    (s.lookup rd w token).2.sources.Recorded (records ++ recordsOf rd w s token) := by
  rw [sources_lookup, recordsOf]
  split
  · rw [List.append_nil]
    exact h
  · exact SourceRegistry.recorded_ensureIndexed h

/-- Every operation keeps the records. -/
theorem recorded_step {t : SymbolsState × List IndexRecord} (h : t.1.sources.Recorded t.2)
    (i : World × Op) : (recordedStep rd t i).1.sources.Recorded (recordedStep rd t i).2 := by
  obtain ⟨w, op⟩ := i
  cases op with
  | addSource kind path url bucket enabled secret =>
      simp only [recordedStep, step, sources_addSource]
      exact SourceRegistry.recorded_add h _ _ _ _ _ _
  | dropSource sourceId =>
      simp only [recordedStep, step, sources_dropSource, dropSource_fst]
      exact SourceRegistry.recorded_dropSource h sourceId
  | resolve token addr =>
      rw [recordedStep, step_resolve]
      exact recorded_lookup h token
  | functionName token addr =>
      rw [recordedStep, step_functionName]
      exact recorded_lookup h token
  | cacheEvict token => exact h
  | importManifest manifest => exact SourceRegistry.recorded_of_empty rfl
  | restart maxBytes maxModules => exact SourceRegistry.recorded_of_empty rfl

/-- The state and the records after a run. -/
def runRecorded (rd : Readers) (maxBytes : UInt64) (maxModules : Nat)
    (ops : List (World × Op)) : SymbolsState × List IndexRecord :=
  Run.run (recordedStep rd) (withBudgets maxBytes maxModules, []) ops

theorem recorded_runRecorded (rd : Readers) (maxBytes : UInt64) (maxModules : Nat)
    (ops : List (World × Op)) :
    (runRecorded rd maxBytes maxModules ops).1.sources.Recorded
      (runRecorded rd maxBytes maxModules ops).2 :=
  Run.invariant_run' (P := fun t : SymbolsState × List IndexRecord => t.1.sources.Recorded t.2)
    (fun _ i h => recorded_step h i) (SourceRegistry.recorded_of_empty rfl) ops

/-- The records leave the run alone. -/
theorem runRecorded_fst (rd : Readers) (maxBytes : UInt64) (maxModules : Nat)
    (ops : List (World × Op)) :
    (runRecorded rd maxBytes maxModules ops).1
      = runOps rd (withBudgets maxBytes maxModules) ops := by
  have key : ∀ (t : SymbolsState × List IndexRecord),
      (Run.run (recordedStep rd) t ops).1 = Run.run (step rd) t.1 ops := by
    induction ops with
    | nil => exact fun t => rfl
    | cons i ops ih => exact fun t => ih _
  exact key _

/-! ## What a lookup finds -/

/-- The files indexed once a lookup has indexed what was pending. -/
def recordsAt (rd : Readers) (w : World) (t : SymbolsState × List IndexRecord) :
    List IndexRecord :=
  t.2 ++ indexRecords rd w.fs t.1.sources.pending

/-- Some indexed file can still supply the token. -/
def Supplied (rd : Readers) (w : World) (t : SymbolsState × List IndexRecord) (token : String) :
    Prop :=
  ∃ r ∈ recordsAt rd w t, r.Supplies t.1.sources.sources w.fs (canonicalToken token)

/-- A lookup in the sources falls through the files that are gone: it locates one that can still
supply the token, and a miss is recorded only if there is none. -/
structure FallsThrough (rd : Readers) (w : World) (t : SymbolsState × List IndexRecord)
    (token : String) : Prop where
  located : Supplied rd w t token →
    ∃ located, (t.1.sources.locate rd w.fs token).1 = .returned (some located) ∧
      ∃ r ∈ recordsAt rd w t, r.Supplies t.1.sources.sources w.fs (canonicalToken token) ∧
        t.1.sources.indexedFile rd w.fs token = some r.file.path ∧ r.data = some located.data
  missed : ¬ t.1.cache.isResident token = true → ¬ t.1.cache.isKnownMiss token = true →
    (t.1.ensureResident rd w token).1 = .returned (.ok false) → ¬ Supplied rd w t token

/-- Whenever some indexed file can still supply the token, the path of the first file indexed for
it is that of such a file, and what is pending can be listed. -/
def FirstIsLeft (rd : Readers) (w : World) (t : SymbolsState × List IndexRecord)
    (token : String) : Prop :=
  Supplied rd w t token → ListsReturn rd w.fs t.1.sources.pending ∧
    ∃ entry, Table.firstMatch ((recordsAt rd w t).map IndexRecord.row) (canonicalToken token)
        = some entry ∧
      ∃ r ∈ recordsAt rd w t, r.Supplies t.1.sources.sources w.fs (canonicalToken token) ∧
        r.file.path = entry.1

/-- **When lookups fall through unreadable files**, after every run: when the first file that was
indexed for the token is left, as long as any is. -/
theorem fallsThrough_iff (rd : Readers) (maxBytes : UInt64) (maxModules : Nat)
    (ops : List (World × Op)) (w : World) (token : String) :
    FallsThrough rd w (runRecorded rd maxBytes maxModules ops) token ↔
      FirstIsLeft rd w (runRecorded rd maxBytes maxModules ops) token := by
  have hrecorded := recorded_runRecorded rd maxBytes maxModules ops
  generalize runRecorded rd maxBytes maxModules ops = t at hrecorded
  constructor
  · intro h hsupplied
    obtain ⟨located, hlocate, r, hr, hsupplies, hpath, -⟩ := h.located hsupplied
    have hlist := SourceRegistry.locate_returns_iff.mp ⟨_, hlocate⟩
    rw [SourceRegistry.indexedFile_of_recorded hrecorded] at hpath
    obtain ⟨entry, hentry, hpath⟩ := Option.map_eq_some_iff.mp hpath
    exact ⟨hlist, entry, hentry, r, hr, hsupplies, hpath.symm⟩
  · intro h
    have hlocated : Supplied rd w t token →
        ∃ located, (t.1.sources.locate rd w.fs token).1 = .returned (some located) ∧
          ∃ r ∈ recordsAt rd w t, r.Supplies t.1.sources.sources w.fs (canonicalToken token) ∧
            t.1.sources.indexedFile rd w.fs token = some r.file.path ∧
              r.data = some located.data := by
      intro hsupplied
      obtain ⟨hlist, entry, hentry, r, hr, hsupplies, hpath⟩ := h hsupplied
      obtain ⟨-, -, -, hdata, hread⟩ := id hsupplies
      obtain ⟨data, hdata⟩ := Option.ne_none_iff_exists'.mp hdata
      rw [hpath, hdata] at hread
      have hsome : ∃ located, SourceRegistry.readLocated w.fs (canonicalToken token) entry
          = some located := by
        rw [SourceRegistry.readLocated, hread]
        exact ⟨_, rfl⟩
      obtain ⟨located, hsome⟩ := hsome
      refine ⟨located, ?_, r, hr, hsupplies, ?_, ?_⟩
      · rw [SourceRegistry.locate_of_recorded hrecorded hlist]
        exact congrArg Unwind.returned (Option.bind_eq_some_iff.mpr ⟨entry, hentry, hsome⟩)
      · rw [SourceRegistry.indexedFile_of_recorded hrecorded, hpath]
        exact Option.map_eq_some_iff.mpr ⟨entry, hentry, rfl⟩
      · rw [hdata, ← hread, (SourceRegistry.path_readLocated hsome).1]
    refine ⟨hlocated, fun hres hmiss hfalse hsupplied => ?_⟩
    -- a miss is recorded only when nothing was located
    obtain ⟨located, hlocate, -⟩ := hlocated hsupplied
    rw [ensureResident, if_neg hres, if_neg hmiss] at hfalse
    cases hl : t.1.sources.locate rd w.fs token with
    | mk out sources =>
        rw [hl] at hlocate hfalse
        cases hlocate
        simp only at hfalse
        cases hparse : ParsedModule.parse rd located.data located.name t.1.limits with
        | ok m =>
            rw [hparse] at hfalse
            cases hfalse
        | error e =>
            rw [hparse] at hfalse
            cases hfalse

/-- Two copies of an image are indexed, and then the first one is deleted. -/
theorem not_fallsThrough_deleted :
    ¬ ∀ (ops : List (World × Op)) (w : World) (token : String),
      FallsThrough StandIn.readers w (runRecorded StandIn.readers 4096 4 ops) token := by
  intro h
  let w : World :=
    ⟨StandIn.directory "d" [("d/a", 1 :: StandIn.buildId 0x11), ("d/b", 1 :: StandIn.buildId 0x11)],
      0⟩
  let w' : World := ⟨StandIn.directory "d" [("d/b", 1 :: StandIn.buildId 0x11)], 1⟩
  have hmissed := (h [(w, .addSource "dir" (some "d") none none none none),
    (w, .functionName (StandIn.token 0x33) 4)] w' (StandIn.token 0x11)).missed
  unfold Supplied at hmissed
  revert hmissed
  decide +kernel

end SymbolsState

end VgiSymbols
