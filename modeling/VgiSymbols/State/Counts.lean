import VgiSymbols.Cache.Counts
import VgiSymbols.State.Lookup

set_option autoImplicit false

/-! # Counting the answers of a run

A run keeps beside the state, as a ghost, the debug-ids whose modules answered its lookups so
far. `countsHold_run_iff` says exactly which runs report these counts after every step: those
whose lookups only store modules without losing a row.
-/

namespace VgiSymbols

namespace SymbolsState

variable {rd : Readers}

/-- The debug-id that the module answering for the token is stored under, once it has. -/
def answeredId (token : String) (s : SymbolsState) : Unwind Answer → Option String
  | .returned (.module _) => s.cache.resolveDebugId token
  | _ => none

@[simp] theorem answeredId_notFound (token : String) (s : SymbolsState) :
    answeredId token s (.returned .notFound) = none := rfl

@[simp] theorem answeredId_error (token : String) (s : SymbolsState) (kind : ErrorKind) :
    answeredId token s (.returned (.error kind)) = none := rfl

@[simp] theorem answeredId_panicked (token : String) (s : SymbolsState) :
    answeredId token s .panicked = none := rfl

/-- The debug-id whose module answers in a step, if one does. -/
def answered (rd : Readers) (s : SymbolsState) (i : World × Op) : Option String :=
  i.2.token?.bind fun token =>
    answeredId token (s.lookup rd i.1 token).2 (s.lookup rd i.1 token).1

/-- A step, with the answers so far. -/
def countedStep (rd : Readers) (t : SymbolsState × List String) (i : World × Op) :
    SymbolsState × List String :=
  (step rd t.1 i, t.2 ++ (answered rd t.1 i).toList)

/-- Status and manifest tell how often each debug-id answered. -/
def CountsHold (t : SymbolsState × List String) : Prop :=
  t.1.cache.CountsHold t.1.sources.sources t.2

/-- The lookup that gets to parse the file stores the module. -/
def Stores (rd : Readers) (s : SymbolsState) (attempt : Option Located) (m : ParsedModule) :
    Prop :=
  ∃ located, attempt = some located ∧
    ParsedModule.parse rd located.data located.name s.limits = .ok m

/-- A module that the step stores loses no row. -/
def StoresKeepCounts (rd : Readers) (t : SymbolsState × List String) (i : World × Op) : Prop :=
  ∀ token, i.2.token? = some token →
    ∀ m, Stores rd t.1 (t.1.parseAttempt rd i.1 token) m → t.1.cache.KeepsCounts m

section Looked

variable {w : World} {s s' : SymbolsState} {token : String} {attempt : Option Located}
  {out : Unwind Answer} {answers : List String}

/-- A lookup answered by a module leads to the debug-id the module is stored under. -/
theorem resolveDebugId_touch (c : SymbolCache) (now : UInt64) (token : String) :
    (c.touch now token).resolveDebugId token = c.resolveDebugId token := by
  rw [SymbolCache.resolveDebugId, SymbolCache.aliases_touch, SymbolCache.resolveDebugId]

theorem forall_stores_iff {P : ParsedModule → Prop} {located : Located} {m : ParsedModule}
    (hp : ParsedModule.parse rd located.data located.name s.limits = .ok m) :
    (∀ m, Stores rd s (some located) m → P m) ↔ P m := by
  constructor
  · exact fun h => h m ⟨located, rfl, hp⟩
  · rintro h m' ⟨_, hattempt, hm'⟩
    cases hattempt
    rw [hp] at hm'
    cases hm'
    exact h

/-- A lookup that stores no module, or one without losing a row, keeps the answers counted. -/
theorem counted_looked (h : s.cache.Counted answers)
    (hlooked : Looked rd w s token attempt out s')
    (hkeeps : ∀ m, Stores rd s attempt m → s.cache.KeepsCounts m) :
    s'.cache.Counted (answers ++ (answeredId token s' out).toList) := by
  cases hlooked with
  | hit hr =>
      obtain ⟨d, ha, hd⟩ := SymbolCache.reached_eq_some.mp hr
      rw [answeredId, touch, resolveDebugId_touch, SymbolCache.resolveDebugId, ha]
      exact h.touch w.now ha hd
  | miss hr hm =>
      rw [answeredId_notFound, Option.toList_none, List.append_nil]
      exact h
  | unwound hr hm hl =>
      rw [answeredId_panicked, Option.toList_none, List.append_nil]
      exact h
  | absent hr hm hl =>
      rw [answeredId_notFound, Option.toList_none, List.append_nil]
      exact h.recordMiss w.now token
  | failed hr hm hl hp =>
      rw [answeredId_error, Option.toList_none, List.append_nil]
      exact h
  | @parsed sources located m r hr hm hl hp hr' =>
      obtain ⟨d, ha, hd⟩ := SymbolCache.reached_eq_some.mp hr'
      rw [answeredId, resolveDebugId_touch, SymbolCache.resolveDebugId, ha]
      exact (h.insert (hkeeps m ⟨located, rfl, hp⟩) w.now located.origin).touch w.now ha hd
  | @lost sources located m hr hm hl hp hr' =>
      rw [answeredId_notFound, Option.toList_none, List.append_nil]
      exact h.insert (hkeeps m ⟨located, rfl, hp⟩) w.now located.origin

/-- A lookup keeps the answers counted exactly when the module it stores, if any, loses no
row. -/
theorem rowsAre_looked_iff (h : s.cache.Counted answers)
    (hlooked : Looked rd w s token attempt out s') :
    s'.cache.RowsAre (answers ++ (answeredId token s' out).toList) ↔
      ∀ m, Stores rd s attempt m → s.cache.KeepsCounts m := by
  have hnone : ∀ m, ¬ Stores rd s none m := fun m ⟨_, hattempt, _⟩ => by cases hattempt
  -- Where nothing is stored, both sides hold.
  have hkept : (∀ m, ¬ Stores rd s attempt m) →
      (s'.cache.RowsAre (answers ++ (answeredId token s' out).toList) ↔
        ∀ m, Stores rd s attempt m → s.cache.KeepsCounts m) := fun hno =>
    iff_of_true (counted_looked h hlooked fun m hm => absurd hm (hno m)).rows
      fun m hm => absurd hm (hno m)
  cases hlooked with
  | hit hr => exact hkept hnone
  | miss hr hm => exact hkept hnone
  | unwound hr hm hl => exact hkept hnone
  | absent hr hm hl => exact hkept hnone
  | failed hr hm hl hp =>
      refine hkept fun m ⟨_, hattempt, hm⟩ => ?_
      cases hattempt
      rw [hp] at hm
      cases hm
  | @parsed sources located m r hr hm hl hp hr' =>
      obtain ⟨d, ha, hd⟩ := SymbolCache.reached_eq_some.mp hr'
      have hknown := SymbolCache.known_invariant.insert h.known w.now m located.origin
      rw [answeredId, resolveDebugId_touch, SymbolCache.resolveDebugId, ha]
      refine (SymbolCache.rowsAre_touch_iff hknown w.now ha hd answers).trans
        ((SymbolCache.rowsAre_insert_iff h w.now m located.origin).trans ?_)
      exact (forall_stores_iff hp).symm
  | @lost sources located m hr hm hl hp hr' =>
      rw [answeredId_notFound, Option.toList_none, List.append_nil]
      exact (SymbolCache.rowsAre_insert_iff h w.now m located.origin).trans
        (forall_stores_iff hp).symm

end Looked

/-! ## Runs -/

theorem counted_step {t : SymbolsState × List String} (h : t.1.cache.Counted t.2)
    {i : World × Op} (hi : i.2.isWork = true) (hkeeps : StoresKeepCounts rd t i) :
    (countedStep rd t i).1.cache.Counted (countedStep rd t i).2 := by
  cases htoken : i.2.token? with
  | some token =>
      rw [countedStep, step_of_token_eq_some htoken, answered, htoken, Option.bind_some]
      exact counted_looked h (looked_lookup rd i.1 t.1 token) (hkeeps token htoken)
  | none =>
      obtain ⟨w, op⟩ := i
      cases op with
      | cacheEvict token =>
          have hcounted := h.evict token
          rwa [← List.append_nil t.2] at hcounted
      | resolve token addr => cases htoken
      | functionName token addr => cases htoken
      | addSource kind path url bucket enabled secret => cases hi
      | dropSource sourceId => cases hi
      | importManifest manifest => cases hi
      | restart maxBytes maxModules => cases hi

theorem rowsAre_step_iff {t : SymbolsState × List String} (h : t.1.cache.Counted t.2)
    {i : World × Op} (hi : i.2.isWork = true) :
    (countedStep rd t i).1.cache.RowsAre (countedStep rd t i).2 ↔ StoresKeepCounts rd t i := by
  cases htoken : i.2.token? with
  | some token =>
      rw [countedStep, step_of_token_eq_some htoken, answered, htoken, Option.bind_some,
        rowsAre_looked_iff h (looked_lookup rd i.1 t.1 token)]
      refine ⟨fun hkeeps token' ht => ?_, fun hkeeps => hkeeps token htoken⟩
      rw [htoken] at ht
      cases ht
      exact hkeeps
  | none =>
      have hkeeps : StoresKeepCounts rd t i := by
        intro token' ht
        rw [htoken] at ht
        cases ht
      exact iff_of_true (counted_step h hi hkeeps).rows hkeeps

/-- **Exactly which runs conserve the row counts.** From an empty cache, over any sources, the
rows that status and manifest tell of are the answers of the run after every step, if and only if
no step stores a module in a way that loses a row. -/
theorem countsHold_run_iff (rd : Readers) (sources : SourceRegistry) (limits : Limits)
    (maxBytes : UInt64) (maxModules : Nat) {ops : List (World × Op)}
    (hops : ∀ i ∈ ops, i.2.isWork = true) :
    Run.MeetsAlong (countedStep rd) (fun t i => CountsHold (countedStep rd t i))
        (⟨sources, SymbolCache.new maxBytes maxModules, limits⟩, []) ops ↔
      Run.MeetsAlong (countedStep rd) (StoresKeepCounts rd)
        (⟨sources, SymbolCache.new maxBytes maxModules, limits⟩, []) ops := by
  refine Run.meetsAlong_congr_of (B := fun _ i => i.2.isWork = true)
    (J := fun t => t.1.cache.Counted t.2 ∧ t.1.cache.Keyed)
    (fun t i ht hi hc => ⟨counted_step ht.1 hi hc,
      cache_work SymbolCache.keyed_invariant.toKept ht.2 hi⟩)
    (fun t i ht hi => ?_)
    ⟨SymbolCache.counted_new maxBytes maxModules,
      SymbolCache.keyed_invariant.new maxBytes maxModules⟩
    (Run.MeetsAlong.of_forall_mem hops _)
  have hkeyed : (step rd t.1 i).cache.Keyed :=
    cache_work SymbolCache.keyed_invariant.toKept ht.2 hi
  have hknown : (step rd t.1 i).cache.Known :=
    cache_work SymbolCache.known_invariant.toKept ht.1.known hi
  exact (SymbolCache.countsHold_iff hkeyed hknown _ _).trans (rowsAre_step_iff ht.1 hi)

/-- A module is resolved twice and evicted. -/
theorem countsHold_run_goodAndBad :
    Run.MeetsAlong (countedStep StandIn.readers)
      (fun t i => CountsHold (countedStep StandIn.readers t i))
      (⟨StandIn.oneDirectory, SymbolCache.new 4096 4, Limits.default⟩, [])
      [(⟨StandIn.goodAndBad, 0⟩, .resolve (StandIn.token 0x11) 4),
        (⟨StandIn.goodAndBad, 1⟩, .functionName (StandIn.token 0x11) 4),
        (⟨StandIn.goodAndBad, 2⟩, .cacheEvict none)] := by
  refine (countsHold_run_iff StandIn.readers StandIn.oneDirectory Limits.default 4096 4
    (by decide)).mpr ⟨?_, ?_, ?_, trivial⟩
  · -- The cache is empty: no row is reported and nothing has to make room.
    rintro token - m -
    refine ⟨fun n hn => (by cases hn), fun id r hdrop => ?_⟩
    rw [LruCache.dropped, if_pos (Or.inr (by decide))] at hdrop
    cases hdrop
  · -- The module is resident: nothing is parsed.
    rintro token ht m ⟨located, hattempt, -⟩
    cases ht
    rw [show SymbolsState.parseAttempt _ _ _ _ = none by decide +kernel] at hattempt
    cases hattempt
  · rintro token ht
    cases ht

/-- A module answers, is evicted, and answers again: the count starts anew. -/
theorem not_countsHold_goodAndBad :
    ¬ ∀ ops : List (World × Op), (∀ i ∈ ops, i.2.isWork = true) →
      CountsHold (Run.run (countedStep StandIn.readers)
        (⟨StandIn.oneDirectory, SymbolCache.new 4096 4, Limits.default⟩, []) ops) := by
  intro h
  have h₁ := (h
    [(⟨StandIn.goodAndBad, 0⟩, .resolve (StandIn.token 0x11) 4),
      (⟨StandIn.goodAndBad, 1⟩, .cacheEvict none),
      (⟨StandIn.goodAndBad, 2⟩, .resolve (StandIn.token 0x11) 4)] (by decide)).2
  revert h₁
  decide +kernel

end SymbolsState

end VgiSymbols
