import VgiSymbols.Cache.Manifest

set_option autoImplicit false

/-! # Row counts

The number of rows a debug-id was resolved for is counted in the resident module while it is
loaded and in the entry otherwise; `reported` is what is told of it. Every pop folds the count
back (`reported_evict`), so what is reported survives every eviction but two things of an insert:
it starts the count of the new module at zero, and `put` drops a module at a full cache without
folding it back (`reportedRows_insert`). `rowsAre_insert_iff` says when neither loses a row.
-/

namespace VgiSymbols

namespace SymbolCache

/-! ## What is reported -/

/-- A module that leaves the cache and is folded back is reported as before. -/
theorem reported_foldBack {c : SymbolCache} {id : String} {r : Resident}
    {resident : LruCache String Resident} (residentBytes : UInt64)
    (hid : c.resident.peek id = some r)
    (hleft : ∀ a, resident.peek a = if a = id then none else c.resident.peek a) :
    ((({ c with resident := resident, residentBytes := residentBytes } :
      SymbolCache).foldBack id r).reported) = c.reported := by
  funext d
  have hpeek : (({ c with resident := resident, residentBytes := residentBytes } :
      SymbolCache).foldBack id r).resident.peek d = if d = id then none else c.resident.peek d :=
    hleft d
  unfold reported live
  rw [lookup_foldBack, hpeek]
  by_cases hd : d = id
  · subst hd
    simp only [if_true, hid, Option.map_none, Option.map_some, Option.getD_none, Option.getD_some,
      Option.map_map]
    rfl
  · simp only [if_neg hd]

theorem reported_evictLoop (fuel : Nat) (c : SymbolCache) :
    (evictLoop fuel c).reported = c.reported := by
  induction fuel generalizing c with
  | zero => rfl
  | succ fuel ih =>
      rw [evictLoop]
      split
      · split
        · next id r resident hpop =>
            obtain ⟨hid, hleft⟩ := LruCache.peek_popLru hpop
            rw [ih]
            exact reported_foldBack _ hid hleft
        · rfl
      · rfl

theorem reported_evictAllLoop (fuel : Nat) (freed : Int64) (c : SymbolCache) :
    (evictAllLoop fuel freed c).2.reported = c.reported := by
  induction fuel generalizing freed c with
  | zero => rfl
  | succ fuel ih =>
      rw [evictAllLoop]
      split
      · next id r resident hpop =>
          obtain ⟨hid, hleft⟩ := LruCache.peek_popLru hpop
          rw [ih]
          exact reported_foldBack c.residentBytes hid hleft
      · rfl

/-- **Eviction on request changes nothing that is reported.** -/
theorem reported_evict (c : SymbolCache) (token : Option String) :
    (c.evict token).2.reported = c.reported := by
  cases token with
  | none => exact reported_evictAllLoop c.resident.len 0 c
  | some t =>
      rw [evict]
      split
      · rfl
      · split
        · next d _ r resident hpop =>
            exact reported_foldBack _ (LruCache.pop_eq_some hpop).1 (LruCache.peek_pop hpop)
        · rfl

/-! ## Reported rows -/

/-- Every resident module has an entry. -/
def Known (c : SymbolCache) : Prop :=
  ∀ d r, c.resident.peek d = some r → ∃ e, c.entries.lookup d = some e

theorem Known.evicted {c c' : SymbolCache} (h : Known c) (hev : Evicted c c') : Known c' := by
  intro d r hd
  obtain ⟨e, he⟩ := h d r (hev.peek d r hd)
  obtain ⟨e', he', -⟩ := exists_of_map_static (hev.static d) he
  exact ⟨e', he'⟩

theorem known_invariant : Invariant Known fun _ => True where
  new _ _ d r h := by cases h
  touch h now token d r hd := by
    obtain ⟨r₀, hr₀, -⟩ := exists_of_peek_touch hd
    rw [entries_touch]
    exact h d r₀ hr₀
  recordMiss h now token d r hd := by
    obtain ⟨e, he⟩ := h d r hd
    exact ⟨e, lookup_recordMiss_of_eq_some he now token⟩
  insert {c} h now m origin := by
    refine Known.evicted (c := c.store now m origin) (fun d r hd => ?_)
      (evicted_insert c now m origin)
    rw [lookup_store]
    split
    · exact ⟨_, rfl⟩
    · next hid => exact h d r (LruCache.peek_of_put_ne hid hd)
  evicted h hev := h.evicted hev
  rehydrate h manifest _ :=
    rehydrate_induction (P := Known) (Q := fun _ => True)
      (fun c e hc _ d r hd => by
        rw [lookup_rehydrateEntry]
        split
        · exact ⟨e, rfl⟩
        · exact hc d r hd) h fun _ _ => trivial
  exported _ _ := trivial

/-- The rows that are reported of a debug-id. -/
def reportedRows (c : SymbolCache) (d : String) : Option UInt64 :=
  (c.reported d).map ManifestEntry.rowsResolved

theorem reportedRows_of_peek {c : SymbolCache} (h : Known c) {d : String} {r : Resident}
    (hd : c.resident.peek d = some r) : c.reportedRows d = some r.rowsResolved := by
  obtain ⟨e, he⟩ := h d r hd
  rw [reportedRows, reported, he, Option.map_some, Option.map_some, live, hd]
  rfl

theorem reportedRows_of_peek_eq_none {c : SymbolCache} {d : String}
    (hd : c.resident.peek d = none) :
    c.reportedRows d = (c.entries.lookup d).map ManifestEntry.rowsResolved := by
  have hlive : c.live d = id := by
    funext e
    rw [live, hd]
    rfl
  rw [reportedRows, reported, hlive, Option.map_id_fun, id]

/-- An answered lookup counts a row of the module it reached. -/
theorem reportedRows_touch {c : SymbolCache} (h : Known c) (now : UInt64) {token d : String}
    {r : Resident} (hid : c.resolveDebugId token = some d) (hd : c.resident.peek d = some r)
    (a : String) :
    (c.touch now token).reportedRows a
      = if a = d then some (r.rowsResolved + 1) else c.reportedRows a := by
  have hpeek : (c.touch now token).resident.peek a
      = if a = d then (c.resident.peek a).map (Resident.bump now) else c.resident.peek a := by
    rw [touch, hid]
    exact LruCache.peek_promote _ _ _ _
  by_cases ha : a = d
  · subst ha
    rw [if_pos rfl, hd, Option.map_some] at hpeek
    rw [if_pos rfl, reportedRows_of_peek (known_invariant.touch h now token) hpeek]
    rfl
  · rw [if_neg ha] at hpeek
    rw [if_neg ha]
    unfold reportedRows reported live
    rw [entries_touch, hpeek]

/-- Recording a miss reports no rows of a token that was not reported of. -/
theorem reportedRows_recordMiss {c : SymbolCache} (h : Known c) (now : UInt64)
    (token a : String) :
    (c.recordMiss now token).reportedRows a
      = (c.reportedRows a).or (if a = canonicalToken token then some 0 else none) := by
  cases hd : c.resident.peek a with
  | some r =>
      rw [reportedRows_of_peek h hd, Option.some_or,
        reportedRows_of_peek (known_invariant.recordMiss h now token) hd]
  | none =>
      rw [reportedRows_of_peek_eq_none hd,
        reportedRows_of_peek_eq_none (c := c.recordMiss now token) hd, lookup_recordMiss]
      cases c.entries.lookup a with
      | some e => rfl
      | none => split <;> rfl

/-- What an insert leaves: the new module starts at zero, and a module that `put` drops is told
of by its entry alone. -/
theorem reportedRows_insert {c : SymbolCache} (now : UInt64) (m : ParsedModule)
    (origin : Origin) (a : String) :
    (c.insert now m origin).2.reportedRows a =
      if a = m.debugId then some 0
      else if (c.resident.dropped m.debugId).map Prod.fst = some a then
        (c.entries.lookup a).map ManifestEntry.rowsResolved
      else c.reportedRows a := by
  have hevict : (c.insert now m origin).2.reportedRows a
      = (c.store now m origin).reportedRows a := by
    show ((evictLoop _ (c.store now m origin)).reported a).map _ = _
    rw [reported_evictLoop]
    rfl
  have hpeek : (c.store now m origin).resident.peek a = if a = m.debugId then some (fresh now m)
      else if (c.resident.dropped m.debugId).map Prod.fst = some a then none
      else c.resident.peek a := LruCache.peek_put _ _ _ _
  rw [hevict]
  split
  · next ha =>
      rw [if_pos ha] at hpeek
      unfold reportedRows reported live
      rw [lookup_store, if_pos ha, hpeek]
      rfl
  · next ha =>
      rw [if_neg ha] at hpeek
      split
      · next hdrop =>
          rw [if_pos hdrop] at hpeek
          rw [reportedRows_of_peek_eq_none hpeek, lookup_store, if_neg ha]
      · next hdrop =>
          rw [if_neg hdrop] at hpeek
          unfold reportedRows reported live
          rw [lookup_store, if_neg ha, hpeek]

/-! ## Counting -/

/-- What is reported of every debug-id is how often it stands in the history of answers. -/
def RowsAre (c : SymbolCache) (answers : List String) : Prop :=
  ∀ d n, c.reportedRows d = some n → n = UInt64.ofNat (answers.count d)

/-- Every resident module has an entry, and the answers are counted. -/
structure Counted (c : SymbolCache) (answers : List String) : Prop where
  known : Known c
  rows : RowsAre c answers
  absent : ∀ d, c.reportedRows d = none → d ∉ answers

/-- Storing the module loses no row: none is reported of its debug-id yet, and the entry of a
module that `put` drops has its count. -/
def KeepsCounts (c : SymbolCache) (m : ParsedModule) : Prop :=
  (∀ n, c.reportedRows m.debugId = some n → n = 0) ∧
    ∀ id r, c.resident.dropped m.debugId = some (id, r) →
      (c.entries.lookup id).map ManifestEntry.rowsResolved = some r.rowsResolved

/-- An answer of a module is counted once. -/
theorem rowsAre_touch_iff {c : SymbolCache} (h : Known c) (now : UInt64) {token d : String}
    {r : Resident} (hid : c.resolveDebugId token = some d) (hd : c.resident.peek d = some r)
    (answers : List String) :
    RowsAre (c.touch now token) (answers ++ [d]) ↔ RowsAre c answers := by
  have hbump : ∀ a, (answers ++ [d]).count a
      = answers.count a + if a = d then 1 else 0 := by
    intro a
    rw [List.count_append, List.count_singleton]
    by_cases ha : a = d
    · simp [ha]
    · simp [ha, Ne.symm ha]
  unfold RowsAre
  apply forall_congr'
  intro a
  rw [reportedRows_touch h now hid hd, hbump]
  by_cases ha : a = d
  · subst ha
    rw [if_pos rfl, if_pos rfl, reportedRows_of_peek h hd]
    simp only [Option.some.injEq, forall_eq', UInt64.ofNat_add]
    exact UInt64.add_left_inj _
  · rw [if_neg ha, if_neg ha, Nat.add_zero]

/-- **Exactly when an insert keeps the counts.** -/
theorem rowsAre_insert_iff {c : SymbolCache} {answers : List String} (h : Counted c answers)
    (now : UInt64) (m : ParsedModule) (origin : Origin) :
    RowsAre (c.insert now m origin).2 answers ↔ c.KeepsCounts m := by
  constructor
  · intro hrows
    constructor
    · intro n hn
      -- The count of the module starts at zero, so it has not answered before.
      have hzero := hrows m.debugId 0 (by rw [reportedRows_insert, if_pos rfl])
      rw [h.rows _ n hn, ← hzero]
    · intro id r hdrop
      -- The dropped module is told of by its entry afterwards, which has to say the same.
      obtain ⟨hpeek, hne⟩ := LruCache.dropped_eq_some hdrop
      obtain ⟨e, he⟩ := h.known id r hpeek
      have hentry := hrows id e.rowsResolved (by
        rw [reportedRows_insert, if_neg hne, hdrop, Option.map_some, if_pos rfl, he]
        rfl)
      have hlive := h.rows id r.rowsResolved (reportedRows_of_peek h.known hpeek)
      rw [he, Option.map_some, hentry, hlive]
  · rintro ⟨hfirst, hdropped⟩ a n hn
    rw [reportedRows_insert] at hn
    split at hn
    · -- The new module: what was reported of its debug-id before was no row.
      next ha =>
        cases hn
        subst ha
        cases hrep : c.reportedRows m.debugId with
        | none =>
            have habsent := h.absent _ hrep
            rw [List.count_eq_zero_of_not_mem habsent]
            rfl
        | some n =>
            rw [← hfirst n hrep]
            exact h.rows _ n hrep
    · split at hn
      · -- The module that `put` dropped: its entry has the count.
        next ha hdrop =>
          obtain ⟨⟨id, r⟩, hid, rfl⟩ := Option.map_eq_some_iff.mp hdrop
          rw [hdropped id r hid] at hn
          cases hn
          exact h.rows id _ (reportedRows_of_peek h.known (LruCache.dropped_eq_some hid).1)
      · exact h.rows a n hn

theorem counted_new (maxBytes : UInt64) (maxModules : Nat) :
    Counted (new maxBytes maxModules) [] :=
  ⟨known_invariant.new maxBytes maxModules, fun _ _ h => (by cases h),
    fun _ _ => List.not_mem_nil⟩

theorem Counted.touch {c : SymbolCache} {answers : List String} (h : Counted c answers)
    (now : UInt64) {token d : String} {r : Resident} (hid : c.resolveDebugId token = some d)
    (hd : c.resident.peek d = some r) : Counted (c.touch now token) (answers ++ [d]) where
  known := known_invariant.touch h.known now token
  rows := (rowsAre_touch_iff h.known now hid hd answers).mpr h.rows
  absent a ha := by
    rw [reportedRows_touch h.known now hid hd] at ha
    split at ha
    · cases ha
    · next hne => simpa [hne] using h.absent a ha

theorem Counted.recordMiss {c : SymbolCache} {answers : List String} (h : Counted c answers)
    (now : UInt64) (token : String) : Counted (c.recordMiss now token) answers where
  known := known_invariant.recordMiss h.known now token
  rows a n hn := by
    rw [reportedRows_recordMiss h.known] at hn
    cases hrep : c.reportedRows a with
    | some n' =>
        rw [hrep, Option.some_or] at hn
        cases hn
        exact h.rows a n hrep
    | none =>
        rw [hrep, Option.none_or] at hn
        split at hn
        · cases hn
          rw [List.count_eq_zero_of_not_mem (h.absent a hrep)]
          rfl
        · cases hn
  absent a ha := by
    rw [reportedRows_recordMiss h.known, Option.or_eq_none_iff] at ha
    exact h.absent a ha.1

theorem Counted.insert {c : SymbolCache} {answers : List String} (h : Counted c answers)
    {m : ParsedModule} (hm : c.KeepsCounts m) (now : UInt64) (origin : Origin) :
    Counted (c.insert now m origin).2 answers where
  known := known_invariant.insert h.known now m origin
  rows := (rowsAre_insert_iff h now m origin).mpr hm
  absent a ha := by
    rw [reportedRows_insert] at ha
    split at ha
    · cases ha
    · split at ha
      · next hdrop =>
          obtain ⟨⟨id, r⟩, hid, rfl⟩ := Option.map_eq_some_iff.mp hdrop
          rw [hm.2 id r hid] at ha
          cases ha
      · exact h.absent a ha

theorem Counted.evict {c : SymbolCache} {answers : List String} (h : Counted c answers)
    (token : Option String) : Counted (c.evict token).2 answers := by
  have hrows : (c.evict token).2.reportedRows = c.reportedRows := by
    funext d
    rw [reportedRows, reported_evict, reportedRows]
  refine ⟨h.known.evicted (evicted_evict c token), fun d n hn => ?_, fun d hd => ?_⟩
  · rw [hrows] at hn
    exact h.rows d n hn
  · rw [hrows] at hd
    exact h.absent d hd

/-! ## Status and manifest -/

/-- The rows of `cache_status` and the entries of the manifest tell how often each debug-id
answered. -/
def CountsHold (c : SymbolCache) (sources : List SourceSpec) (answers : List String) : Prop :=
  (∀ row ∈ c.status, row.rowsResolved = (UInt64.ofNat (answers.count row.debugId)).toInt64) ∧
    ∀ e ∈ (c.toManifest sources).1.entries,
      e.rowsResolved = UInt64.ofNat (answers.count e.debugId)

instance (c : SymbolCache) (sources : List SourceSpec) (answers : List String) :
    Decidable (CountsHold c sources answers) :=
  inferInstanceAs (Decidable ((∀ row ∈ c.status,
      row.rowsResolved = (UInt64.ofNat (answers.count row.debugId)).toInt64) ∧
    ∀ e ∈ (c.toManifest sources).1.entries,
      e.rowsResolved = UInt64.ofNat (answers.count e.debugId)))

/-- Both tell of a debug-id what is reported of it. -/
theorem countsHold_iff {c : SymbolCache} (hkeyed : Keyed c) (hknown : Known c)
    (sources : List SourceSpec) (answers : List String) :
    CountsHold c sources answers ↔ RowsAre c answers := by
  constructor
  · rintro ⟨-, hexport⟩ d n hn
    obtain ⟨e, he, rfl⟩ := Option.map_eq_some_iff.mp hn
    have h := hexport e (mem_entries_toManifest.mpr ⟨d, he⟩)
    obtain ⟨e₀, he₀, rfl⟩ := reported_eq_some.mp he
    rw [debugId_live, hkeyed d e₀ he₀] at h
    exact h
  · intro hrows
    constructor
    · intro row hrow
      -- A row of the status is a resident module's, or the entry's of one that is not resident.
      rcases List.mem_append.mp hrow with hrow | hrow
      · obtain ⟨⟨d, r⟩, hmem, rfl⟩ := List.mem_map.mp hrow
        have hd : c.resident.peek d = some r := AList.mem_lookup_iff.mpr hmem
        exact congrArg UInt64.toInt64 (hrows d _ (reportedRows_of_peek hknown hd))
      · obtain ⟨⟨d, e⟩, hmem, rfl⟩ := List.mem_map.mp hrow
        obtain ⟨hmem, hres⟩ := List.mem_filter.mp hmem
        have hd : c.resident.peek d = none := by simpa [LruCache.contains] using hres
        have he : c.entries.lookup d = some e := AList.mem_lookup_iff.mpr hmem
        refine congrArg UInt64.toInt64 (hrows d _ ?_)
        rw [reportedRows_of_peek_eq_none hd, he, Option.map_some]
    · intro e he
      obtain ⟨d, hd⟩ := mem_entries_toManifest.mp he
      have h := hrows d e.rowsResolved (by rw [reportedRows, hd, Option.map_some])
      obtain ⟨e₀, he₀, rfl⟩ := reported_eq_some.mp hd
      rw [debugId_live, hkeyed d e₀ he₀]
      exact h

end SymbolCache

end VgiSymbols
