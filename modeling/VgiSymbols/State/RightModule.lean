import VgiSymbols.State.Lookup

set_option autoImplicit false

/-! # Does the answering module carry the token?

A lookup goes from the token through the alias table to a debug-id and from there to the
resident module. The alias table outlives the modules it was filled from, so the link breaks
when a module is stored under the debug-id of another one that carried more names.
`rightModules_run_iff` says exactly which runs keep it.
-/

namespace VgiSymbols

open Unwind

variable {rd : Readers}

/-! ## The links of the cache -/

namespace SymbolCache

/-- Alias keys are canonical tokens, and a resident module is stored under its debug-id. -/
structure Linked (c : SymbolCache) : Prop where
  aliases : ∀ k d, c.aliases.lookup k = some d → canonicalToken k = k
  resident : ∀ d r, c.resident.peek d = some r → r.module.debugId = d

/-- Every token that leads to a resident module is one of its aliases. -/
def RightModules (c : SymbolCache) : Prop :=
  ∀ token r, c.reached token = some r → canonicalToken token ∈ r.module.identity.aliases

theorem linked_new (maxBytes : UInt64) (maxModules : Nat) : (new maxBytes maxModules).Linked :=
  ⟨fun _ _ h => (by cases h), fun _ _ h => (by cases h)⟩

theorem rightModules_new (maxBytes : UInt64) (maxModules : Nat) :
    (new maxBytes maxModules).RightModules :=
  fun token r h => by cases h

theorem Linked.touch {c : SymbolCache} (h : c.Linked) (now : UInt64) (token : String) :
    (c.touch now token).Linked where
  aliases k d hd := h.aliases k d (by simpa using hd)
  resident d r hr := by
    obtain ⟨r₀, hr₀, hm, -⟩ := exists_of_peek_touch hr
    rw [← hm]
    exact h.resident d r₀ hr₀

theorem Linked.evicted {c c' : SymbolCache} (h : c.Linked) (he : Evicted c c') : c'.Linked where
  aliases k d hd := h.aliases k d (he.aliases ▸ hd)
  resident d r hr := h.resident d r (he.peek d r hr)

theorem Linked.recordMiss {c : SymbolCache} (h : c.Linked) (now : UInt64) (token : String) :
    (c.recordMiss now token).Linked where
  aliases k d hd := by
    rw [lookup_aliases_recordMiss] at hd
    cases hk : c.aliases.lookup k with
    | some d' => exact h.aliases k d' hk
    | none =>
        rw [hk, Option.none_or] at hd
        split at hd
        · next heq => rw [heq, canonicalToken_idem]
        · cases hd
  resident := h.resident

theorem Linked.insert {c : SymbolCache} (h : c.Linked) (now : UInt64) (m : ParsedModule)
    (origin : Origin) : (c.insert now m origin).2.Linked where
  aliases k d hd := by
    rw [lookup_aliases_insert] at hd
    split at hd
    · next hk => exact Identity.canonicalToken_of_mem_aliases hk
    · exact h.aliases k d hd
  resident d r hr := by
    by_cases hd : d = m.debugId
    · rw [hd, peek_insert_self] at hr
      cases hr
      exact hd.symm
    · exact h.resident d r (peek_of_insert_ne hd hr)

theorem Linked.rehydrateEntry {c : SymbolCache} (h : c.Linked) (e : ManifestEntry) :
    (c.rehydrateEntry e).Linked where
  aliases k d hd := by
    rw [lookup_aliases_rehydrateEntry] at hd
    split at hd
    · next heq => rw [heq, canonicalToken_idem]
    · exact h.aliases k d hd
  resident := h.resident

theorem RightModules.touch {c : SymbolCache} (h : c.RightModules) (now : UInt64)
    (token : String) : (c.touch now token).RightModules := by
  intro t r hr
  obtain ⟨r₀, hr₀, hm⟩ := exists_of_reached_touch hr
  rw [← hm]
  exact h t r₀ hr₀

theorem RightModules.evicted {c c' : SymbolCache} (h : c.RightModules) (he : Evicted c c') :
    c'.RightModules := by
  intro token r hr
  obtain ⟨d, ha, hd⟩ := reached_eq_some.mp hr
  exact h token r (reached_eq_some.mpr ⟨d, he.aliases ▸ ha, he.peek d r hd⟩)

/-- A new alias of a canonical token to itself leads, if anywhere, to the module of that
debug-id. -/
theorem Linked.mem_aliases_of_self {c : SymbolCache} (h : c.Linked) {k d : String}
    (hd : canonicalToken d = k) {r : Resident} (hr : c.resident.peek d = some r) :
    k ∈ r.module.identity.aliases := by
  have hid := h.resident d r hr
  rw [← hd, ← hid, ParsedModule.debugId, Identity.canonicalToken_debugIdStr]
  exact Identity.debugIdStr_mem_aliases _

theorem RightModules.recordMiss {c : SymbolCache} (h : c.RightModules) (hlink : c.Linked)
    (now : UInt64) (token : String) : (c.recordMiss now token).RightModules := by
  intro t r hr
  obtain ⟨d, ha, hd⟩ := reached_eq_some.mp hr
  rw [lookup_aliases_recordMiss] at ha
  cases hk : c.aliases.lookup (canonicalToken t) with
  | some d' =>
      rw [hk, Option.some_or] at ha
      cases ha
      exact h t r (reached_eq_some.mpr ⟨d, hk, hd⟩)
  | none =>
      rw [hk, Option.none_or] at ha
      split at ha
      · next heq =>
          cases ha
          exact hlink.mem_aliases_of_self (by rw [heq, canonicalToken_idem]) hd
      · cases ha

theorem RightModules.rehydrateEntry {c : SymbolCache} (h : c.RightModules) (hlink : c.Linked)
    (e : ManifestEntry) : (c.rehydrateEntry e).RightModules := by
  intro t r hr
  obtain ⟨d, ha, hd⟩ := reached_eq_some.mp hr
  rw [lookup_aliases_rehydrateEntry] at ha
  split at ha
  · next heq =>
      cases ha
      exact hlink.mem_aliases_of_self heq.symm hd
  · exact h t r (reached_eq_some.mpr ⟨d, ha, hd⟩)

/-- **When an insert keeps the links**: every token that was an alias of the debug-id is an
alias of the new module. -/
theorem rightModules_insert_iff {c : SymbolCache} (h : c.RightModules) (hlink : c.Linked)
    (now : UInt64) (m : ParsedModule) (origin : Origin) :
    (c.insert now m origin).2.RightModules ↔
      ∀ k, c.aliases.lookup k = some m.debugId → k ∈ m.identity.aliases := by
  constructor
  · intro hright k hk
    by_contra hmem
    have hcanon := hlink.aliases k _ hk
    have hreach : (c.insert now m origin).2.reached k = some (fresh now m) := by
      refine reached_eq_some.mpr ⟨m.debugId, ?_, peek_insert_self c now m origin⟩
      rw [hcanon, lookup_aliases_insert, if_neg hmem, hk]
    have := hright k _ hreach
    rw [hcanon] at this
    exact hmem this
  · intro hcond token r hr
    obtain ⟨d, ha, hd⟩ := reached_eq_some.mp hr
    rw [lookup_aliases_insert] at ha
    split at ha
    · next hmem =>
        obtain rfl := Option.some.inj ha
        rw [peek_insert_self] at hd
        cases hd
        exact hmem
    · next hmem =>
        have hne : d ≠ m.debugId := fun heq => hmem (hcond _ (heq ▸ ha))
        exact h token r (reached_eq_some.mpr ⟨d, ha, peek_of_insert_ne hne hd⟩)

end SymbolCache

/-! ## Runs -/

namespace SymbolsState

/-- The step, if it parses a module, finds in the alias table no token for its debug-id that the
module does not carry. -/
def KeepsNames (rd : Readers) (s : SymbolsState) (i : World × Op) : Prop :=
  ∀ token located m, i.2.token? = some token → s.parseAttempt rd i.1 token = some located →
    ParsedModule.parse rd located.data located.name s.limits = .ok m →
    ∀ k, s.cache.aliases.lookup k = some m.debugId → k ∈ m.identity.aliases

/-- If the step is a lookup that a module answers, the module carries the token. -/
def AnsweredRight (rd : Readers) (s : SymbolsState) (i : World × Op) : Prop :=
  ∀ token m, i.2.token? = some token → (s.lookup rd i.1 token).1 = .returned (.module m) →
    canonicalToken token ∈ m.identity.aliases

theorem linked_looked {w : World} {s s' : SymbolsState} {token : String}
    {attempt : Option Located} {out : Unwind Answer} (hlink : s.cache.Linked)
    (h : Looked rd w s token attempt out s') : s'.cache.Linked := by
  cases h with
  | hit hr => exact hlink.touch w.now token
  | miss hr hm => exact hlink
  | unwound hr hm hl => exact hlink
  | absent hr hm hl => exact hlink.recordMiss w.now token
  | failed hr hm hl hp => exact hlink
  | parsed hr hm hl hp hr' => exact (hlink.insert w.now _ _).touch w.now token
  | lost hr hm hl hp hr' => exact hlink.insert w.now _ _

theorem rightModules_touch_iff {c : SymbolCache} {now : UInt64} {token : String} :
    (c.touch now token).RightModules ↔ c.RightModules := by
  refine ⟨fun h t r hr => ?_, fun h => h.touch now token⟩
  obtain ⟨r', hr', hm⟩ := SymbolCache.exists_reached_touch hr now token
  rw [← hm]
  exact h t r' hr'

theorem rightModules_looked_iff {w : World} {s s' : SymbolsState} {token : String}
    {attempt : Option Located} {out : Unwind Answer} (hright : s.cache.RightModules)
    (hlink : s.cache.Linked) (h : Looked rd w s token attempt out s') :
    s'.cache.RightModules ↔
      ∀ located m, attempt = some located →
        ParsedModule.parse rd located.data located.name s.limits = .ok m →
        ∀ k, s.cache.aliases.lookup k = some m.debugId → k ∈ m.identity.aliases := by
  -- without a parsed module both sides hold
  have hnone : s'.cache.RightModules → attempt = none → (s'.cache.RightModules ↔
      ∀ located m, attempt = some located →
        ParsedModule.parse rd located.data located.name s.limits = .ok m →
        ∀ k, s.cache.aliases.lookup k = some m.debugId → k ∈ m.identity.aliases) := by
    rintro hs' rfl
    exact ⟨fun _ _ _ h => (by cases h), fun _ => hs'⟩
  have hinsert : ∀ {located : Located} {m : ParsedModule},
      ParsedModule.parse rd located.data located.name s.limits = .ok m →
      ((s.cache.insert w.now m located.origin).2.RightModules ↔
        ∀ located' m', some located = some located' →
          ParsedModule.parse rd located'.data located'.name s.limits = .ok m' →
          ∀ k, s.cache.aliases.lookup k = some m'.debugId → k ∈ m'.identity.aliases) := by
    intro located m hp
    rw [SymbolCache.rightModules_insert_iff hright hlink]
    refine ⟨fun hcond located' m' heq hp' => ?_, fun hcond => hcond located m rfl hp⟩
    cases heq
    rw [hp] at hp'
    cases hp'
    exact hcond
  cases h with
  | hit hr => exact hnone (hright.touch w.now token) rfl
  | miss hr hm => exact hnone hright rfl
  | unwound hr hm hl => exact hnone hright rfl
  | absent hr hm hl => exact hnone (hright.recordMiss hlink w.now token) rfl
  | failed hr hm hl hp =>
      refine ⟨fun _ located m heq hp' => ?_, fun _ => hright⟩
      cases heq
      rw [hp] at hp'
      cases hp'
  | parsed hr hm hl hp hr' => exact rightModules_touch_iff.trans (hinsert hp)
  | lost hr hm hl hp hr' => exact hinsert hp

/-- The module a lookup answered with is reached by its token afterwards. -/
theorem reached_of_looked {w : World} {s s' : SymbolsState} {token : String}
    {attempt : Option Located} {out : Unwind Answer} {m : ParsedModule}
    (h : Looked rd w s token attempt out s') (hout : out = .returned (.module m)) :
    ∃ r, s'.cache.reached token = some r ∧ r.module = m := by
  cases h with
  | hit hr =>
      cases hout
      exact SymbolCache.exists_reached_touch hr _ _
  | miss hr hm => cases hout
  | unwound hr hm hl => cases hout
  | absent hr hm hl => cases hout
  | failed hr hm hl hp => cases hout
  | parsed hr hm hl hp hr' =>
      cases hout
      exact SymbolCache.exists_reached_touch hr' _ _
  | lost hr hm hl hp hr' => cases hout

/-- The links hold, and tokens lead to modules that carry them. -/
def LinkedRight (s : SymbolsState) : Prop := s.cache.Linked ∧ s.cache.RightModules

theorem linkedRight_withBudgets (maxBytes : UInt64) (maxModules : Nat) :
    (withBudgets maxBytes maxModules).LinkedRight :=
  ⟨SymbolCache.linked_new _ _, SymbolCache.rightModules_new _ _⟩

theorem linkedRight_rehydrate {c : SymbolCache} (h : c.Linked ∧ c.RightModules)
    (manifest : CacheManifest) :
    (c.rehydrate manifest).Linked ∧ (c.rehydrate manifest).RightModules :=
  SymbolCache.rehydrate_induction (P := fun c => c.Linked ∧ c.RightModules)
    (Q := fun _ => True)
    (fun _ e hc _ => ⟨hc.1.rehydrateEntry e, hc.2.rehydrateEntry hc.1 e⟩) h fun _ _ => trivial

/-- Steps that are no lookup keep the links. -/
theorem linkedRight_step_of_token_eq_none {s : SymbolsState} (hs : s.LinkedRight)
    {i : World × Op} (hi : i.2.token? = none) : (step rd s i).LinkedRight := by
  obtain ⟨w, op⟩ := i
  cases op with
  | addSource kind path url bucket enabled secret =>
      rw [step, LinkedRight, cache_addSource]
      exact hs
  | dropSource sourceId =>
      rw [step, LinkedRight, cache_dropSource]
      exact hs
  | resolve token addr => cases hi
  | functionName token addr => cases hi
  | cacheEvict token =>
      have he := SymbolCache.evicted_evict s.cache token
      exact ⟨hs.1.evicted he, hs.2.evicted he⟩
  | importManifest manifest => exact linkedRight_rehydrate hs manifest
  | restart maxBytes maxModules =>
      exact linkedRight_rehydrate
        ⟨SymbolCache.linked_new _ _, SymbolCache.rightModules_new _ _⟩ _

/-- One step keeps the links exactly when it keeps the names. -/
theorem linkedRight_step_iff {s : SymbolsState} (hs : s.LinkedRight) (i : World × Op) :
    (step rd s i).LinkedRight ↔ KeepsNames rd s i := by
  cases hi : i.2.token? with
  | none =>
      refine ⟨fun _ token located m h => ?_, fun _ => linkedRight_step_of_token_eq_none hs hi⟩
      rw [hi] at h
      cases h
  | some token =>
      have hlooked := looked_lookup rd i.1 s token
      rw [step_of_token_eq_some hi, LinkedRight,
        rightModules_looked_iff hs.2 hs.1 hlooked]
      constructor
      · rintro ⟨-, h⟩ token' located m ht
        rw [hi] at ht
        cases ht
        exact h located m
      · exact fun h => ⟨linked_looked hs.1 hlooked, fun located m => h token located m hi⟩

theorem answeredRight_of_step {s : SymbolsState} {i : World × Op}
    (h : (step rd s i).LinkedRight) : AnsweredRight rd s i := by
  intro token m hi hout
  rw [step_of_token_eq_some hi] at h
  obtain ⟨r, hr, rfl⟩ := reached_of_looked (looked_lookup rd i.1 s token) hout
  exact h.2 token r hr

/-- **Exactly which runs answer from the right module.** After every step each token leads only
to modules that carry it, and every answer of the run came from such a module, if and only if
no module was stored under a debug-id for which the alias table had a name it does not carry. -/
theorem rightModules_run_iff (rd : Readers) (maxBytes : UInt64) (maxModules : Nat)
    (ops : List (World × Op)) :
    Run.MeetsAlong (step rd)
        (fun s i => (step rd s i).cache.RightModules ∧ AnsweredRight rd s i)
        (withBudgets maxBytes maxModules) ops ↔
      Run.MeetsAlong (step rd) (KeepsNames rd) (withBudgets maxBytes maxModules) ops := by
  refine Run.meetsAlong_congr (J := LinkedRight) (C := KeepsNames rd)
    (fun s i hs hc => (linkedRight_step_iff hs i).mpr hc) (fun s i hs => ?_)
    (linkedRight_withBudgets maxBytes maxModules) ops
  constructor
  · rintro ⟨hright, -⟩
    refine (linkedRight_step_iff hs i).mp ⟨?_, hright⟩
    cases hi : i.2.token? with
    | none => exact (linkedRight_step_of_token_eq_none hs hi).1
    | some token =>
        rw [step_of_token_eq_some hi]
        exact linked_looked hs.1 (looked_lookup rd i.1 s token)
  · intro hc
    have h := (linkedRight_step_iff hs i).mpr hc
    exact ⟨h.2, answeredRight_of_step h⟩

/-- Two images of one debug-id: when both were looked up by their raw build-ids, the token of the
first is answered by the second, which does not carry it. -/
theorem not_answered_right_sharedPrefix :
    ¬ ∀ (ops : List (World × Op)) (w : World) (token : String) (m : ParsedModule),
      ((runOps StandIn.readers (withBudgets 4096 4) ops).lookup StandIn.readers w token).1
        = .returned (.module m) → canonicalToken token ∈ m.identity.aliases := by
  intro h
  let w : World := ⟨StandIn.sharedPrefix, 0⟩
  let ops : List (World × Op) :=
    [(w, .addSource "dir" (some "d") none none none none),
      (w, .resolve (StandIn.rawToken 0xaa) 4), (w, .resolve (StandIn.rawToken 0xbb) 4)]
  have hex : ((runOps StandIn.readers (withBudgets 4096 4) ops).cache.reached
      (StandIn.rawToken 0xaa)).any (fun r =>
        decide (canonicalToken (StandIn.rawToken 0xaa) ∉ r.module.identity.aliases)) = true := by
    decide +kernel
  cases hr : (runOps StandIn.readers (withBudgets 4096 4) ops).cache.reached
      (StandIn.rawToken 0xaa) with
  | none =>
      rw [hr] at hex
      cases hex
  | some r =>
      rw [hr, Option.any_some, decide_eq_true_eq] at hex
      exact hex (h ops w (StandIn.rawToken 0xaa) r.module (by rw [lookup_of_reached hr]))

end SymbolsState

end VgiSymbols
