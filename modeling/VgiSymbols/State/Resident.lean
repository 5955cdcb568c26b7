import VgiSymbols.State.Lookup

set_option autoImplicit false

/-! # What `ensureResident` ensures

A token is looked up in the index, which has the aliases a file had when it was indexed, and the
module is stored under the aliases of the file as it is read. Between the two the file may have
been replaced. `Ensured` is what the caller of `ensureResident` relies on, and `ensured_iff` says
when it can: when the file found for the token still answers to it.
-/

namespace VgiSymbols

open Unwind

variable {rd : Readers}

/-- After an insert a token is resident that is among the aliases of the module, or that was one
of them before. -/
theorem SymbolCache.isResident_insert_iff {c : SymbolCache} {token : String}
    (hnot : ¬ c.isResident token = true) (now : UInt64) (m : ParsedModule) (origin : Origin) :
    (c.insert now m origin).2.isResident token = true ↔
      canonicalToken token ∈ m.identity.aliases ∨
        c.aliases.lookup (canonicalToken token) = some m.debugId := by
  by_cases hmem : canonicalToken token ∈ m.identity.aliases
  · exact iff_of_true (isResident_iff.mpr ⟨_, reached_insert_of_mem hmem⟩) (Or.inl hmem)
  · rw [isResident_iff, or_iff_right hmem]
    constructor
    · rintro ⟨r, hr⟩
      obtain ⟨d, hd, hpeek⟩ := reached_eq_some.mp hr
      rw [lookup_aliases_insert, if_neg hmem] at hd
      by_cases heq : d = m.debugId
      · rw [hd, heq]
      · -- another module answers, and did so before
        have hbefore := peek_of_insert_ne heq hpeek
        exact absurd (isResident_iff.mpr ⟨r, reached_eq_some.mpr ⟨d, hd, hbefore⟩⟩) hnot
    · intro hd
      refine ⟨_, reached_eq_some.mpr ⟨m.debugId, ?_, peek_insert_self c now m origin⟩⟩
      rw [lookup_aliases_insert, if_neg hmem, hd]

namespace SymbolsState

/-- What a call of `ensureResident` from state `s` promises: a resident module when it returns
true, a known miss when it returns false, and a cache that is left alone when it fails. -/
structure Ensured (s : SymbolsState) (token : String)
    (out : Unwind (Except ErrorKind Bool) × SymbolsState) : Prop where
  resident : out.1 = .returned (.ok true) → out.2.cache.isResident token = true
  missed : out.1 = .returned (.ok false) → out.2.cache.isKnownMiss token = true
  failed : ∀ kind, out.1 = .returned (.error kind) → out.2.cache = s.cache

theorem ensured_true_iff {s s' : SymbolsState} {token : String} :
    Ensured s token (.returned (.ok true), s') ↔ s'.cache.isResident token = true := by
  refine ⟨fun h => h.resident rfl, fun h => ⟨fun _ => h, fun heq => ?_, fun kind heq => ?_⟩⟩ <;>
    cases heq

theorem ensured_false {s s' : SymbolsState} {token : String}
    (h : s'.cache.isKnownMiss token = true) : Ensured s token (.returned (.ok false), s') := by
  refine ⟨fun heq => ?_, fun _ => h, fun kind heq => ?_⟩ <;> cases heq

theorem ensured_error {s s' : SymbolsState} {token : String} {kind : ErrorKind}
    (h : s'.cache = s.cache) : Ensured s token (.returned (.error kind), s') := by
  refine ⟨fun heq => ?_, fun heq => ?_, fun _ _ => h⟩ <;> cases heq

theorem ensured_panicked {s s' : SymbolsState} {token : String} :
    Ensured s token (.panicked, s') := by
  refine ⟨fun heq => ?_, fun heq => ?_, fun kind heq => ?_⟩ <;> cases heq

/-- The file that the index or the pending sources have for a token which is neither resident nor
a known miss still answers to the token, if it is a debug file; or the token is known as an alias
of what it has become. -/
def StillAnswers (rd : Readers) (w : World) (s : SymbolsState) (token : String) : Prop :=
  ¬ s.cache.isResident token = true → ¬ s.cache.isKnownMiss token = true →
    ListsReturn rd w.fs s.sources.pending →
    ∀ entry located m,
      (s.sources.index.lookup (canonicalToken token)).or
        (fileFor rd w.fs s.sources.pending (canonicalToken token)) = some entry →
      SourceRegistry.readLocated w.fs (canonicalToken token) entry = some located →
      ParsedModule.parse rd located.data located.name s.limits = .ok m →
      canonicalToken token ∈ m.identity.aliases ∨
        s.cache.aliases.lookup (canonicalToken token) = some m.debugId

/-- **When `ensureResident` ensures**, in every reachable state: when the file found for the token
still answers to it. -/
theorem ensured_iff (rd : Readers) (maxBytes : UInt64) (maxModules : Nat)
    (ops : List (World × Op)) (w : World) (token : String) :
    let s := runOps rd (withBudgets maxBytes maxModules) ops
    Ensured s token (s.ensureResident rd w token) ↔ StillAnswers rd w s token := by
  intro s
  unfold ensureResident
  by_cases hres : s.cache.isResident token = true
  · rw [if_pos hres]
    exact iff_of_true (ensured_true_iff.mpr hres) fun hnot => absurd hres hnot
  rw [if_neg hres]
  by_cases hmiss : s.cache.isKnownMiss token = true
  · rw [if_pos hmiss]
    exact iff_of_true (ensured_false hmiss) fun _ hnot => absurd hmiss hnot
  rw [if_neg hmiss]
  by_cases hlist : ListsReturn rd w.fs s.sources.pending
  · rw [SourceRegistry.locate_of_returns hlist]
    -- where no file is read and parsed, the condition asks for nothing
    have hnone : ∀ {P : Prop}, P →
        (∀ entry located m,
          (s.sources.index.lookup (canonicalToken token)).or
            (fileFor rd w.fs s.sources.pending (canonicalToken token)) = some entry →
          SourceRegistry.readLocated w.fs (canonicalToken token) entry = some located →
          ParsedModule.parse rd located.data located.name s.limits ≠ .ok m) →
        (P ↔ StillAnswers rd w s token) := by
      intro P hP hnot
      refine iff_of_true hP fun _ _ _ entry located m hentry hread hparse => ?_
      exact absurd hparse (hnot entry located m hentry hread)
    have hmissed : (s.cache.recordMiss w.now token).isKnownMiss token = true :=
      SymbolCache.isKnownMiss_iff.mpr (SymbolCache.mem_negative_recordMiss.mpr (Or.inl rfl))
    cases hentry : (s.sources.index.lookup (canonicalToken token)).or
        (fileFor rd w.fs s.sources.pending (canonicalToken token)) with
    | none =>
        refine hnone (ensured_false hmissed) fun entry located m h => ?_
        rw [hentry] at h
        cases h
    | some entry =>
        rw [Option.bind_some]
        cases hread : SourceRegistry.readLocated w.fs (canonicalToken token) entry with
        | none =>
            refine hnone (ensured_false hmissed) fun entry' located m h hread' => ?_
            cases hentry.symm.trans h
            rw [hread] at hread'
            cases hread'
        | some located =>
            cases hparse : ParsedModule.parse rd located.data located.name s.limits with
            | error e =>
                simp only [hparse]
                refine hnone (ensured_error rfl) fun entry' located' m h hread' hparse' => ?_
                cases hentry.symm.trans h
                cases hread.symm.trans hread'
                rw [hparse] at hparse'
                cases hparse'
            | ok m =>
                simp only [hparse]
                rw [ensured_true_iff, SymbolCache.isResident_insert_iff hres]
                constructor
                · intro hmem _ _ _ entry' located' m' h hread' hparse'
                  cases hentry.symm.trans h
                  cases hread.symm.trans hread'
                  cases hparse.symm.trans hparse'
                  exact hmem
                · intro h
                  exact h hres hmiss hlist entry located m hentry hread hparse
  · rw [SourceRegistry.locate_panicked hlist]
    exact iff_of_true ensured_panicked fun _ _ h => absurd h hlist

/-- A file that was replaced behind the index by one of another build: the call returns true and
its token is not resident. -/
theorem not_ensured_replaced :
    ¬ ∀ (ops : List (World × Op)) (w : World) (token : String),
      Ensured (runOps StandIn.readers (withBudgets 4096 4) ops) token
        ((runOps StandIn.readers (withBudgets 4096 4) ops).ensureResident StandIn.readers w
          token) := by
  intro h
  let w : World := ⟨StandIn.directory "d" [("d/a", 1 :: StandIn.buildId 0x11)], 0⟩
  let w' : World := ⟨StandIn.directory "d" [("d/a", 1 :: StandIn.buildId 0x22)], 1⟩
  have hkept := h [(w, .addSource "dir" (some "d") none none none none),
    (w, .functionName (StandIn.token 0x33) 4)] w' (StandIn.token 0x11)
  have hresident := hkept.resident
  revert hresident
  decide +kernel

end SymbolsState

end VgiSymbols
