import VgiSymbols.Source.Interrupted
import VgiSymbols.State.Isolation

set_option autoImplicit false

/-! # Lookups that unwind

A lookup unwinds when a probe panics while the sources are indexed. The worker recovers the lock
and goes on with the state that was left. `PanicAtomic` says that this state is as good as the
one before: the registry is indexed source by source, the cache is as it was, and whatever is
called next is answered as if the lookup had not been made. `panicAtomic_iff` says when.
-/

namespace VgiSymbols

open Unwind SourceRegistry

namespace SymbolsState

/-- The call came back. Only lookups can unwind. -/
def Reply.Returns : Reply → Prop
  | .frames out => out.Returns
  | .name out => out.Returns
  | .added _ | .dropped _ | .freed _ | .done => True

instance (r : Reply) : Decidable r.Returns :=
  match r with
  | .frames out => inferInstanceAs (Decidable out.Returns)
  | .name out => inferInstanceAs (Decidable out.Returns)
  | .added _ | .dropped _ | .freed _ | .done => .isTrue trivial

/-- What is left of an operation that unwound: sources that are indexed whole or not at all, and
the cache. Where the sources that came back list the same as before, every call is answered as if
the operation had not been made. -/
structure PanicAtomic (rd : Readers) (s : SymbolsState) (i : World × Op) : Prop where
  indexed : IndexedWhole rd i.1.fs s.sources (step rd s i).sources
  cache : (step rd s i).cache = s.cache
  answers : ∀ (rd' : Readers) (w' : World), ListSame rd i.1.fs rd' w'.fs s.sources.pending →
    ∀ op, reply rd' (step rd s i) (w', op) = reply rd' s (w', op)

variable {rd : Readers} {w : World} {s : SymbolsState} {i : World × Op}

/-- **A lookup unwinds in indexing the sources**, and leaves the rest of the state alone. -/
theorem lookup_unwound {token : String} (h : ¬ (s.lookup rd w token).1.Returns) :
    ¬ ListsReturn rd w.fs s.sources.pending ∧
      (s.lookup rd w token).2 = { s with sources := (s.sources.ensureIndexed rd w.fs).2 } := by
  have hlooked := looked_lookup rd w s token
  generalize (s.lookup rd w token).2 = s' at hlooked ⊢
  generalize s.parseAttempt rd w token = attempt at hlooked
  generalize (s.lookup rd w token).1 = out at h hlooked
  cases hlooked with
  | unwound hr hm hl =>
      refine ⟨fun hlists => h ?_, ?_⟩
      · have hreturns : (s.sources.locate rd w.fs token).1.Returns :=
          locate_returns_iff.mpr hlists
        rw [hl] at hreturns
        exact absurd hreturns not_returns_panicked
      · rw [eq_ensureIndexed_of_locate hl]
  | hit | miss | absent | failed | parsed | lost => exact absurd (returns_returned _) h

theorem step_unwound (h : ¬ (reply rd s i).Returns) :
    ¬ ListsReturn rd i.1.fs s.sources.pending ∧
      step rd s i = { s with sources := (s.sources.ensureIndexed rd i.1.fs).2 } := by
  obtain ⟨w, op⟩ := i
  cases op with
  | resolve token addr =>
      have hout : ¬ (s.resolve rd w token addr).1.Returns := h
      rw [resolve_returns_iff] at hout
      rw [step_resolve]
      exact lookup_unwound hout
  | functionName token addr =>
      have hout : ¬ (s.functionName rd w token addr).1.Returns := h
      rw [functionName_returns_iff] at hout
      rw [step_functionName]
      exact lookup_unwound hout
  | addSource kind path url bucket enabled secret => exact absurd trivial h
  | dropSource sourceId => exact absurd trivial h
  | cacheEvict token => exact absurd trivial h
  | importManifest manifest => exact absurd trivial h
  | restart maxBytes maxModules => exact absurd trivial h

/-- A registry that is ahead gives the same replies. -/
theorem reply_of_ahead {sources : SourceRegistry} (hsources : sources.Ahead rd w.fs s.sources)
    (op : Op) : reply rd { s with sources := sources } (w, op) = reply rd s (w, op) := by
  -- The cache is the same, so the states are indistinct off any token but the one looked up.
  have hsame : ∀ u, Indistinct rd w.fs u { s with sources := sources } s := fun u =>
    ⟨hsources, SymbolCache.AgreeOff.refl u s.cache, rfl⟩
  have hother : ∀ t : String, ∃ u, t ≠ u := fun t =>
    if h : t = "" then ⟨"0", by rw [h]; decide⟩ else ⟨"", h⟩
  cases op with
  | addSource kind path url bucket enabled secret =>
      simp only [reply, addSource_fst]
      exact congrArg Reply.added (add_same hsources.nextId kind path url bucket enabled secret).1
  | dropSource sourceId => exact congrArg Reply.dropped (hsources.dropSource sourceId).1
  | resolve token addr =>
      obtain ⟨u, hu⟩ := hother (canonicalToken token)
      have hout := ((hsame u).lookup hu).1
      simp only [reply, resolve_eq_lookup, hout]
  | functionName token addr =>
      obtain ⟨u, hu⟩ := hother (canonicalToken token)
      have hout := ((hsame u).lookup hu).1
      simp only [reply, functionName_eq_lookup, hout]
  | cacheEvict token => rfl
  | importManifest manifest => rfl
  | restart maxBytes maxModules => rfl

/-- **When a panic leaves the state consistent.** A lookup that unwinds is as good as none
exactly when no pending source, from the one on whose listing unwound, has the id of one that was
listed before it. -/
theorem panicAtomic_iff (h : ¬ (reply rd s i).Returns) :
    PanicAtomic rd s i ↔ SharesNoId rd i.1.fs s.sources.pending := by
  obtain ⟨hlists, hstep⟩ := step_unwound h
  have hreturn : ¬ ∀ s' ∈ s.sources.pending, (s'.list rd i.1.fs).Returns :=
    fun hall => hlists fun s' hs' _ => hall s' hs'
  constructor
  · rintro ⟨hindexed, -, -⟩ done bad rest hpending hdone hbad
    rw [hstep, ensureIndexed_interrupted hpending hdone hbad] at hindexed
    exact (indexedWhole_iff hpending hdone hbad).mp hindexed
  · intro hids
    obtain ⟨done, bad, rest, hpending, hdone, hbad⟩ := exists_interruption hreturn
    have hapart := hids done bad rest hpending hdone hbad
    rw [ensureIndexed_interrupted hpending hdone hbad] at hstep
    refine ⟨?_, by rw [hstep], fun rd' w' hsame op => ?_⟩
    · rw [hstep]
      exact (indexedWhole_iff hpending hdone hbad).mpr hapart
    · rw [hstep]
      exact reply_of_ahead (ahead_interrupted hpending hdone hapart hsame) op

/-- The file `d/a` is a source of its own, and so is `d/b`, which makes the probe panic. -/
theorem panicAtomic_goodAndHostile :
    PanicAtomic StandIn.hostileReaders
      (runOps StandIn.hostileReaders new
        [(⟨StandIn.goodAndHostile 5, 0⟩, .addSource "dir" (some "d/a") none none none none),
          (⟨StandIn.goodAndHostile 5, 1⟩, .addSource "dir" (some "d/b") none none none none)])
      (⟨StandIn.goodAndHostile 5, 2⟩, .resolve (StandIn.token 0x11) 4) :=
  (panicAtomic_iff (by decide +kernel)).mpr (sharesNoId_of_nodup (by decide +kernel))

/-- The sources `e` and `d/a` are imported under the last two numbers, the counter wraps, and
`d/b` gets the id of `d/a`. A lookup panics in probing `d/b`; when the file is a good one later,
it is not found. -/
theorem not_panicAtomic_lastNumbers :
    ¬ ∀ (ops : List (World × Op)) (i : World × Op),
      ¬ (reply StandIn.hostileReaders (runOps StandIn.hostileReaders new ops) i).Returns →
      PanicAtomic StandIn.hostileReaders (runOps StandIn.hostileReaders new ops) i := by
  intro h
  have hatomic := h
    [(⟨StandIn.goodAndHostile 5, 0⟩, .importManifest
        { sources := [StandIn.dirSource "src18446744073709551614" "e",
            StandIn.dirSource "src18446744073709551615" "d/a"]
          entries := [] }),
      (⟨StandIn.goodAndHostile 5, 1⟩, .addSource "dir" (some "d/b") none none none none)]
    (⟨StandIn.goodAndHostile 5, 2⟩, .resolve (StandIn.token 0x11) 4) (by decide +kernel)
  have hreply := hatomic.answers StandIn.hostileReaders ⟨StandIn.goodAndHostile 1, 3⟩
    (by decide +kernel) (.resolve (StandIn.token 0x22) 4)
  have hframes := Reply.frames.inj hreply
  revert hframes
  decide +kernel

end SymbolsState

end VgiSymbols
