import VgiSymbols.Source.Specs

set_option autoImplicit false

/-! # Registries that differ in what they indexed already

A lookup that fails leaves the registry indexed. `Ahead` compares it with the registry that did
not have that lookup: what the one indexed already, the other indexes the next time it locates a
file, and then the two are equal. Configuration changes keep them so, unless an enabled local source
is added under the id of one that is still to be indexed.
-/

namespace VgiSymbols

open Unwind

namespace SourceRegistry

variable {rd : Readers} {fs : FileSystem} {reg reg' : SourceRegistry}

/-- The registry with one more source. -/
def append (reg : SourceRegistry) (s : SourceSpec) (nextId : UInt64) : SourceRegistry :=
  { reg with sources := reg.sources ++ [s], nextId := nextId }

/-- The first registry indexed some of the sources that are pending in the second. -/
structure Ahead (rd : Readers) (fs : FileSystem) (reg reg' : SourceRegistry) : Prop where
  same : reg.ensureIndexed rd fs = reg'.ensureIndexed rd fs
  indexed : ∀ id ∈ reg'.indexed, id ∈ reg.indexed
  pending : ∀ id ∈ reg.indexed, id ∈ reg'.indexed ∨ ∃ s ∈ reg'.pending, s.sourceId = id

theorem Ahead.refl (reg : SourceRegistry) : reg.Ahead rd fs reg :=
  ⟨rfl, fun _ h => h, fun _ h => Or.inl h⟩

theorem Ahead.sources (h : reg.Ahead rd fs reg') : reg.sources = reg'.sources :=
  calc reg.sources = (reg.ensureIndexed rd fs).2.sources := (sources_ensureIndexed reg).symm
    _ = (reg'.ensureIndexed rd fs).2.sources := by rw [h.same]
    _ = reg'.sources := sources_ensureIndexed reg'

theorem Ahead.nextId (h : reg.Ahead rd fs reg') : reg.nextId = reg'.nextId :=
  calc reg.nextId = (reg.ensureIndexed rd fs).2.nextId := (nextId_ensureIndexed reg).symm
    _ = (reg'.ensureIndexed rd fs).2.nextId := by rw [h.same]
    _ = reg'.nextId := nextId_ensureIndexed reg'

/-- Locating a file makes up for the difference. -/
theorem Ahead.locate (h : reg.Ahead rd fs reg') (token : String) :
    reg.locate rd fs token = reg'.locate rd fs token := by
  unfold SourceRegistry.locate
  rw [h.same]

/-! ## After a lookup -/

theorem pending_ensureIndexed (h : ListsReturn rd fs reg.pending) :
    (reg.ensureIndexed rd fs).2.pending = [] := by
  rw [ensureIndexed, pending_indexPending fun s hs => h s hs (isLocal_of_mem_pending hs).2,
    List.filter_eq_nil_iff]
  exact fun s hs hnew => of_decide_eq_true hnew s hs rfl

/-- A registry that was indexed is ahead of what it was. -/
theorem ahead_ensureIndexed (h : ListsReturn rd fs reg.pending) :
    (reg.ensureIndexed rd fs).2.Ahead rd fs reg where
  same := by
    have hreturned : (reg.ensureIndexed rd fs).1 = .returned () := by rw [ensureIndexed_eq h]
    rw [SourceRegistry.ensureIndexed, pending_ensureIndexed h]
    exact Prod.ext hreturned.symm rfl
  indexed id hmem := (mem_indexed_ensureIndexed h).mpr (Or.inl hmem)
  pending id hmem := (mem_indexed_ensureIndexed h).mp hmem

/-! ## Configuration changes -/

theorem add_same (hnext : reg.nextId = reg'.nextId) (kind : String)
    (path url bucket : Option String) (enabled : Option Bool) (secret : Option String) :
    (reg.add kind path url bucket enabled secret).1
        = (reg'.add kind path url bucket enabled secret).1 ∧
      ((reg.add kind path url bucket enabled secret).2 = reg ∧
          (reg'.add kind path url bucket enabled secret).2 = reg' ∨
        ∃ s, reg'.newSource kind path url bucket enabled secret = some s ∧
          (reg.add kind path url bucket enabled secret).2 = reg.append s (reg'.nextId + 1) ∧
          (reg'.add kind path url bucket enabled secret).2 = reg'.append s (reg'.nextId + 1)) := by
  constructor
  · unfold add
    simp only [hnext]
    split <;> rfl
  · cases h : (SourceSpec.described (numberedId reg'.nextId.toNat) kind path url bucket enabled
      secret).missing with
    | some e => exact Or.inl ⟨by rw [add_of_missing (hnext ▸ h)], by rw [add_of_missing h]⟩
    | none =>
        refine Or.inr ⟨_, newSource_eq_some.mpr ⟨rfl, SourceSpec.missing_eq_none.mp h⟩, ?_,
          add_of_complete h⟩
        rw [add_of_complete (hnext ▸ h), hnext]
        rfl

/-- Indexing does not look at the source list of the registry. -/
theorem append_indexPending (l : List SourceSpec) (reg : SourceRegistry) (s : SourceSpec)
    (nextId : UInt64) :
    indexPending rd fs l (reg.append s nextId) =
      ((indexPending rd fs l reg).1, (indexPending rd fs l reg).2.append s nextId) := by
  induction l generalizing reg with
  | nil => rfl
  | cons s' l ih =>
      rw [indexPending, indexPending]
      cases s'.list rd fs with
      | panicked => rfl
      | returned files =>
          exact ih { reg with
            index := reg.index.orInsertAll (indexRows s' files)
            indexed := insert s'.sourceId reg.indexed }

theorem pending_append (reg : SourceRegistry) (s : SourceSpec) (nextId : UInt64) :
    (reg.append s nextId).pending
      = reg.pending ++ [s].filter fun s => s.isLocal && decide (s.sourceId ∉ reg.indexed) :=
  List.filter_append ..

/-- **Adding a source under a new id keeps a registry ahead.** The id of a source that is never
indexed does not matter. -/
theorem Ahead.append (h : reg.Ahead rd fs reg') {s : SourceSpec}
    (hs : s.isLocal = true → ∀ p ∈ reg'.pending, p.sourceId ≠ s.sourceId) (nextId : UInt64) :
    (reg.append s nextId).Ahead rd fs (reg'.append s nextId) := by
  have hlast : ([s].filter fun s => s.isLocal && decide (s.sourceId ∉ reg.indexed))
      = [s].filter fun s => s.isLocal && decide (s.sourceId ∉ reg'.indexed) := by
    cases hl : s.isLocal with
    | false => simp only [List.filter_cons, List.filter_nil, hl, Bool.false_and]
    | true =>
        have hiff : s.sourceId ∈ reg.indexed ↔ s.sourceId ∈ reg'.indexed := by
          refine ⟨fun hmem => ?_, h.indexed _⟩
          rcases h.pending _ hmem with hmem' | ⟨p, hp, hid⟩
          · exact hmem'
          · exact absurd hid (hs hl p hp)
        simp only [List.filter_cons, List.filter_nil, hiff]
  have hsame := h.same
  unfold ensureIndexed at hsame
  refine ⟨?_, h.indexed, fun id hmem => ?_⟩
  · -- The old sources lead both to one registry, and the new one is pending in both or neither.
    rw [SourceRegistry.ensureIndexed, SourceRegistry.ensureIndexed, pending_append,
      pending_append, indexPending_append, indexPending_append, append_indexPending,
      append_indexPending, hsame, hlast]
  · apply (h.pending id hmem).imp_right
    rintro ⟨p, hp, hid⟩
    exact ⟨p, by rw [pending_append]; exact List.mem_append_left _ hp, hid⟩

theorem Ahead.dropSource (h : reg.Ahead rd fs reg') (sourceId : String) :
    (reg.dropSource sourceId).1 = (reg'.dropSource sourceId).1 ∧
      (reg.dropSource sourceId).2.Ahead rd fs (reg'.dropSource sourceId).2 := by
  have hsources := h.sources
  have hnext := h.nextId
  unfold SourceRegistry.dropSource
  rw [hsources, hnext]
  simp only
  split
  · exact ⟨rfl, Ahead.refl _⟩
  · next hlen =>
      -- Nothing was dropped.
      rw [List.filter_sublist.eq_of_length (not_not.mp hlen)]
      refine ⟨rfl, ?_⟩
      show Ahead rd fs { reg with sources := reg'.sources, nextId := reg'.nextId } reg'
      rw [← hsources, ← hnext]
      exact h

end SourceRegistry

end VgiSymbols
