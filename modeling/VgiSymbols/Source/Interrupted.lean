import VgiSymbols.Source.Ahead

set_option autoImplicit false

/-! # Interrupted indexing

A probe that panics while the pending sources are indexed unwinds `ensureIndexed` between two of
them: the sources whose listing came back are in the index and their ids are marked, and of the
source that was being listed nothing is (`ensureIndexed_interrupted`). The marks are ids, so they
tell the two groups of sources apart exactly when no id is in both (`SharesNoId`). Then the
registry is indexed source by source (`indexedWhole_iff`), and the next `ensureIndexed` takes up
where this one was interrupted (`ahead_interrupted`).
-/

namespace VgiSymbols

open Unwind

namespace SourceRegistry

variable {rd rd' : Readers} {fs fs' : FileSystem} {reg reg' : SourceRegistry}

/-- Every source that was pending is either marked and its whole listing is in the index, or is
not marked and has nothing in the index: the index was completed by the rows of the former. -/
def IndexedWhole (rd : Readers) (fs : FileSystem) (reg reg' : SourceRegistry) : Prop :=
  ∃ done rest, reg.pending = done ++ rest ∧
    (∀ s ∈ done, (s.list rd fs).Returns ∧ s.sourceId ∈ reg'.indexed) ∧
    (∀ s ∈ rest, s.sourceId ∉ reg'.indexed) ∧
    reg'.index = reg.index.orInsertAll (done.flatMap fun s => indexRows s (listing rd fs s))

/-- From the first source on whose listing unwinds, no source has the id of one before it. -/
def SharesNoId (rd : Readers) (fs : FileSystem) (pending : List SourceSpec) : Prop :=
  ∀ done bad rest, pending = done ++ bad :: rest → (∀ s ∈ done, (s.list rd fs).Returns) →
    ¬ (bad.list rd fs).Returns → ∀ s ∈ bad :: rest, ∀ d ∈ done, s.sourceId ≠ d.sourceId

/-- Later on, the sources whose listing came back list the same files as before. -/
def ListSame (rd : Readers) (fs : FileSystem) (rd' : Readers) (fs' : FileSystem)
    (pending : List SourceSpec) : Prop :=
  ∀ s ∈ pending, (s.list rd fs).Returns → s.list rd' fs' = s.list rd fs

instance (pending : List SourceSpec) : Decidable (ListSame rd fs rd' fs' pending) :=
  inferInstanceAs (Decidable (∀ s ∈ pending, _ → _ = _))

/-- Distinct ids are shared by no two sources. -/
theorem sharesNoId_of_nodup {pending : List SourceSpec}
    (h : (pending.map SourceSpec.sourceId).Nodup) : SharesNoId rd fs pending := by
  intro done bad rest hpending _ _ s hs d hd hid
  rw [hpending, List.map_append] at h
  apply (List.nodup_append.mp h).2.2 _ (List.mem_map_of_mem hd) _ (List.mem_map_of_mem hs)
  exact hid.symm

/-! ## The registry that is left -/

/-- Indexing sees of the readers and the files only what the sources list. -/
theorem indexPending_congr {l : List SourceSpec} (h : ∀ s ∈ l, s.list rd' fs' = s.list rd fs)
    (reg : SourceRegistry) : indexPending rd' fs' l reg = indexPending rd fs l reg := by
  induction l generalizing reg with
  | nil => rfl
  | cons s l ih =>
      obtain ⟨hs, hl⟩ := List.forall_mem_cons.mp h
      rw [indexPending, indexPending, hs]
      cases s.list rd fs with
      | panicked => rfl
      | returned files => exact ih hl _

variable {done rest : List SourceSpec} {bad : SourceSpec}

/-- Two splits of one list: an element that is not in the front part of the second is, with all
that is behind it, in the back part. -/
theorem cons_subset_of_append_eq {done' rest' : List SourceSpec}
    (h : done ++ bad :: rest = done' ++ rest') (hbad : bad ∉ done') : bad :: rest ⊆ rest' := by
  rcases List.append_eq_append_iff.mp h with ⟨c, hc, hc'⟩ | ⟨c, -, hc'⟩
  · cases c with
    | nil =>
        rw [List.nil_append] at hc'
        rw [hc']
        exact List.Subset.refl _
    | cons b c =>
        rw [List.cons_append, List.cons.injEq] at hc'
        refine absurd ?_ hbad
        rw [hc, ← hc'.1]
        exact List.mem_append_right _ List.mem_cons_self
  · rw [hc']
    exact List.subset_append_right _ _

/-- **Indexed source by source.** An interruption leaves a source that is marked and not indexed
exactly when a source from there on has the id of one before. -/
theorem indexedWhole_iff (hpending : reg.pending = done ++ bad :: rest)
    (hdone : ∀ s ∈ done, (s.list rd fs).Returns) (hbad : ¬ (bad.list rd fs).Returns) :
    IndexedWhole rd fs reg (indexPending rd fs done reg).2 ↔
      ∀ s ∈ bad :: rest, ∀ d ∈ done, s.sourceId ≠ d.sourceId := by
  constructor
  · rintro ⟨done', rest', hpending', hdone', hrest', -⟩ s hs d hd hid
    -- The source that unwinds is not among those that were indexed whole.
    have hsub : bad :: rest ⊆ rest' :=
      cons_subset_of_append_eq (hpending.symm.trans hpending') fun hmem =>
        hbad (hdone' bad hmem).1
    apply hrest' s (hsub hs)
    exact (mem_indexed_done hdone).mpr (Or.inr ⟨d, hd, hid.symm⟩)
  · intro hids
    refine ⟨done, bad :: rest, hpending, fun s hs => ⟨hdone s hs, ?_⟩, fun s hs hmem => ?_, ?_⟩
    · exact (mem_indexed_done hdone).mpr (Or.inr ⟨s, hs, rfl⟩)
    · rcases (mem_indexed_done hdone).mp hmem with hmem | ⟨d, hd, hid⟩
      · have hs' : s ∈ reg.pending := hpending ▸ List.mem_append_right _ hs
        exact (mem_pending_iff.mp hs').2.2 hmem
      · exact hids s hs d hd hid.symm
    · rw [indexPending_eq done reg hdone]

/-- What is pending after an interruption: the source that was being listed, and those behind it. -/
theorem pending_interrupted (hpending : reg.pending = done ++ bad :: rest)
    (hdone : ∀ s ∈ done, (s.list rd fs).Returns)
    (hids : ∀ s ∈ bad :: rest, ∀ d ∈ done, s.sourceId ≠ d.sourceId) :
    (indexPending rd fs done reg).2.pending = bad :: rest := by
  rw [pending_indexPending hdone, hpending, List.filter_append, List.filter_eq_nil_iff.mpr,
    List.filter_eq_self.mpr, List.nil_append]
  · exact fun s hs => decide_eq_true (hids s hs)
  · exact fun d hd hnew => of_decide_eq_true hnew d hd rfl

/-- **The next indexing takes up where this one was interrupted.** -/
theorem ahead_interrupted (hpending : reg.pending = done ++ bad :: rest)
    (hdone : ∀ s ∈ done, (s.list rd fs).Returns)
    (hids : ∀ s ∈ bad :: rest, ∀ d ∈ done, s.sourceId ≠ d.sourceId)
    (hsame : ListSame rd fs rd' fs' reg.pending) :
    (indexPending rd fs done reg).2.Ahead rd' fs' reg where
  same := by
    have hlists : ∀ s ∈ done, s.list rd' fs' = s.list rd fs := fun s hs =>
      hsame s (hpending ▸ List.mem_append_left _ hs) (hdone s hs)
    rw [ensureIndexed, ensureIndexed, pending_interrupted hpending hdone hids, hpending,
      indexPending_append, indexPending_congr hlists]
    rw [indexPending_eq done reg hdone]
  indexed id hmem := (mem_indexed_done hdone).mpr (Or.inl hmem)
  pending id hmem := by
    apply ((mem_indexed_done hdone).mp hmem).imp_right
    rintro ⟨s, hs, hid⟩
    exact ⟨s, hpending ▸ List.mem_append_left _ hs, hid⟩

/-- A source whose listing unwinds stays pending. -/
theorem not_listsReturn_ensureIndexed
    (hids : ((reg.sources.filter SourceSpec.isLocal).map SourceSpec.sourceId).Nodup)
    (h : ¬ ListsReturn rd fs reg.pending) :
    ¬ ListsReturn rd fs (reg.ensureIndexed rd fs).2.pending := by
  intro hlists
  obtain ⟨done, bad, rest, hpending, hdone, hbad⟩ :=
    exists_interruption fun hall => h fun s hs _ => hall s hs
  have hsublist : reg.pending.Sublist (reg.sources.filter SourceSpec.isLocal) :=
    List.monotone_filter_right _ fun _ hs => (Bool.and_eq_true_iff.mp hs).1
  have hapart : SharesNoId rd fs reg.pending :=
    sharesNoId_of_nodup (hids.sublist (hsublist.map _))
  rw [ensureIndexed_interrupted hpending hdone hbad,
    pending_interrupted hpending hdone (hapart done bad rest hpending hdone hbad)] at hlists
  have hmem : bad ∈ reg.pending := hpending ▸ List.mem_append_right _ List.mem_cons_self
  exact hbad (hlists bad List.mem_cons_self (isLocal_of_mem_pending hmem).2)

end SourceRegistry

end VgiSymbols
