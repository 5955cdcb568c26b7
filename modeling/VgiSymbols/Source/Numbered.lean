import VgiSymbols.Source.Registry

set_option autoImplicit false

/-! # The registry under configuration changes

The registry numbers its sources and never hands out an id twice (short of a wrap of the
counter), so what is marked as indexed was listed under that very id. `Tracked` is the invariant;
each operation of the registry keeps it (`tracked_add`, `tracked_dropSource`,
`tracked_ensureIndexed`), and in it the sources that are not pending are listed.
-/

namespace VgiSymbols

open Unwind

namespace SourceRegistry

/-- The id of the `n`-th source. -/
def numberedId (n : Nat) : String := "src" ++ toString n

theorem numberedId_injective : Function.Injective numberedId := by
  intro m n h
  -- The prefix cancels, and the decimal digits determine the number.
  have hdigits : Nat.toDigits 10 m = Nat.toDigits 10 n := by
    have hlist := congrArg String.toList h
    rw [numberedId, numberedId, String.toList_append, String.toList_append] at hlist
    exact (Nat.toList_repr (n := m)).symm.trans
      ((List.append_cancel_left hlist).trans Nat.toList_repr)
  rw [← Nat.ofDigitChars_ten_toDigits (n := m), hdigits, Nat.ofDigitChars_ten_toDigits]

/-- Ids are numbered below the counter, without repetition, and what is marked as indexed is the
synced prefix of the sources, all of which were listed. -/
structure Tracked (rd : Readers) (fs : FileSystem) (reg : SourceRegistry) : Prop where
  ids : (reg.sources.map SourceSpec.sourceId).Nodup
  numbered : ∀ s ∈ reg.sources, ∃ n < reg.nextId.toNat, s.sourceId = numberedId n
  marked : ∀ id ∈ reg.indexed, ∃ n < reg.nextId.toNat, id = numberedId n
  synced : reg.Synced rd fs
  listed : ∀ s ∈ reg.sources, s.isLocal = true → s.sourceId ∈ reg.indexed →
    (s.list rd fs).Returns

variable {rd : Readers} {fs : FileSystem} {reg : SourceRegistry}

theorem tracked_new : (new).Tracked rd fs where
  ids := List.nodup_nil
  numbered _ h := by cases h
  marked _ h := absurd h (Finset.notMem_empty _)
  synced := Unindexed.synced ⟨rfl, rfl⟩
  listed _ h := by cases h

/-! ## `add` -/

/-- Adding a source appends a spec under the next id, or changes nothing. -/
theorem add_cases (reg : SourceRegistry) (kind : String) (path url bucket : Option String)
    (enabled : Option Bool) (secret : Option String) :
    (reg.add kind path url bucket enabled secret).2 = reg ∨
      ∃ s : SourceSpec, s.sourceId = numberedId reg.nextId.toNat ∧
        (reg.add kind path url bucket enabled secret).2
          = { reg with sources := reg.sources ++ [s], nextId := reg.nextId + 1 } := by
  unfold add
  simp only
  split
  · exact Or.inl rfl
  · exact Or.inr ⟨_, rfl, rfl⟩

/-- A new source under an id that is not marked joins those that are still to be indexed. -/
theorem Synced.append (h : reg.Synced rd fs) {s : SourceSpec} (hfresh : s.sourceId ∉ reg.indexed)
    (nextId : UInt64) :
    ({ reg with sources := reg.sources ++ [s], nextId := nextId } :
      SourceRegistry).Synced rd fs := by
  obtain ⟨done, todo, hsources, hdone, htodo, hindex⟩ := h
  refine ⟨done, todo ++ [s], ?_, hdone, fun s' hs' hlocal => ?_, hindex⟩
  · rw [← List.append_assoc, ← hsources]
  · rcases List.mem_append.mp hs' with hs' | hs'
    · exact htodo s' hs' hlocal
    · rw [List.mem_singleton.mp hs']
      exact hfresh

theorem Tracked.append (h : reg.Tracked rd fs) (hlt : reg.nextId.toNat + 1 < 2 ^ 64)
    {s : SourceSpec} (hid : s.sourceId = numberedId reg.nextId.toNat) :
    ({ reg with sources := reg.sources ++ [s], nextId := reg.nextId + 1 } :
      SourceRegistry).Tracked rd fs := by
  have hnext : (reg.nextId + 1).toNat = reg.nextId.toNat + 1 := by
    rw [UInt64.toNat_add]
    exact Nat.mod_eq_of_lt hlt
  have hfresh : ∀ {id : String}, (∃ n < reg.nextId.toNat, id = numberedId n) →
      id ≠ s.sourceId := by
    rintro id ⟨n, hn, rfl⟩ heq
    rw [hid] at heq
    exact absurd (numberedId_injective heq) hn.ne
  have hmarked : s.sourceId ∉ reg.indexed := fun hmem => hfresh (h.marked _ hmem) rfl
  refine ⟨?_, fun s' hs' => ?_, fun id hmem => ?_, ?_, fun s' hs' hlocal hmem => ?_⟩
  · -- `ids`: the new id is above every id in use
    rw [List.map_append, List.map_singleton, List.nodup_append]
    refine ⟨h.ids, List.nodup_singleton _, fun a ha b hb => ?_⟩
    obtain ⟨s', hs', rfl⟩ := List.mem_map.mp ha
    rw [List.mem_singleton.mp hb]
    exact hfresh (h.numbered s' hs')
  · -- `numbered`
    rw [hnext]
    rcases List.mem_append.mp hs' with hs' | hs'
    · obtain ⟨n, hn, heq⟩ := h.numbered s' hs'
      exact ⟨n, hn.trans (Nat.lt_succ_self _), heq⟩
    · rw [List.mem_singleton.mp hs']
      exact ⟨_, Nat.lt_succ_self _, hid⟩
  · -- `marked`
    rw [hnext]
    obtain ⟨n, hn, heq⟩ := h.marked id hmem
    exact ⟨n, hn.trans (Nat.lt_succ_self _), heq⟩
  · -- `synced`
    exact h.synced.append hmarked _
  · -- `listed`
    rcases List.mem_append.mp hs' with hs' | hs'
    · exact h.listed s' hs' hlocal hmem
    · rw [List.mem_singleton.mp hs'] at hmem
      exact absurd hmem hmarked

theorem tracked_add (h : reg.Tracked rd fs) (hlt : reg.nextId.toNat + 1 < 2 ^ 64)
    (kind : String) (path url bucket : Option String) (enabled : Option Bool)
    (secret : Option String) :
    (reg.add kind path url bucket enabled secret).2.Tracked rd fs := by
  rcases add_cases reg kind path url bucket enabled secret with heq | ⟨s, hid, heq⟩
  · rw [heq]
    exact h
  · rw [heq]
    exact h.append hlt hid

/-! ## `dropSource` -/

theorem sources_dropSource (reg : SourceRegistry) (sourceId : String) :
    (reg.dropSource sourceId).2.sources = reg.sources.filter fun s => s.sourceId ≠ sourceId := by
  unfold dropSource
  simp only
  split <;> rfl

theorem nextId_dropSource (reg : SourceRegistry) (sourceId : String) :
    (reg.dropSource sourceId).2.nextId = reg.nextId := by
  unfold dropSource
  simp only
  split <;> rfl

/-- Nothing was dropped, or the index is forgotten as a whole. -/
theorem dropSource_cases (reg : SourceRegistry) (sourceId : String) :
    (reg.dropSource sourceId).2 = reg ∨ (reg.dropSource sourceId).2 =
      { reg with
        sources := reg.sources.filter fun s => s.sourceId ≠ sourceId
        index := ∅
        indexed := ∅ } := by
  unfold dropSource
  by_cases hlen : (reg.sources.filter fun s => s.sourceId ≠ sourceId).length
      = reg.sources.length
  · apply Or.inl
    simp only [hlen, ne_eq, not_true_eq_false, if_false]
    rw [List.filter_sublist.eq_of_length hlen]
  · apply Or.inr
    simp only
    rw [if_pos hlen]

theorem tracked_dropSource (h : reg.Tracked rd fs) (sourceId : String) :
    (reg.dropSource sourceId).2.Tracked rd fs := by
  rcases dropSource_cases reg sourceId with heq | heq
  · rw [heq]
    exact h
  · rw [heq]
    exact {
      ids := h.ids.sublist (List.filter_sublist.map _)
      numbered := fun s hs => h.numbered s (List.mem_filter.mp hs).1
      marked := fun _ hmem => absurd hmem (Finset.notMem_empty _)
      synced := Unindexed.synced ⟨rfl, rfl⟩
      listed := fun _ _ _ hmem => absurd hmem (Finset.notMem_empty _) }

/-! ## `ensureIndexed` -/

theorem Tracked.nodup_local (h : reg.Tracked rd fs) :
    ((reg.sources.filter SourceSpec.isLocal).map SourceSpec.sourceId).Nodup :=
  h.ids.sublist (List.filter_sublist.map _)

/-- With distinct ids, the sources that an indexing run marks are listed. -/
theorem listed_ensureIndexed (hids : (reg.sources.map SourceSpec.sourceId).Nodup)
    (h : ∀ s ∈ reg.sources, s.isLocal = true → s.sourceId ∈ reg.indexed → (s.list rd fs).Returns) :
    ∀ s ∈ (reg.ensureIndexed rd fs).2.sources, s.isLocal = true →
      s.sourceId ∈ (reg.ensureIndexed rd fs).2.indexed → (s.list rd fs).Returns := by
  intro s hs hlocal hmem
  rw [sources_ensureIndexed] at hs
  rcases mem_indexed_indexPending _ _ hmem with hmem | ⟨s', hs', hret, hid⟩
  · exact h s hs hlocal hmem
  · have heq : s' = s := List.inj_on_of_nodup_map hids (isLocal_of_mem_pending hs').1 hs hid
    exact heq ▸ hret

/-- If the marked sources are listed, only pending ones can be unlisted. -/
theorem listsReturn_of_listed
    (h : ∀ s ∈ reg.sources, s.isLocal = true → s.sourceId ∈ reg.indexed → (s.list rd fs).Returns)
    (hp : ListsReturn rd fs reg.pending) : ListsReturn rd fs reg.sources := by
  intro s hs hlocal
  by_cases hmem : s.sourceId ∈ reg.indexed
  · exact h s hs hlocal hmem
  · exact hp s (mem_pending_iff.mpr ⟨hs, hlocal, hmem⟩) hlocal

theorem tracked_ensureIndexed (h : reg.Tracked rd fs) :
    (reg.ensureIndexed rd fs).2.Tracked rd fs where
  ids := by
    rw [sources_ensureIndexed]
    exact h.ids
  numbered s hs := by
    rw [sources_ensureIndexed] at hs
    rw [nextId_ensureIndexed]
    exact h.numbered s hs
  marked id hmem := by
    rw [nextId_ensureIndexed]
    rcases mem_indexed_indexPending _ _ hmem with hmem | ⟨s, hs, -, rfl⟩
    · exact h.marked id hmem
    · exact h.numbered s (isLocal_of_mem_pending hs).1
  synced := synced_ensureIndexed_of_nodup h.synced h.nodup_local
  listed := listed_ensureIndexed h.ids h.listed

theorem Tracked.listsReturn (h : reg.Tracked rd fs) (hp : ListsReturn rd fs reg.pending) :
    ListsReturn rd fs reg.sources :=
  listsReturn_of_listed h.listed hp

/-! ## The counter after `restore`

The restored ids may be any strings. The counter is kept above those that it could hand out, short
of a wrap. -/

/-- The counter is above every id in use that it could hand out. -/
def Below (reg : SourceRegistry) : Prop :=
  ∀ s ∈ reg.sources, ∀ n < 2 ^ 64, s.sourceId = numberedId n → n < reg.nextId.toNat

/-- The next id is new. -/
theorem Below.newId (h : reg.Below) {s : SourceSpec} (hs : s ∈ reg.sources) :
    s.sourceId ≠ numberedId reg.nextId.toNat :=
  fun hid => (h s hs _ reg.nextId.toNat_lt hid).false

theorem below_new : new.Below := fun _ hs => by cases hs

theorem below_add (h : reg.Below) (hlt : reg.nextId.toNat + 1 < 2 ^ 64) (kind : String)
    (path url bucket : Option String) (enabled : Option Bool) (secret : Option String) :
    (reg.add kind path url bucket enabled secret).2.Below := by
  rcases add_cases reg kind path url bucket enabled secret with heq | ⟨s, hid, heq⟩
  · rw [heq]
    exact h
  · rw [heq]
    intro s' hs' n hn hid'
    have hnext : (reg.nextId + 1).toNat = reg.nextId.toNat + 1 := by
      rw [UInt64.toNat_add]
      exact Nat.mod_eq_of_lt hlt
    show n < (reg.nextId + 1).toNat
    rw [hnext]
    rcases List.mem_append.mp hs' with hs' | hs'
    · calc n < reg.nextId.toNat := h s' hs' n hn hid'
        _ < reg.nextId.toNat + 1 := Nat.lt_succ_self _
    · rw [List.mem_singleton.mp hs', hid] at hid'
      rw [← numberedId_injective hid']
      exact Nat.lt_succ_self _

theorem below_dropSource (h : reg.Below) (sourceId : String) :
    (reg.dropSource sourceId).2.Below := by
  intro s hs
  rw [sources_dropSource] at hs
  rw [nextId_dropSource]
  exact h s (List.mem_filter.mp hs).1

theorem below_ensureIndexed (h : reg.Below) : (reg.ensureIndexed rd fs).2.Below := by
  intro s hs
  rw [sources_ensureIndexed] at hs
  rw [nextId_ensureIndexed]
  exact h s hs

/-- The decimal digits of a number are read back. -/
theorem parseU64_toDigits {n : Nat} (h : n < 2 ^ 64) :
    parseU64 (Nat.toDigits 10 n) = some (UInt64.ofNat n) := by
  have hdigits : ∀ c ∈ Nat.toDigits 10 n, c.isDigit = true :=
    fun c hc => Nat.isDigit_of_mem_toDigits (by decide) (by decide) hc
  have hvalue := Nat.ofDigitChars_ten_toDigits (n := n)
  rw [Nat.ofDigitChars_eq_foldl] at hvalue
  simp only [Nat.mul_comm 10] at hvalue
  have hne : Nat.toDigits 10 n ≠ [] := Nat.toDigits_ne_nil
  generalize Nat.toDigits 10 n = cs at hdigits hvalue hne
  have hsign : ∀ rest, cs ≠ '+' :: rest := by
    rintro rest rfl
    exact absurd (hdigits '+' (by simp)) (by decide)
  unfold parseU64
  split
  · next rest => exact absurd rfl (hsign rest)
  · have hfold : cs.foldl (fun n c => n * 10 + (c.toNat - 48)) 0 = n := hvalue
    rw [if_pos ⟨hne, List.all_eq_true.mpr hdigits⟩]
    simp only [hfold]
    rw [if_pos h]

theorem sourceNumber_numberedId {n : Nat} (h : n < 2 ^ 64) :
    sourceNumber (numberedId n) = some (UInt64.ofNat n) := by
  have hlist : (numberedId n).toList = 's' :: 'r' :: 'c' :: Nat.toDigits 10 n := by
    rw [numberedId, String.toList_append]
    exact congrArg ("src".toList ++ ·) Nat.toList_repr
  rw [sourceNumber, hlist]
  exact parseU64_toDigits h

/-- The id counter once the source is restored. -/
def restoredId (next : UInt64) (s : SourceSpec) : UInt64 :=
  match sourceNumber s.sourceId with
  | some n => max next (n + 1)
  | none => next

theorem restoredId_eq_self {next : UInt64} {s : SourceSpec}
    (h : ∀ n, sourceNumber s.sourceId = some n → n + 1 ≤ next) : restoredId next s = next := by
  unfold restoredId
  split
  · next n hn =>
      show (if next ≤ n + 1 then n + 1 else next) = next
      split
      · next hle => exact UInt64.le_antisymm (h n hn) hle
      · rfl
  · rfl

theorem le_restoredId (next : UInt64) (s : SourceSpec) : next ≤ restoredId next s := by
  unfold restoredId
  split
  · next n hn =>
      show next ≤ (if next ≤ n + 1 then n + 1 else next)
      split
      · assumption
      · exact UInt64.le_refl _
  · exact UInt64.le_refl _

theorem number_le_restoredId (next : UInt64) {s : SourceSpec} {n : UInt64}
    (h : sourceNumber s.sourceId = some n) : n + 1 ≤ restoredId next s := by
  rw [restoredId, h]
  show n + 1 ≤ (if next ≤ n + 1 then n + 1 else next)
  split
  · exact UInt64.le_refl _
  · next hle => exact UInt64.le_of_lt (UInt64.not_le.mp hle)

theorem le_foldl_restoredId (specs : List SourceSpec) (next : UInt64) :
    next ≤ specs.foldl restoredId next := by
  induction specs generalizing next with
  | nil => exact UInt64.le_refl _
  | cons s specs ih => exact UInt64.le_trans (le_restoredId next s) (ih _)

/-- The counter is past the number of every restored source, unless that is the largest one. -/
theorem number_le_foldl_restoredId {specs : List SourceSpec} {s : SourceSpec} {n : UInt64}
    (hs : s ∈ specs) (hn : sourceNumber s.sourceId = some n) (next : UInt64) :
    n + 1 ≤ specs.foldl restoredId next := by
  induction specs generalizing next with
  | nil => cases hs
  | cons s' specs ih =>
      rw [List.foldl_cons]
      rcases List.mem_cons.mp hs with rfl | hs
      · exact UInt64.le_trans (number_le_restoredId next hn) (le_foldl_restoredId _ _)
      · exact ih hs _

theorem foldl_restoredId_eq_self {specs : List SourceSpec} {next : UInt64}
    (h : ∀ s ∈ specs, ∀ n, sourceNumber s.sourceId = some n → n + 1 ≤ next) :
    specs.foldl restoredId next = next := by
  induction specs with
  | nil => rfl
  | cons s specs ih =>
      rw [List.foldl_cons, restoredId_eq_self (h s (by simp))]
      exact ih fun s' hs' => h s' (List.mem_cons_of_mem _ hs')

/-- Restoring the same sources once more changes nothing. -/
theorem restore_restore (reg : SourceRegistry) (specs : List SourceSpec) :
    (reg.restore specs).restore specs = reg.restore specs := by
  have hnext : specs.foldl restoredId (specs.foldl restoredId reg.nextId)
      = specs.foldl restoredId reg.nextId :=
    foldl_restoredId_eq_self fun _ hs _ hn => number_le_foldl_restoredId hs hn _
  show SourceRegistry.mk specs _ ∅ ∅ = SourceRegistry.mk specs _ ∅ ∅
  exact congrArg (SourceRegistry.mk specs · ∅ ∅) hnext

/-- The counter wraps for the largest number only. -/
theorem below_restore (reg : SourceRegistry) {specs : List SourceSpec}
    (hspecs : ∀ s ∈ specs, s.sourceId ≠ numberedId (2 ^ 64 - 1)) : (reg.restore specs).Below := by
  intro s hs n hn hid
  have hne : n ≠ 2 ^ 64 - 1 := by
    rintro rfl
    exact hspecs s hs hid
  have hnumber : sourceNumber s.sourceId = some (UInt64.ofNat n) := by
    rw [hid]
    exact sourceNumber_numberedId hn
  have hle : UInt64.ofNat n + 1 ≤ specs.foldl restoredId reg.nextId :=
    number_le_foldl_restoredId hs hnumber _
  have hlt : n + 1 < 2 ^ 64 := by omega
  have hnext : (UInt64.ofNat n + 1).toNat = n + 1 := by
    rw [UInt64.toNat_add, UInt64.toNat_ofNat_of_lt' hn]
    exact Nat.mod_eq_of_lt hlt
  have h : n + 1 ≤ (specs.foldl restoredId reg.nextId).toNat := by
    rw [← hnext]
    exact UInt64.le_iff_toNat_le.mp hle
  exact h

end SourceRegistry

end VgiSymbols
