import VgiSymbols.Basic.Run
import VgiSymbols.Source.Numbered

set_option autoImplicit false

/-! # Ids at the end of the counter

The counter of the source ids is a `u64` that is incremented without a check, when a source is
added and when the sources are restored. A release build wraps there and a debug build panics
(`Build`). `unique_run` says what every run keeps as long as no step of it overflows the counter:
the ids stay distinct, and a new source is indexed by the next `locate`.
-/

namespace VgiSymbols

open Unwind

/-- How the worker is built. -/
inductive Build where
  | release
  | debug
  deriving DecidableEq, Repr

/-- `n + 1` in a `u64`. -/
def Build.succ (b : Build) (n : UInt64) : Unwind UInt64 :=
  if b = .debug ∧ n.toNat + 1 = 2 ^ 64 then .panicked else .returned (n + 1)

theorem Build.succ_of_lt (b : Build) {n : UInt64} (h : n.toNat + 1 < 2 ^ 64) :
    b.succ n = .returned (n + 1) :=
  if_neg fun hover => h.ne hover.2

@[simp] theorem Build.succ_release (n : UInt64) : Build.release.succ n = .returned (n + 1) :=
  if_neg fun h => by cases h.1

namespace SourceRegistry

/-! ## The registry of a build -/

/-- `add`: the counter is incremented before the source is pushed. -/
def addIn (b : Build) (reg : SourceRegistry) (kind : String) (path url bucket : Option String)
    (enabled : Option Bool) (secret : Option String) :
    Unwind (Except String String) × SourceRegistry :=
  match reg.add kind path url bucket enabled secret with
  | (.error e, reg) => (.returned (.error e), reg)
  | (.ok sourceId, added) =>
      match b.succ reg.nextId with
      | .returned _ => (.returned (.ok sourceId), added)
      | .panicked => (.panicked, reg)

/-- The counter behind the restored ids; a panic leaves it at what it had reached. -/
def restoreIds (b : Build) : List SourceSpec → UInt64 → Unwind Unit × UInt64
  | [], next => (.returned (), next)
  | s :: specs, next =>
      match sourceNumber s.sourceId with
      | none => restoreIds b specs next
      | some n =>
          match b.succ n with
          | .returned n => restoreIds b specs (max next n)
          | .panicked => (.panicked, next)

def restoreIn (b : Build) (reg : SourceRegistry) (specs : List SourceSpec) :
    Unwind Unit × SourceRegistry :=
  let (out, nextId) := restoreIds b specs reg.nextId
  (out, { sources := specs, nextId := nextId, index := ∅, indexed := ∅ })

/-- Without an overflow the counter is the one of a release build. -/
theorem restoreIds_eq {b : Build} {specs : List SourceSpec}
    (h : ∀ s ∈ specs, ∀ n, sourceNumber s.sourceId = some n → b.succ n = .returned (n + 1))
    (next : UInt64) : restoreIds b specs next = (.returned (), specs.foldl restoredId next) := by
  induction specs generalizing next with
  | nil => rfl
  | cons s specs ih =>
      obtain ⟨hs, hspecs⟩ := List.forall_mem_cons.mp h
      rw [restoreIds, List.foldl_cons, restoredId]
      cases hn : sourceNumber s.sourceId with
      | none => exact ih hspecs next
      | some n =>
          simp only [hs n hn]
          exact ih hspecs _

theorem restoreIn_eq {b : Build} {specs : List SourceSpec}
    (h : ∀ s ∈ specs, ∀ n, sourceNumber s.sourceId = some n → b.succ n = .returned (n + 1))
    (reg : SourceRegistry) : reg.restoreIn b specs = (.returned (), reg.restore specs) := by
  rw [restoreIn, restoreIds_eq h]
  rfl

/-- In a release build both are the operations of the registry. -/
theorem restoreIn_release (reg : SourceRegistry) (specs : List SourceSpec) :
    reg.restoreIn .release specs = (.returned (), reg.restore specs) :=
  restoreIn_eq (fun _ _ n _ => Build.succ_release n) reg

theorem addIn_eq {b : Build} {reg : SourceRegistry} {kind : String}
    {path url bucket : Option String} {enabled : Option Bool} {secret : Option String}
    (h : ∀ id, (reg.add kind path url bucket enabled secret).1 = .ok id →
      b.succ reg.nextId = .returned (reg.nextId + 1)) :
    reg.addIn b kind path url bucket enabled secret =
      (.returned (reg.add kind path url bucket enabled secret).1,
        (reg.add kind path url bucket enabled secret).2) := by
  unfold addIn
  cases hadd : reg.add kind path url bucket enabled secret with
  | mk r added =>
      rw [hadd] at h
      cases r with
      | error e => rfl
      | ok id =>
          simp only
          rw [h id rfl]

theorem addIn_release (reg : SourceRegistry) (kind : String) (path url bucket : Option String)
    (enabled : Option Bool) (secret : Option String) :
    reg.addIn .release kind path url bucket enabled secret =
      (.returned (reg.add kind path url bucket enabled secret).1,
        (reg.add kind path url bucket enabled secret).2) :=
  addIn_eq fun _ _ => Build.succ_release _

/-! ## Runs -/

/-- The operations on a registry. -/
inductive SourceOp where
  | add (kind : String) (path url bucket : Option String) (enabled : Option Bool)
      (secret : Option String)
  | dropSource (sourceId : String)
  | restore (specs : List SourceSpec)
  | locate (fs : FileSystem) (token : String)

/-- The registry after an operation. -/
def registryStep (b : Build) (rd : Readers) (reg : SourceRegistry) : SourceOp → SourceRegistry
  | .add kind path url bucket enabled secret => (reg.addIn b kind path url bucket enabled secret).2
  | .dropSource sourceId => (reg.dropSource sourceId).2
  | .restore specs => (reg.restoreIn b specs).2
  | .locate fs token => (reg.locate rd fs token).2

def IdsDistinct (specs : List SourceSpec) : Prop := (specs.map SourceSpec.sourceId).Nodup

instance (specs : List SourceSpec) : Decidable (IdsDistinct specs) :=
  inferInstanceAs (Decidable (List.Nodup _))

/-- The lists of sources that are restored have distinct ids. -/
def SourceOp.RestoresDistinct : SourceOp → Prop
  | .restore specs => IdsDistinct specs
  | _ => True

def SourceOp.isLocate : SourceOp → Bool
  | .locate _ _ => true
  | _ => false

/-- The source is marked as indexed, and every alias of its files leads to a file. -/
def IsIndexed (rd : Readers) (fs : FileSystem) (s : SourceSpec) (reg : SourceRegistry) : Prop :=
  s.sourceId ∈ reg.indexed ∧
    ∀ ix ∈ listing rd fs s, ∀ k ∈ ix.aliases, ∃ entry, reg.index.lookup k = some entry

/-- Whatever else is configured in between, the next `locate` indexes the source if it is still
there. -/
def AwaitsIndexing (b : Build) (rd : Readers) (reg : SourceRegistry) (s : SourceSpec) : Prop :=
  ∀ between : List SourceOp, (∀ op ∈ between, op.isLocate = false) →
    s ∈ (Run.run (registryStep b rd) reg between).sources →
    ∀ fs token, ((Run.run (registryStep b rd) reg between).locate rd fs token).1.Returns →
      IsIndexed rd fs s ((Run.run (registryStep b rd) reg between).locate rd fs token).2

/-- What the ids are for, at one operation: a source that is added gets an id that no source has,
without a panic, and awaits indexing if it is local and enabled; and one drop removes at most one
source. -/
def UniqueAt (b : Build) (rd : Readers) (reg : SourceRegistry) : SourceOp → Prop
  | .add kind path url bucket enabled secret =>
      (reg.addIn b kind path url bucket enabled secret).1 ≠ .panicked ∧
      ∀ id, (reg.addIn b kind path url bucket enabled secret).1 = .returned (.ok id) →
        (∀ s ∈ reg.sources, s.sourceId ≠ id) ∧
        ∀ s ∈ (reg.addIn b kind path url bucket enabled secret).2.sources,
          s.sourceId = id → s.isLocal = true →
          AwaitsIndexing b rd (reg.addIn b kind path url bucket enabled secret).2 s
  | .dropSource sourceId =>
      reg.sources.length ≤ (reg.dropSource sourceId).2.sources.length + 1
  | .restore _ | .locate _ _ => True

/-- The operation does not overflow the counter. -/
def NoOverflow (reg : SourceRegistry) : SourceOp → Prop
  | .add kind path url bucket enabled secret =>
      ∀ id, (reg.add kind path url bucket enabled secret).1 = .ok id →
        reg.nextId.toNat + 1 < 2 ^ 64
  | .restore specs => ∀ s ∈ specs, ∀ n, sourceNumber s.sourceId = some n → n.toNat + 1 < 2 ^ 64
  | .dropSource _ | .locate _ _ => True

/-! ## The invariant -/

/-- The ids are distinct, the counter is above those that it could hand out, and only sources of
the list are marked. -/
structure Unique (reg : SourceRegistry) : Prop where
  ids : IdsDistinct reg.sources
  below : reg.Below
  marked : ∀ id ∈ reg.indexed, ∃ s ∈ reg.sources, s.sourceId = id

theorem unique_new : new.Unique where
  ids := List.nodup_nil
  below := below_new
  marked _ h := absurd h (Finset.notMem_empty _)

/-- A source that was added has the next id. -/
theorem add_eq_ok {reg : SourceRegistry} {kind : String} {path url bucket : Option String}
    {enabled : Option Bool} {secret : Option String} {id : String}
    (h : (reg.add kind path url bucket enabled secret).1 = .ok id) :
    id = numberedId reg.nextId.toNat ∧ ∃ s : SourceSpec, s.sourceId = id ∧
      (reg.add kind path url bucket enabled secret).2
        = { reg with sources := reg.sources ++ [s], nextId := reg.nextId + 1 } := by
  unfold add at h ⊢
  simp only at h ⊢
  split at h
  · cases h
  · cases h
    exact ⟨rfl, _, rfl, rfl⟩

theorem add_eq_error {reg : SourceRegistry} {kind : String} {path url bucket : Option String}
    {enabled : Option Bool} {secret : Option String} {e : String}
    (h : (reg.add kind path url bucket enabled secret).1 = .error e) :
    (reg.add kind path url bucket enabled secret).2 = reg := by
  unfold add at h ⊢
  simp only at h ⊢
  split at h
  · rfl
  · cases h

theorem Unique.add {reg : SourceRegistry} (h : reg.Unique) {kind : String}
    {path url bucket : Option String} {enabled : Option Bool} {secret : Option String}
    (hlt : ∀ id, (reg.add kind path url bucket enabled secret).1 = .ok id →
      reg.nextId.toNat + 1 < 2 ^ 64) :
    (reg.add kind path url bucket enabled secret).2.Unique := by
  cases hadd : (reg.add kind path url bucket enabled secret).1 with
  | error e =>
      rw [add_eq_error hadd]
      exact h
  | ok id =>
      have hbelow := below_add h.below (hlt id hadd) kind path url bucket enabled secret
      obtain ⟨rfl, s, hid, heq⟩ := add_eq_ok hadd
      rw [heq] at hbelow ⊢
      refine ⟨?_, hbelow, fun id hmem => ?_⟩
      · show ((reg.sources ++ [s]).map SourceSpec.sourceId).Nodup
        rw [List.map_append, List.map_singleton, List.nodup_append]
        refine ⟨h.ids, List.nodup_singleton _, fun a ha b hb => ?_⟩
        obtain ⟨s', hs', rfl⟩ := List.mem_map.mp ha
        rw [List.mem_singleton.mp hb, hid]
        -- the next number is above the number of every source
        exact h.below.newId hs'
      · obtain ⟨s', hs', hid'⟩ := h.marked id hmem
        exact ⟨s', List.mem_append_left _ hs', hid'⟩

theorem Unique.dropSource {reg : SourceRegistry} (h : reg.Unique) (sourceId : String) :
    (reg.dropSource sourceId).2.Unique := by
  have hbelow := below_dropSource h.below sourceId
  rcases dropSource_cases reg sourceId with heq | heq
  · rw [heq]
    exact h
  · rw [heq] at hbelow ⊢
    exact ⟨h.ids.sublist (List.filter_sublist.map _), hbelow,
      fun _ hmem => absurd hmem (Finset.notMem_empty _)⟩

theorem unique_restore (reg : SourceRegistry) {specs : List SourceSpec} (hids : IdsDistinct specs)
    (hspecs : ∀ s ∈ specs, ∀ n, sourceNumber s.sourceId = some n → n.toNat + 1 < 2 ^ 64) :
    (reg.restore specs).Unique := by
  refine ⟨hids, below_restore reg fun s hs hid => ?_,
    fun _ hmem => absurd hmem (Finset.notMem_empty _)⟩
  have hnumber : sourceNumber s.sourceId = some (UInt64.ofNat (2 ^ 64 - 1)) := by
    rw [hid]
    exact sourceNumber_numberedId (by decide)
  exact absurd (hspecs s hs _ hnumber) (by decide)

theorem Unique.ensureIndexed {reg : SourceRegistry} (h : reg.Unique) (rd : Readers)
    (fs : FileSystem) : (reg.ensureIndexed rd fs).2.Unique := by
  refine ⟨?_, below_ensureIndexed h.below, fun id hmem => ?_⟩
  · rw [sources_ensureIndexed]
    exact h.ids
  · rw [sources_ensureIndexed]
    rcases mem_indexed_indexPending _ _ hmem with hmem | ⟨s, hs, -, hid⟩
    · exact h.marked id hmem
    · exact ⟨s, (isLocal_of_mem_pending hs).1, hid⟩

theorem unique_step {b : Build} {rd : Readers} {reg : SourceRegistry} {op : SourceOp}
    (h : reg.Unique) (hop : NoOverflow reg op) (hids : op.RestoresDistinct) :
    (registryStep b rd reg op).Unique := by
  cases op with
  | add kind path url bucket enabled secret =>
      have hlt : ∀ id, (reg.add kind path url bucket enabled secret).1 = .ok id →
          reg.nextId.toNat + 1 < 2 ^ 64 := hop
      rw [registryStep, addIn_eq fun id hadd => b.succ_of_lt (hlt id hadd)]
      dsimp only
      exact h.add hlt
  | dropSource sourceId => exact h.dropSource sourceId
  | restore specs =>
      rw [registryStep, restoreIn_eq fun s hs n hn => b.succ_of_lt (hop s hs n hn)]
      exact unique_restore reg hids hop
  | locate fs token =>
      rw [registryStep, locate_snd]
      exact h.ensureIndexed rd fs

/-! ## Indexing a new source -/

/-- Only `locate` marks sources. -/
theorem notMem_indexed_step {b : Build} {rd : Readers} {reg : SourceRegistry} {op : SourceOp}
    (hop : op.isLocate = false) {id : String} (h : id ∉ reg.indexed) :
    id ∉ (registryStep b rd reg op).indexed := by
  cases op with
  | add kind path url bucket enabled secret =>
      rw [registryStep]
      unfold addIn
      cases hadd : reg.add kind path url bucket enabled secret with
      | mk r added =>
          have hindexed : added.indexed = reg.indexed := by
            rcases add_cases reg kind path url bucket enabled secret with heq | ⟨s, -, heq⟩ <;>
              (rw [hadd] at heq; simp only at heq; rw [heq])
          cases r with
          | error e => exact hindexed ▸ h
          | ok id =>
              simp only
              -- an overflow unwinds before the source is registered
              split
              · exact hindexed ▸ h
              · exact h
  | dropSource sourceId =>
      rw [registryStep]
      rcases dropSource_cases reg sourceId with heq | heq
      · rw [heq]
        exact h
      · rw [heq]
        exact Finset.notMem_empty _
  | restore specs => exact Finset.notMem_empty _
  | locate fs token => cases hop

theorem awaitsIndexing_of_notMem {b : Build} {rd : Readers} {reg : SourceRegistry}
    {s : SourceSpec} (hlocal : s.isLocal = true) (h : s.sourceId ∉ reg.indexed) :
    AwaitsIndexing b rd reg s := by
  intro between hbetween hs fs token hreturns
  have hnot : s.sourceId ∉ (Run.run (registryStep b rd) reg between).indexed :=
    Run.invariant_run (P := fun reg : SourceRegistry => s.sourceId ∉ reg.indexed)
      (fun _ _ h hop => notMem_indexed_step hop h) h
      (Run.MeetsAlong.of_forall_mem (C := fun op : SourceOp => op.isLocate = false) hbetween _)
  -- Not marked, it is pending for the `locate` that follows.
  generalize Run.run (registryStep b rd) reg between = reg' at hs hreturns hnot ⊢
  have hlist := locate_returns_iff.mp hreturns
  have hpending : s ∈ reg'.pending := mem_pending_iff.mpr ⟨hs, hlocal, hnot⟩
  rw [locate_snd]
  refine ⟨?_, fun ix hix k hk => ?_⟩
  · exact (mem_indexed_ensureIndexed hlist).mpr (Or.inr ⟨s, hpending, rfl⟩)
  · rw [lookup_ensureIndexed_of_returns hlist]
    have hrow : (ix.aliases, (ix.path, s.kind == "glob")) ∈ fileRows rd fs reg'.pending := by
      refine List.mem_flatMap.mpr ⟨s, List.mem_filter.mpr ⟨hpending, hlocal⟩, ?_⟩
      exact List.mem_map.mpr ⟨ix, hix, rfl⟩
    obtain ⟨entry, hentry⟩ := Table.firstMatch_isSome hrow hk
    have hfile : fileFor rd fs reg'.pending k = some entry := hentry
    rw [hfile]
    cases reg'.index.lookup k with
    | none => exact ⟨entry, rfl⟩
    | some entry' => exact ⟨entry', rfl⟩

/-! ## What every run keeps -/

/-- Of sources with distinct ids at most one has the id that is dropped. -/
theorem length_le_filter {specs : List SourceSpec} (h : IdsDistinct specs) (sourceId : String) :
    specs.length ≤ (specs.filter fun s => s.sourceId ≠ sourceId).length + 1 := by
  induction specs with
  | nil => exact Nat.zero_le _
  | cons s specs ih =>
      obtain ⟨hnot, hrest⟩ := List.nodup_cons.mp h
      by_cases hid : s.sourceId = sourceId
      · -- no source behind it has the same id
        have hall : (specs.filter fun s => s.sourceId ≠ sourceId) = specs := by
          refine List.filter_eq_self.mpr fun s' hs' => decide_eq_true fun hid' => hnot ?_
          exact List.mem_map.mpr ⟨s', hs', hid'.trans hid.symm⟩
        rw [List.filter_cons_of_neg (by simp [hid]), hall, List.length_cons]
      · rw [List.filter_cons_of_pos (by simp [hid]), List.length_cons, List.length_cons]
        exact Nat.succ_le_succ (ih hrest)

theorem uniqueAt {b : Build} {rd : Readers} {reg : SourceRegistry} {op : SourceOp}
    (h : reg.Unique) (hop : NoOverflow reg op) : UniqueAt b rd reg op := by
  cases op with
  | add kind path url bucket enabled secret =>
      have hlt : ∀ id, (reg.add kind path url bucket enabled secret).1 = .ok id →
          reg.nextId.toNat + 1 < 2 ^ 64 := hop
      rw [UniqueAt, addIn_eq fun id hadd => b.succ_of_lt (hlt id hadd)]
      dsimp only
      refine ⟨returns_iff_ne_panicked.mp (returns_returned _), fun id hid => ?_⟩
      obtain ⟨hnumber, s', -, heq⟩ := add_eq_ok (returned.inj hid)
      have hnew : ∀ s ∈ reg.sources, s.sourceId ≠ id := by
        intro s hs
        rw [hnumber]
        exact h.below.newId hs
      -- A mark left behind by an earlier source of this id would keep it from being indexed.
      have hnot : id ∉ reg.indexed := by
        intro hmem
        obtain ⟨s'', hs'', hid''⟩ := h.marked id hmem
        exact hnew s'' hs'' hid''
      rw [heq]
      exact ⟨hnew, fun s _ hsid hlocal => awaitsIndexing_of_notMem hlocal (hsid ▸ hnot)⟩
  | dropSource sourceId =>
      rw [UniqueAt, sources_dropSource]
      exact length_le_filter h.ids sourceId
  | restore specs => trivial
  | locate fs token => trivial

/-- **Source ids are unique** in every run from the empty registry, in either build, as long as no
step overflows the counter: before every step the ids are distinct, the step does what the ids are
for, and in the end the ids are distinct. -/
theorem unique_run (b : Build) (rd : Readers) {ops : List SourceOp}
    (hrestores : ∀ op ∈ ops, op.RestoresDistinct)
    (hops : Run.MeetsAlong (registryStep b rd) NoOverflow new ops) :
    Run.MeetsAlong (registryStep b rd)
        (fun reg op => IdsDistinct reg.sources ∧ UniqueAt b rd reg op) new ops ∧
      IdsDistinct (Run.run (registryStep b rd) new ops).sources := by
  have hmeets := hops.and (Run.MeetsAlong.of_forall_mem hrestores new)
  have hkeep : ∀ reg op, Unique reg → NoOverflow reg op ∧ op.RestoresDistinct →
      (registryStep b rd reg op).Unique :=
    fun reg op h hop => unique_step h hop.1 hop.2
  refine ⟨Run.MeetsAlong.imp hkeep (fun reg op h hop => ⟨h.ids, uniqueAt h hop.1⟩) unique_new
    hmeets, ?_⟩
  exact (Run.invariant_run hkeep unique_new hmeets).ids

/-- A source is added behind a restored one, and dropped. -/
theorem unique_run_restored :
    Run.MeetsAlong (registryStep .debug StandIn.readers)
        (fun reg op => IdsDistinct reg.sources ∧ UniqueAt .debug StandIn.readers reg op) new
        [.restore [StandIn.dirSource "src7" "d"], .add "dir" (some "e") none none none none,
          .dropSource "src7"] ∧
      IdsDistinct (Run.run (registryStep .debug StandIn.readers) new
        [.restore [StandIn.dirSource "src7" "d"], .add "dir" (some "e") none none none none,
          .dropSource "src7"]).sources := by
  refine unique_run .debug StandIn.readers ?_ ⟨?_, ?_, trivial, trivial⟩
  · rintro op (_ | ⟨_, _ | ⟨_, _ | ⟨_, ⟨⟩⟩⟩⟩)
    · exact List.nodup_singleton _
    · trivial
    · trivial
  · intro s hs n hn
    rw [List.mem_singleton.mp hs] at hn
    have hseven : sourceNumber "src7" = some 7 := by decide +kernel
    cases hseven.symm.trans hn
    decide
  · intro id _
    decide +kernel

/-- Two sources whose numbers are the last two are restored, the counter wraps for the second one,
and a new source gets its id. -/
theorem not_unique_lastNumbers :
    ¬ ∀ ops : List SourceOp, (∀ op ∈ ops, op.RestoresDistinct) →
      Run.MeetsAlong (registryStep .release StandIn.readers)
        (fun reg op => IdsDistinct reg.sources ∧ UniqueAt .release StandIn.readers reg op) new
        ops := by
  intro h
  have hrestores : ∀ op ∈ [SourceOp.restore [StandIn.dirSource "src18446744073709551614" "d",
      StandIn.dirSource "src18446744073709551615" "e"],
      .add "dir" (some "f") none none none none], op.RestoresDistinct := by
    rintro op (_ | ⟨_, _ | ⟨_, ⟨⟩⟩⟩)
    · show IdsDistinct _
      decide
    · trivial
  obtain ⟨-, ⟨-, -, hadded⟩, -⟩ := h _ hrestores
  have hid := (hadded "src18446744073709551615" (by decide +kernel)).1
  revert hid
  decide +kernel

end SourceRegistry

end VgiSymbols
