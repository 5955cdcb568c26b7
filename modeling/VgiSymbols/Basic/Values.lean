import VgiSymbols.Basic.Lru

set_option autoImplicit false
set_option linter.unusedSectionVars false

/-! # Tables and caches seen through a map of their values

`mapVal f` replaces every value of a table, or of an LRU cache, by its image under `f` and leaves
keys and order alone. Every operation commutes with it: on the images it does what it does on the
values. A map that forgets a part of the values (a timestamp, say) thus shows that this part
never decides what an operation does.
-/

namespace Table

variable {K V W : Type} [DecidableEq K]

/-- The table with every value mapped. -/
def mapVal (f : V → W) (t : Table K V) : Table K W :=
  ⟨t.entries.map fun e => ⟨e.1, f e.2⟩, t.nodupKeys.map₂ fun _ => f⟩

section MapVal

variable (f : V → W) (t : Table K V)

theorem entries_mapVal : (t.mapVal f).entries = t.entries.map fun e => ⟨e.1, f e.2⟩ := rfl

@[simp] theorem mapVal_empty : mapVal f (∅ : Table K V) = ∅ := rfl

@[simp] theorem keys_mapVal : (t.mapVal f).keys = t.keys :=
  List.map₂_keys (fun _ => f) t.entries

@[simp] theorem mem_mapVal {k : K} : k ∈ t.mapVal f ↔ k ∈ t := by
  rw [AList.mem_keys, keys_mapVal, AList.mem_keys]

@[simp] theorem lookup_mapVal (k : K) : (t.mapVal f).lookup k = (t.lookup k).map f :=
  List.dlookup_map₂ (f := fun _ => f) k

@[simp] theorem erase_mapVal (k : K) : (t.mapVal f).erase k = mapVal f (t.erase k) := by
  apply AList.ext
  rw [entries_erase_eq_filter, entries_mapVal, entries_mapVal, entries_erase_eq_filter,
    List.filter_map]
  rfl

@[simp] theorem insert_mapVal (k : K) (v : V) :
    AList.insert k (f v) (t.mapVal f) = mapVal f (AList.insert k v t) := by
  apply AList.ext
  rw [entries_mapVal, AList.entries_insert, AList.entries_insert, List.map_cons]
  exact congrArg _ (congrArg AList.entries (erase_mapVal f t k))

@[simp] theorem dropLast_mapVal : (t.mapVal f).dropLast = (t.dropLast).mapVal f :=
  AList.ext List.map_dropLast.symm

@[simp] theorem orInsert_mapVal (k : K) (v : V) :
    (t.mapVal f).orInsert k (f v) = (t.orInsert k v).mapVal f := by
  unfold orInsert
  by_cases hk : k ∈ t
  · rw [if_pos hk, if_pos ((mem_mapVal f t).mpr hk)]
  · rw [if_neg hk, if_neg fun h => hk ((mem_mapVal f t).mp h), insert_mapVal]

theorem modify_mapVal {g : V → V} {g' : W → W} (hg : ∀ v, f (g v) = g' (f v)) (k : K) :
    (t.mapVal f).modify k g' = (t.modify k g).mapVal f := by
  unfold modify
  rw [lookup_mapVal]
  cases t.lookup k with
  | none => rfl
  | some v =>
      show AList.insert k (g' (f v)) (t.mapVal f) = mapVal f (AList.insert k (g v) t)
      rw [← hg, insert_mapVal]

end MapVal

end Table

namespace LruCache

variable {K V W : Type} [DecidableEq K]

/-- The cache with every value mapped. -/
def mapVal (f : V → W) (c : LruCache K V) : LruCache K W :=
  ⟨c.cap, c.items.mapVal f, c.cap_pos, by rw [Table.keys_mapVal]; exact c.length_le⟩

section MapVal

variable (f : V → W) (c : LruCache K V)

@[simp] theorem len_mapVal : (c.mapVal f).len = c.len :=
  congrArg List.length (Table.keys_mapVal f c.items)

@[simp] theorem peek_mapVal (k : K) : (c.mapVal f).peek k = (c.peek k).map f :=
  Table.lookup_mapVal f c.items k

theorem promote_mapVal {g : V → V} {g' : W → W} (hg : ∀ v, f (g v) = g' (f v)) (k : K) :
    (c.mapVal f).promote k g' = (c.promote k g).mapVal f := by
  cases h : c.peek k with
  | none =>
      rw [promote_of_peek_eq_none h, promote_of_peek_eq_none (by rw [peek_mapVal, h]; rfl)]
  | some v =>
      have h' : (c.mapVal f).peek k = some (f v) := by rw [peek_mapVal, h]; rfl
      apply eq_of_items (by simp [mapVal])
      rw [promote_of_peek g' h', ← hg]
      exact (Table.insert_mapVal f c.items k (g v)).trans
        (congrArg (Table.mapVal f) (promote_of_peek g h).symm)

theorem roomFor_mapVal (k : K) : (c.mapVal f).roomFor k = (c.roomFor k).mapVal f := by
  have hroom : k ∈ (c.mapVal f).items ∨ (c.mapVal f).len < (c.mapVal f).cap ↔
      k ∈ c.items ∨ c.len < c.cap := by
    rw [len_mapVal]
    exact or_congr_left (Table.mem_mapVal f c.items)
  unfold roomFor
  by_cases h : k ∈ c.items ∨ c.len < c.cap
  · rw [if_pos h, if_pos (hroom.mpr h)]
    rfl
  · rw [if_neg h, if_neg (mt hroom.mp h)]
    exact Table.dropLast_mapVal f c.items

theorem put_mapVal (k : K) (v : V) :
    (c.mapVal f).put k (f v) = ((c.put k v).1.map f, (c.put k v).2.mapVal f) := by
  refine Prod.ext (peek_mapVal f c k) (eq_of_items rfl ?_)
  show AList.insert k (f v) ((c.mapVal f).roomFor k)
    = Table.mapVal f (AList.insert k v (c.roomFor k))
  rw [roomFor_mapVal, Table.insert_mapVal]

theorem popLru_mapVal :
    (c.mapVal f).popLru
      = c.popLru.map fun e => ((e.1.1, f e.1.2), e.2.mapVal f) := by
  have hlast : (c.mapVal f).items.entries.getLast?
      = c.items.entries.getLast?.map fun e => ⟨e.1, f e.2⟩ := List.getLast?_map
  unfold popLru
  rw [hlast, Option.map_map, Option.map_map]
  refine congrArg (Option.map · _) (funext fun e => ?_)
  exact Prod.ext rfl (eq_of_items rfl (Table.dropLast_mapVal f c.items))

theorem pop_mapVal (k : K) :
    (c.mapVal f).pop k = (c.pop k).map fun e => (f e.1, e.2.mapVal f) := by
  unfold pop
  rw [peek_mapVal, Option.map_map, Option.map_map]
  refine congrArg (Option.map · _) (funext fun v => ?_)
  exact Prod.ext rfl (eq_of_items rfl (Table.erase_mapVal f c.items k))

end MapVal

end LruCache
