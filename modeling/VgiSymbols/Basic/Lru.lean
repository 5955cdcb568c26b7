import VgiSymbols.Basic.Table
import Mathlib.Algebra.BigOperators.Group.List.Basic
import Mathlib.Algebra.Order.BigOperators.Group.List
import Mathlib.Algebra.Order.Group.Nat
import Mathlib.Algebra.GroupWithZero.Nat

set_option autoImplicit false
set_option linter.unusedSectionVars false

/-! # A bounded least-recently-used cache

An LRU cache is a table whose entries are kept in order of use, the most recently used first,
together with a positive capacity that the number of entries never exceeds. Both facts are
fields of the structure, so every cache that can be built satisfies them.

`put` returns the value it replaces, and only that one: when a *new* key arrives at a full
cache the least recently used entry is dropped silently. The two halves of this file say what
each operation does to the keys (their order is the recency order) and to a total of weights
carried by the values.
-/

namespace Table

variable {K V : Type} [DecidableEq K]

/-- The total weight of the values of a table. -/
def weight (w : V → Nat) (t : Table K V) : Nat := (t.entries.map fun e => w e.2).sum

theorem weight_erase (w : V → Nat) {t : Table K V} {k : K} {v : V} (h : t.lookup k = some v) :
    weight w (t.erase k) + w v = weight w t := by
  have hk : k ∈ t.entries.keys := AList.mem_keys.mp (AList.lookup_isSome.mp (by rw [h]; rfl))
  obtain ⟨b, l₁, l₂, hl₁, hl, he⟩ := List.exists_of_kerase hk
  have hb : b = v := by
    have hmem : (⟨k, b⟩ : Sigma fun _ : K => V) ∈ t.entries := by rw [hl]; simp
    have := AList.mem_lookup_iff.mpr hmem
    rw [h] at this
    exact (Option.some.inj this).symm
  subst hb
  have hee : (t.erase k).entries = l₁ ++ l₂ := he
  simp only [weight, hee, hl, List.map_append, List.map_cons, List.sum_append, List.sum_cons]
  omega

theorem weight_insert_of_notMem (w : V → Nat) {t : Table K V} {k : K} (v : V) (h : k ∉ t) :
    weight w (AList.insert k v t) = weight w t + w v := by
  rw [weight, AList.entries_insert_of_notMem h, List.map_cons, List.sum_cons]
  exact Nat.add_comm _ _

theorem weight_insert_of_lookup (w : V → Nat) {t : Table K V} {k : K} {old : V} (v : V)
    (h : t.lookup k = some old) :
    weight w (AList.insert k v t) + w old = weight w t + w v := by
  have he := weight_erase w h
  have hi : weight w (AList.insert k v t) = w v + weight w (t.erase k) := by
    rw [weight, AList.entries_insert, List.map_cons, List.sum_cons]
    rfl
  omega

/-- The table without its last entry. -/
def dropLast (t : Table K V) : Table K V :=
  ⟨t.entries.dropLast, t.nodupKeys.sublist (List.dropLast_sublist _)⟩

theorem keys_dropLast (t : Table K V) : t.dropLast.keys = t.keys.dropLast := by
  show (t.entries.dropLast).keys = t.entries.keys.dropLast
  simp only [List.keys, List.map_dropLast]

theorem lookup_of_dropLast {t : Table K V} {k : K} {v : V} (h : t.dropLast.lookup k = some v) :
    t.lookup k = some v :=
  AList.mem_lookup_iff.mpr ((List.dropLast_sublist _).subset (AList.mem_lookup_iff.mp h))

theorem weight_dropLast (w : V → Nat) {t : Table K V} {e : Sigma fun _ : K => V}
    (h : t.entries.getLast? = some e) : weight w t.dropLast + w e.2 = weight w t := by
  have hl : t.entries = t.entries.dropLast ++ [e] := by
    obtain ⟨l, hl⟩ := List.getLast?_eq_some_iff.mp h
    rw [hl, List.dropLast_concat]
  have := congrArg (fun l => (l.map fun e => w e.2).sum) hl
  simp only [List.map_append, List.map_cons, List.map_nil, List.sum_append, List.sum_cons,
    List.sum_nil] at this
  show ((t.entries.dropLast).map fun e => w e.2).sum + w e.2 = (t.entries.map fun e => w e.2).sum
  omega

theorem length_keys_insert_of_mem {t : Table K V} {k : K} (v : V) (h : k ∈ t) :
    (AList.insert k v t).keys.length = t.keys.length := by
  rw [AList.keys_insert, List.length_cons, List.length_erase_of_mem (AList.mem_keys.mp h)]
  have := List.length_pos_of_mem (AList.mem_keys.mp h)
  omega

theorem length_keys_insert_le (t : Table K V) (k : K) (v : V) :
    (AList.insert k v t).keys.length ≤ t.keys.length + 1 := by
  rw [AList.keys_insert, List.length_cons]
  exact Nat.add_le_add_right List.erase_sublist.length_le 1

end Table

/-- A cache of at most `cap` entries, the most recently used first. -/
structure LruCache (K V : Type) where
  cap : Nat
  items : Table K V
  cap_pos : 0 < cap
  length_le : items.keys.length ≤ cap

namespace LruCache

variable {K V : Type} [DecidableEq K]

/-- The empty cache. -/
def new (cap : Nat) (h : 0 < cap) : LruCache K V := ⟨cap, ∅, h, Nat.zero_le _⟩

/-- The keys in the cache, the most recently used first. -/
def keys (c : LruCache K V) : List K := c.items.keys

def len (c : LruCache K V) : Nat := c.keys.length

/-- The value under `k`, without promoting it. -/
def peek (c : LruCache K V) (k : K) : Option V := c.items.lookup k

def contains (c : LruCache K V) (k : K) : Bool := (c.peek k).isSome

/-- Change the value under `k` in place and make it the most recently used. -/
def promote (c : LruCache K V) (k : K) (f : V → V) : LruCache K V :=
  match h : c.items.lookup k with
  | none => c
  | some v =>
      ⟨c.cap, c.items.insert k (f v), c.cap_pos, by
        rw [Table.length_keys_insert_of_mem _ (AList.lookup_isSome.mp (by rw [h]; rfl))]
        exact c.length_le⟩

/-- `get_mut`: the value under `k`, which becomes the most recently used; the caller's change
to it is `f`. -/
def getMut (c : LruCache K V) (k : K) (f : V → V) : Option (V × LruCache K V) :=
  (c.peek k).map fun v => (v, c.promote k f)

/-- The entries that are left when a slot is needed for the key `k`. -/
def roomFor (c : LruCache K V) (k : K) : Table K V :=
  if k ∈ c.items ∨ c.len < c.cap then c.items else c.items.dropLast

theorem length_roomFor (c : LruCache K V) (k : K) (v : V) :
    (AList.insert k v (c.roomFor k)).keys.length ≤ c.cap := by
  unfold roomFor
  have hc := c.length_le
  split
  case isTrue h =>
      by_cases hk : k ∈ c.items
      · -- the key keeps its slot
        rw [Table.length_keys_insert_of_mem v hk]
        exact hc
      · have hlt : c.items.keys.length < c.cap := h.resolve_left hk
        have := Table.length_keys_insert_le c.items k v
        omega
  case isFalse h =>
      have hle := Table.length_keys_insert_le c.items.dropLast k v
      rw [Table.keys_dropLast, List.length_dropLast] at hle
      have := c.cap_pos
      omega

/-- `put`: store `v` under `k` as the most recently used entry. The value it replaces is
returned; an entry dropped to make room for a new key is not. -/
def put (c : LruCache K V) (k : K) (v : V) : Option V × LruCache K V :=
  (c.peek k, ⟨c.cap, AList.insert k v (c.roomFor k), c.cap_pos, c.length_roomFor k v⟩)

/-- Remove the least recently used entry. -/
def popLru (c : LruCache K V) : Option ((K × V) × LruCache K V) :=
  c.items.entries.getLast?.map fun e =>
    ((e.1, e.2), ⟨c.cap, c.items.dropLast, c.cap_pos, by
      rw [Table.keys_dropLast, List.length_dropLast]
      have := c.length_le
      omega⟩)

/-- Remove the entry under `k`. -/
def pop (c : LruCache K V) (k : K) : Option (V × LruCache K V) :=
  (c.peek k).map fun v =>
    (v, ⟨c.cap, c.items.erase k, c.cap_pos, by
      rw [AList.keys_erase]
      exact List.erase_sublist.length_le.trans c.length_le⟩)

/-- The total weight of the cached values. -/
def weight (w : V → Nat) (c : LruCache K V) : Nat := c.items.weight w

theorem mem_keys_iff {c : LruCache K V} {k : K} : k ∈ c.keys ↔ ∃ v, c.peek k = some v := by
  rw [keys, ← AList.mem_keys, ← AList.lookup_isSome, Option.isSome_iff_exists]
  rfl

theorem peek_eq_none_iff {c : LruCache K V} {k : K} : c.peek k = none ↔ k ∉ c.keys := by
  rw [mem_keys_iff]
  cases c.peek k <;> simp

theorem keys_nodup (c : LruCache K V) : c.keys.Nodup := c.items.keys_nodup

theorem len_le_cap (c : LruCache K V) : c.len ≤ c.cap := c.length_le

theorem eq_of_items {c c' : LruCache K V} (hcap : c.cap = c'.cap) (hitems : c.items = c'.items) :
    c = c' := by
  cases c
  cases c'
  cases hcap
  cases hitems
  rfl

/-! ## `promote` -/

theorem promote_of_peek {c : LruCache K V} {k : K} {v : V} (f : V → V) (h : c.peek k = some v) :
    (c.promote k f).items = AList.insert k (f v) c.items := by
  unfold promote
  split
  case h_1 h' => exact absurd (h.symm.trans h') (by simp)
  case h_2 v' h' =>
      cases Option.some.inj (h'.symm.trans h)
      rfl

theorem promote_of_peek_eq_none {c : LruCache K V} {k : K} {f : V → V} (h : c.peek k = none) :
    c.promote k f = c := by
  unfold promote
  split
  · rfl
  · next v h' => exact absurd (h.symm.trans h') (by simp)

@[simp] theorem cap_promote (c : LruCache K V) (k : K) (f : V → V) :
    (c.promote k f).cap = c.cap := by
  unfold promote
  split <;> rfl

theorem peek_promote (c : LruCache K V) (k a : K) (f : V → V) :
    (c.promote k f).peek a = if a = k then (c.peek a).map f else c.peek a := by
  cases h : c.peek k with
  | none =>
      rw [promote_of_peek_eq_none h]
      by_cases ha : a = k
      · rw [if_pos ha, ha, h, Option.map_none]
      · rw [if_neg ha]
  | some v =>
      rw [peek, promote_of_peek f h, Table.lookup_insert]
      by_cases ha : a = k
      · rw [if_pos ha, if_pos ha, ha, h, Option.map_some]
      · rw [if_neg ha, if_neg ha, peek]

theorem keys_promote {c : LruCache K V} {k : K} {v : V} (f : V → V) (h : c.peek k = some v) :
    (c.promote k f).keys = k :: c.keys.erase k := by
  rw [keys, promote_of_peek f h, AList.keys_insert, keys]

theorem len_promote (c : LruCache K V) (k : K) (f : V → V) : (c.promote k f).len = c.len := by
  cases h : c.peek k with
  | none => rw [promote_of_peek_eq_none h]
  | some v =>
      have hk : k ∈ c.keys := mem_keys_iff.mpr ⟨v, h⟩
      have hpos := List.length_pos_of_mem hk
      rw [len, keys_promote f h, List.length_cons, List.length_erase_of_mem hk, len]
      omega

theorem weight_promote {c : LruCache K V} {k : K} {v : V} (f : V → V) (w : V → Nat)
    (h : c.peek k = some v) (hw : w (f v) = w v) : (c.promote k f).weight w = c.weight w := by
  have := Table.weight_insert_of_lookup w (f v) h
  rw [weight, promote_of_peek f h, weight]
  omega

/-! ## `put` -/

@[simp] theorem put_fst (c : LruCache K V) (k : K) (v : V) : (c.put k v).1 = c.peek k := rfl

@[simp] theorem peek_put_self (c : LruCache K V) (k : K) (v : V) :
    (c.put k v).2.peek k = some v :=
  AList.lookup_insert _

/-- Everything else in the cache after a `put` was there before. -/
theorem peek_of_put_ne {c : LruCache K V} {k a : K} {v r : V} (ha : a ≠ k)
    (h : (c.put k v).2.peek a = some r) : c.peek a = some r := by
  have h' : (AList.insert k v (c.roomFor k)).lookup a = some r := h
  rw [AList.lookup_insert_ne ha] at h'
  unfold roomFor at h'
  split at h'
  · exact h'
  · exact Table.lookup_of_dropLast h'

/-- With a slot for the key, `put` loses nothing. -/
theorem peek_put_ne {c : LruCache K V} {k a : K} {v : V} (ha : a ≠ k)
    (hroom : k ∈ c.keys ∨ c.len < c.cap) : (c.put k v).2.peek a = c.peek a := by
  have hr : c.roomFor k = c.items :=
    if_pos (hroom.imp_left fun h => AList.mem_keys.mpr h)
  show (AList.insert k v (c.roomFor k)).lookup a = c.items.lookup a
  rw [hr, AList.lookup_insert_ne ha]

theorem keys_put (c : LruCache K V) (k : K) (v : V) :
    (c.put k v).2.keys = k :: (c.roomFor k).keys.erase k :=
  AList.keys_insert _

theorem keys_roomFor_sublist (c : LruCache K V) (k : K) :
    List.Sublist (c.roomFor k).keys c.keys := by
  unfold roomFor
  split
  · exact List.Sublist.refl _
  · rw [Table.keys_dropLast]
    exact List.dropLast_sublist _

theorem len_put_le (c : LruCache K V) (k : K) (v : V) : (c.put k v).2.len ≤ c.len + 1 := by
  rw [len, keys_put, List.length_cons]
  exact Nat.add_le_add_right
    (List.erase_sublist.length_le.trans (c.keys_roomFor_sublist k).length_le) 1

/-! ## `popLru` and `pop` -/

theorem popLru_eq_none {c : LruCache K V} : c.popLru = none ↔ c.keys = [] := by
  unfold popLru
  rw [Option.map_eq_none_iff, List.getLast?_eq_none_iff]
  exact List.map_eq_nil_iff.symm

theorem keys_popLru {c c' : LruCache K V} {k : K} {v : V} (h : c.popLru = some ((k, v), c')) :
    c.keys = c'.keys ++ [k] := by
  obtain ⟨e, he, heq⟩ := Option.map_eq_some_iff.mp h
  obtain ⟨l, hl⟩ := List.getLast?_eq_some_iff.mp he
  cases heq
  show c.items.entries.keys = (c.items.entries.dropLast).keys ++ [e.1]
  rw [hl, List.dropLast_concat]
  simp [List.keys]

@[simp] theorem cap_popLru {c c' : LruCache K V} {e : K × V} (h : c.popLru = some (e, c')) :
    c'.cap = c.cap := by
  obtain ⟨e, he, heq⟩ := Option.map_eq_some_iff.mp h
  cases heq
  rfl

theorem weight_popLru {c c' : LruCache K V} {k : K} {v : V} (w : V → Nat)
    (h : c.popLru = some ((k, v), c')) : c'.weight w + w v = c.weight w := by
  obtain ⟨e, he, heq⟩ := Option.map_eq_some_iff.mp h
  cases heq
  exact Table.weight_dropLast w he

theorem items_popLru {c c' : LruCache K V} {e : K × V} (h : c.popLru = some (e, c')) :
    c'.items = c.items.dropLast := by
  obtain ⟨e, he, heq⟩ := Option.map_eq_some_iff.mp h
  cases heq
  rfl

/-- A full cache has an entry to pop. -/
theorem exists_popLru_of_full {c : LruCache K V} (h : ¬ c.len < c.cap) :
    ∃ e c', c.popLru = some (e, c') := by
  cases hp : c.popLru with
  | none =>
      have hnil := popLru_eq_none.mp hp
      have hlen : c.len = 0 := by rw [len, hnil]; rfl
      exact absurd (hlen ▸ c.cap_pos) h
  | some e => exact ⟨e.1, e.2, rfl⟩

theorem peek_of_popLru {c c' : LruCache K V} {e : K × V} (h : c.popLru = some (e, c')) {a : K}
    {r : V} (ha : c'.peek a = some r) : c.peek a = some r := by
  obtain ⟨e, he, heq⟩ := Option.map_eq_some_iff.mp h
  cases heq
  exact Table.lookup_of_dropLast ha

theorem len_popLru {c c' : LruCache K V} {e : K × V} (h : c.popLru = some (e, c')) :
    c'.len + 1 = c.len := by
  have hk := keys_popLru (k := e.1) (v := e.2) h
  rw [len, len, hk, List.length_append]
  rfl

theorem pop_eq_some {c c' : LruCache K V} {k : K} {v : V} (h : c.pop k = some (v, c')) :
    c.peek k = some v ∧ c'.cap = c.cap ∧ c'.items = c.items.erase k := by
  obtain ⟨v', hv, heq⟩ := Option.map_eq_some_iff.mp h
  cases heq
  exact ⟨hv, rfl, rfl⟩

theorem peek_pop {c c' : LruCache K V} {k : K} {v : V} (h : c.pop k = some (v, c')) (a : K) :
    c'.peek a = if a = k then none else c.peek a := by
  rw [peek, (pop_eq_some h).2.2, Table.lookup_erase, peek]

theorem keys_pop {c c' : LruCache K V} {k : K} {v : V} (h : c.pop k = some (v, c')) :
    c'.keys = c.keys.erase k := by
  rw [keys, (pop_eq_some h).2.2, AList.keys_erase, keys]

theorem weight_pop {c c' : LruCache K V} {k : K} {v : V} (w : V → Nat)
    (h : c.pop k = some (v, c')) : c'.weight w + w v = c.weight w := by
  obtain ⟨hv, -, hi⟩ := pop_eq_some h
  rw [weight, hi, weight]
  exact Table.weight_erase w hv

/-- What is left after the least recently used entry is popped. -/
theorem peek_popLru {c c' : LruCache K V} {k : K} {v : V} (h : c.popLru = some ((k, v), c')) :
    c.peek k = some v ∧ ∀ a, c'.peek a = if a = k then none else c.peek a := by
  have hkeys := keys_popLru h
  have hnodup := c.keys_nodup
  rw [hkeys, List.nodup_append] at hnodup
  obtain ⟨e, he, heq⟩ := Option.map_eq_some_iff.mp h
  cases heq
  have hmem : e ∈ c.items.entries := List.mem_of_getLast? he
  refine ⟨AList.mem_lookup_iff.mpr hmem, fun a => ?_⟩
  by_cases ha : a = e.1
  · rw [if_pos ha, peek_eq_none_iff]
    exact fun hmem' => hnodup.2.2 a hmem' e.1 (by simp) ha
  · rw [if_neg ha]
    obtain ⟨l, hl⟩ := List.getLast?_eq_some_iff.mp he
    show (c.items.entries.dropLast).dlookup a = c.items.entries.dlookup a
    rw [hl, List.dropLast_concat, List.dlookup_append, List.dlookup_cons_ne _ _ ha]
    simp

/-- The entry that `put` drops to make room for a new key. -/
def dropped (c : LruCache K V) (k : K) : Option (K × V) :=
  if k ∈ c.keys ∨ c.len < c.cap then none else c.popLru.map Prod.fst

theorem dropped_eq_some {c : LruCache K V} {k a : K} {v : V} (h : c.dropped k = some (a, v)) :
    c.peek a = some v ∧ a ≠ k := by
  unfold dropped at h
  split at h
  · cases h
  · next hroom =>
      obtain ⟨⟨e, c'⟩, hpop, heq⟩ := Option.map_eq_some_iff.mp h
      cases heq
      have hpeek := (peek_popLru hpop).1
      refine ⟨hpeek, ?_⟩
      rintro rfl
      exact hroom (Or.inl (mem_keys_iff.mpr ⟨v, hpeek⟩))

/-- What is left after a `put`. -/
theorem peek_put (c : LruCache K V) (k : K) (v : V) (a : K) :
    (c.put k v).2.peek a = if a = k then some v
      else if (c.dropped k).map Prod.fst = some a then none else c.peek a := by
  by_cases ha : a = k
  · rw [if_pos ha, ha, peek_put_self]
  · rw [if_neg ha]
    by_cases hroom : k ∈ c.keys ∨ c.len < c.cap
    · rw [dropped, if_pos hroom, peek_put_ne ha hroom]
      rfl
    · -- a new key at a full cache: first the least recently used entry goes
      obtain ⟨e, c', he⟩ := exists_popLru_of_full (not_or.mp hroom).2
      have hr : c.roomFor k = c'.items := by
        rw [items_popLru he]
        exact if_neg fun h => hroom (h.imp_left fun hk => AList.mem_keys.mp hk)
      have hput : (c.put k v).2.peek a = c'.peek a := by
        show (AList.insert k v (c.roomFor k)).lookup a = c'.items.lookup a
        rw [hr, AList.lookup_insert_ne ha]
      rw [hput, (peek_popLru (k := e.1) (v := e.2) he).2 a, dropped, if_neg hroom, he]
      simp only [Option.map_some, Option.some.injEq, eq_comm]

/-! ## The weight of a `put` -/

/-- `put` weighs the new value in and the replaced value out, when there is a slot. -/
theorem weight_put_of_room {c : LruCache K V} {k : K} (v : V) (w : V → Nat)
    (hroom : k ∈ c.keys ∨ c.len < c.cap) :
    (c.put k v).2.weight w + ((c.peek k).map w).getD 0 = c.weight w + w v := by
  have hr : c.roomFor k = c.items :=
    if_pos (hroom.imp_left fun h => AList.mem_keys.mpr h)
  show Table.weight w (AList.insert k v (c.roomFor k)) + _ = _
  rw [hr]
  cases h : c.peek k with
  | none =>
      rw [Table.weight_insert_of_notMem w v (AList.lookup_eq_none.mp h)]
      rfl
  | some old => exact Table.weight_insert_of_lookup w v h

/-- At a full cache a new key takes the slot of the least recently used entry. -/
theorem weight_put_of_full {c c' : LruCache K V} {k : K} (v : V) (w : V → Nat)
    (hk : k ∉ c.keys) (hfull : ¬ c.len < c.cap) {e : K × V} (he : c.popLru = some (e, c')) :
    (c.put k v).2.weight w + w e.2 = c.weight w + w v := by
  have hr : c.roomFor k = c'.items := by
    rw [items_popLru he]
    apply if_neg
    intro h
    rcases h with h | h
    · exact hk (AList.mem_keys.mp h)
    · exact hfull h
  have hk' : k ∉ c'.items := by
    intro h
    apply hk
    rw [keys_popLru (k := e.1) (v := e.2) he]
    exact List.mem_append_left _ (AList.mem_keys.mp h)
  show Table.weight w (AList.insert k v (c.roomFor k)) + _ = _
  rw [hr, Table.weight_insert_of_notMem w v hk']
  have := weight_popLru (k := e.1) (v := e.2) w he
  simp only [weight] at this ⊢
  omega

/-- The weight of a cache never grows by more than the value put in it. -/
theorem weight_put_le (c : LruCache K V) (k : K) (v : V) (w : V → Nat) :
    (c.put k v).2.weight w + ((c.peek k).map w).getD 0 ≤ c.weight w + w v := by
  by_cases hroom : k ∈ c.keys ∨ c.len < c.cap
  · exact (weight_put_of_room v w hroom).le
  · rw [not_or] at hroom
    obtain ⟨e, c', he⟩ := exists_popLru_of_full hroom.2
    have := weight_put_of_full v w hroom.1 hroom.2 he
    rw [peek_eq_none_iff.mpr hroom.1]
    simp only [Option.map_none, Option.getD_none]
    omega

/-- A cached value weighs no more than the cache. -/
theorem le_weight_of_peek {c : LruCache K V} {k : K} {v : V} (w : V → Nat)
    (h : c.peek k = some v) : w v ≤ c.weight w := by
  have := Table.weight_erase w h
  simp only [weight]
  omega

/-- The weight of a cache whose values have bounded weight. -/
theorem weight_le {c : LruCache K V} {w : V → Nat} {b : Nat}
    (h : ∀ k v, c.peek k = some v → w v ≤ b) : c.weight w ≤ c.len * b := by
  have hlen : c.len = (c.items.entries.map fun e => w e.2).length := by
    rw [List.length_map]
    exact List.length_map _
  rw [hlen]
  apply List.sum_le_card_nsmul _ _
  intro n hn
  obtain ⟨e, he, rfl⟩ := List.mem_map.mp hn
  exact h e.1 e.2 (AList.mem_lookup_iff.mpr he)

theorem weight_of_keys_eq_nil {c : LruCache K V} (w : V → Nat) (h : c.keys = []) :
    c.weight w = 0 := by
  have hnil : c.items.entries = [] := List.map_eq_nil_iff.mp h
  rw [weight, Table.weight, hnil]
  rfl

end LruCache
