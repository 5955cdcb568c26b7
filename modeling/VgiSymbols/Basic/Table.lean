import Mathlib.Data.List.AList

set_option autoImplicit false

/-! # Hash tables and first-match indexes

A hash table is an association list without duplicate keys (`AList`). This file adds the
operations an entry API offers beyond insertion (`orInsert`, `modify`), each with the lookup
equation that later proofs use instead of its definition, and the insertion of a list of entries
(`insertList`), which is idempotent.

A *first-match index* is built from a list of entries, each answering to several keys: the
entries are inserted in order and an occupied key is never overwritten. `lookup_orInsertAll`
says what the result is: the table that was there, completed by `firstMatch`.
-/

/-- A hash table from `K` to `V`. -/
abbrev Table (K V : Type) := AList fun _ : K => V

namespace Table

variable {K V : Type} [DecidableEq K]

theorem lookup_insert (t : Table K V) (k a : K) (v : V) :
    (AList.insert k v t).lookup a = if a = k then some v else t.lookup a := by
  by_cases h : a = k
  · subst h
    rw [AList.lookup_insert, if_pos rfl]
  · rw [AList.lookup_insert_ne h, if_neg h]

theorem lookup_erase (t : Table K V) (k a : K) :
    (AList.erase k t).lookup a = if a = k then none else t.lookup a := by
  by_cases h : a = k
  · subst h
    rw [AList.lookup_erase, if_pos rfl]
  · rw [AList.lookup_erase_ne h, if_neg h]

/-- `entry(k).or_insert(v)`: an occupied key keeps its value. -/
def orInsert (t : Table K V) (k : K) (v : V) : Table K V :=
  if k ∈ t then t else t.insert k v

theorem lookup_orInsert (t : Table K V) (k a : K) (v : V) :
    (t.orInsert k v).lookup a = (t.lookup a).or (if a = k then some v else none) := by
  unfold orInsert
  by_cases hk : k ∈ t
  · rw [if_pos hk]
    by_cases ha : a = k
    · obtain ⟨w, hw⟩ := Option.isSome_iff_exists.mp (AList.lookup_isSome.mpr hk)
      rw [ha, hw, Option.some_or]
    · rw [if_neg ha, Option.or_none]
  · rw [if_neg hk, lookup_insert]
    by_cases ha : a = k
    · rw [if_pos ha, if_pos ha, ha, AList.lookup_eq_none.mpr hk, Option.none_or]
    · rw [if_neg ha, if_neg ha, Option.or_none]

/-- `get_mut(k)` followed by a change of the value in place. -/
def modify (t : Table K V) (k : K) (f : V → V) : Table K V :=
  match t.lookup k with
  | some v => t.insert k (f v)
  | none => t

theorem lookup_modify (t : Table K V) (k a : K) (f : V → V) :
    (t.modify k f).lookup a = if a = k then (t.lookup a).map f else t.lookup a := by
  unfold modify
  cases h : t.lookup k with
  | none =>
      by_cases ha : a = k
      · rw [if_pos ha, ha, h, Option.map_none]
      · rw [if_neg ha]
  | some v =>
      rw [lookup_insert]
      by_cases ha : a = k
      · rw [if_pos ha, if_pos ha, ha, h, Option.map_some]
      · rw [if_neg ha, if_neg ha]

/-- One value inserted under several keys; a key that was occupied is overwritten. -/
def insertAll (t : Table K V) (ks : List K) (v : V) : Table K V :=
  ks.foldl (fun t k => t.insert k v) t

theorem lookup_insertAll (ks : List K) (v : V) (t : Table K V) (a : K) :
    (t.insertAll ks v).lookup a = if a ∈ ks then some v else t.lookup a := by
  induction ks generalizing t with
  | nil => simp [insertAll]
  | cons k ks ih =>
      have h := ih (t.insert k v)
      rw [lookup_insert] at h
      rw [insertAll, List.foldl_cons]
      apply h.trans
      by_cases hk : a = k <;> by_cases hks : a ∈ ks <;> simp [hk, hks]

/-! ## Several insertions -/

/-- Insert entries in order; a key that was occupied is overwritten. -/
def insertList (t : Table K V) (l : List (K × V)) : Table K V :=
  l.foldl (fun t e => AList.insert e.1 e.2 t) t

theorem insertList_cons (t : Table K V) (e : K × V) (l : List (K × V)) :
    t.insertList (e :: l) = insertList (AList.insert e.1 e.2 t) l := rfl

theorem entries_erase_eq_filter (t : Table K V) (k : K) :
    (t.erase k).entries = t.entries.filter fun e => decide (e.1 ≠ k) := by
  have key : ∀ l : List (Sigma fun _ : K => V), l.NodupKeys →
      l.kerase k = l.filter fun e => decide (e.1 ≠ k) := by
    intro l hl
    induction l with
    | nil => rfl
    | cons e l ih =>
        obtain ⟨hmem, hl⟩ := List.nodupKeys_cons.mp hl
        by_cases he : e.1 = k
        · have hk : k ∉ l.keys := he ▸ hmem
          rw [List.kerase_cons_eq he.symm, List.filter_cons_of_neg (by simp [he]), ← ih hl,
            List.kerase_of_notMem_keys hk]
        · rw [List.kerase_cons_ne (Ne.symm he), List.filter_cons_of_pos (by simp [he]), ih hl]
  exact key t.entries t.nodupKeys

/-- The inserted entries stand in front of those of the table that they left alone. -/
theorem entries_insertList (t : Table K V) (l : List (K × V)) :
    (t.insertList l).entries = (insertList ∅ l).entries
      ++ t.entries.filter fun e => decide (e.1 ∉ l.map Prod.fst) := by
  induction l generalizing t with
  | nil => simp [insertList]
  | cons a l ih =>
      have hinsert : ∀ t : Table K V, (AList.insert a.1 a.2 t).entries
          = ⟨a.1, a.2⟩ :: t.entries.filter fun e => decide (e.1 ≠ a.1) := by
        intro t
        rw [AList.entries_insert]
        exact congrArg _ (entries_erase_eq_filter t a.1)
      have hrest : (t.entries.filter fun e => decide (e.1 ≠ a.1)).filter
          (fun e => decide (e.1 ∉ l.map Prod.fst))
            = t.entries.filter fun e => decide (e.1 ∉ (a :: l).map Prod.fst) := by
        rw [List.filter_filter]
        apply List.filter_congr
        intro e _
        simp only [List.map_cons, List.mem_cons, not_or, Bool.decide_and, Bool.and_comm]
      have hempty : (insertList (AList.insert a.1 a.2 ∅) l).entries = (insertList ∅ l).entries
          ++ [(⟨a.1, a.2⟩ : Sigma fun _ : K => V)].filter
            fun e => decide (e.1 ∉ l.map Prod.fst) := by
        rw [ih, hinsert, AList.empty_entries, List.filter_nil]
      calc (insertList (AList.insert a.1 a.2 t) l).entries
          = (insertList ∅ l).entries ++ ([(⟨a.1, a.2⟩ : Sigma fun _ : K => V)]
              ++ t.entries.filter fun e => decide (e.1 ≠ a.1)).filter
                fun e => decide (e.1 ∉ l.map Prod.fst) := by
            rw [ih, hinsert, List.singleton_append]
        _ = (insertList (AList.insert a.1 a.2 ∅) l).entries
              ++ t.entries.filter fun e => decide (e.1 ∉ (a :: l).map Prod.fst) := by
            rw [List.filter_append, hrest, hempty, List.append_assoc]

theorem lookup_insertList_of_notMem {t : Table K V} {l : List (K × V)} {k : K}
    (h : k ∉ l.map Prod.fst) : (t.insertList l).lookup k = t.lookup k := by
  induction l generalizing t with
  | nil => rfl
  | cons a l ih =>
      rw [List.map_cons, List.mem_cons, not_or] at h
      rw [insertList_cons, ih h.2, lookup_insert, if_neg h.1]

theorem lookup_insertList_of_mem {t : Table K V} {l : List (K × V)} {k : K} {v : V}
    (hnodup : (l.map Prod.fst).Nodup) (h : (k, v) ∈ l) :
    (t.insertList l).lookup k = some v := by
  induction l generalizing t with
  | nil => cases h
  | cons a l ih =>
      rw [List.map_cons, List.nodup_cons] at hnodup
      rcases List.mem_cons.mp h with rfl | h
      · rw [insertList_cons, lookup_insertList_of_notMem hnodup.1, lookup_insert, if_pos rfl]
      · rw [insertList_cons, ih hnodup.2 h]

theorem mem_keys_of_mem_insertList {l : List (K × V)} {e : Sigma fun _ : K => V}
    (h : e ∈ (insertList ∅ l).entries) : e.1 ∈ l.map Prod.fst := by
  by_contra hmem
  have hlookup : (insertList (∅ : Table K V) l).lookup e.1 = some e.2 := AList.mem_lookup_iff.mpr h
  rw [lookup_insertList_of_notMem hmem] at hlookup
  cases hlookup

/-- Inserting the same entries once more changes nothing. -/
theorem insertList_insertList (t : Table K V) (l : List (K × V)) :
    (t.insertList l).insertList l = t.insertList l := by
  have hown : (insertList (∅ : Table K V) l).entries.filter
      (fun e => decide (e.1 ∉ l.map Prod.fst)) = [] := by
    rw [List.filter_eq_nil_iff]
    intro e he
    simpa using mem_keys_of_mem_insertList he
  apply AList.ext
  rw [entries_insertList (t.insertList l), entries_insertList t, List.filter_append, hown,
    List.nil_append, List.filter_filter]
  simp only [Bool.and_self]

/-- Distinct entries inserted into an empty table are its entries, the last one first. -/
theorem entries_insertList_empty {l : List (K × V)} (hnodup : (l.map Prod.fst).Nodup) :
    (insertList ∅ l).entries = (l.map fun e => ⟨e.1, e.2⟩).reverse := by
  induction l with
  | nil => rfl
  | cons a l ih =>
      rw [List.map_cons, List.nodup_cons] at hnodup
      have hfresh : a.1 ∉ (∅ : Table K V) := AList.notMem_empty a.1
      rw [insertList_cons, entries_insertList, ih hnodup.2, AList.entries_insert_of_notMem hfresh,
        AList.empty_entries, List.filter_cons_of_pos (by simpa using hnodup.1), List.filter_nil,
        List.map_cons, List.reverse_cons]

/-! ## First-match indexes -/

/-- The value of the first entry that answers to the key `k`. -/
def firstMatch (l : List (List K × V)) (k : K) : Option V :=
  (l.find? fun e => decide (k ∈ e.1)).map Prod.snd

@[simp] theorem firstMatch_nil (k : K) : firstMatch ([] : List (List K × V)) k = none := rfl

theorem firstMatch_cons (e : List K × V) (l : List (List K × V)) (k : K) :
    firstMatch (e :: l) k = if k ∈ e.1 then some e.2 else firstMatch l k := by
  unfold firstMatch
  rw [List.find?_cons]
  by_cases h : k ∈ e.1 <;> simp [h]

theorem firstMatch_append (l₁ l₂ : List (List K × V)) (k : K) :
    firstMatch (l₁ ++ l₂) k = (firstMatch l₁ k).or (firstMatch l₂ k) := by
  unfold firstMatch
  rw [List.find?_append]
  cases List.find? (fun e => decide (k ∈ e.1)) l₁ <;> simp

theorem firstMatch_eq_none {l : List (List K × V)} {k : K} :
    firstMatch l k = none ↔ ∀ e ∈ l, k ∉ e.1 := by
  unfold firstMatch
  simp

/-- The first match is an entry of the list, and it answers to the key. -/
theorem exists_of_firstMatch {l : List (List K × V)} {k : K} {v : V}
    (h : firstMatch l k = some v) : ∃ e ∈ l, k ∈ e.1 ∧ e.2 = v := by
  unfold firstMatch at h
  obtain ⟨e, he, rfl⟩ := Option.map_eq_some_iff.mp h
  have hk := List.find?_some he
  exact ⟨e, List.mem_of_find?_eq_some he, by simpa using hk, rfl⟩

theorem firstMatch_isSome {l : List (List K × V)} {k : K} {e : List K × V} (he : e ∈ l)
    (hk : k ∈ e.1) : ∃ v, firstMatch l k = some v := by
  cases h : firstMatch l k with
  | none => exact absurd hk (firstMatch_eq_none.mp h e he)
  | some v => exact ⟨v, rfl⟩

/-- Removing entries that do not hold the first match leaves the first match. -/
theorem firstMatch_filter {l : List (List K × V)} {k : K} {v : V} {p : List K × V → Bool}
    (h : firstMatch l k = some v) (hp : ∀ e ∈ l, e.2 = v → p e = true) :
    firstMatch (l.filter p) k = some v := by
  induction l with
  | nil => cases h
  | cons e l ih =>
      rw [firstMatch_cons] at h
      by_cases hk : k ∈ e.1
      · rw [if_pos hk] at h
        have hv : e.2 = v := Option.some.inj h
        rw [List.filter_cons_of_pos (hp e (by simp) hv), firstMatch_cons, if_pos hk, hv]
      · rw [if_neg hk] at h
        have ih' := ih h (fun e' he' => hp e' (by simp [he']))
        rw [List.filter_cons]
        split
        · rw [firstMatch_cons, if_neg hk, ih']
        · exact ih'

/-- Removing entries that do not answer to the key leaves the first match. -/
theorem firstMatch_filter_of_notMem {l : List (List K × V)} {k : K} {p : List K × V → Bool}
    (hp : ∀ e ∈ l, p e = false → k ∉ e.1) : firstMatch (l.filter p) k = firstMatch l k := by
  induction l with
  | nil => rfl
  | cons e l ih =>
      have ih' := ih fun e' he' => hp e' (by simp [he'])
      rw [List.filter_cons, firstMatch_cons]
      cases he : p e with
      | true => rw [if_pos rfl, firstMatch_cons, ih']
      | false => rw [if_neg (by simp), if_neg (hp e (by simp) he), ih']

/-- Insert entries in order, never overwriting an occupied key. -/
def orInsertAll (t : Table K V) (l : List (List K × V)) : Table K V :=
  l.foldl (fun t e => e.1.foldl (fun t k => t.orInsert k e.2) t) t

theorem lookup_orInsertKeys (ks : List K) (v : V) (t : Table K V) (a : K) :
    (ks.foldl (fun t k => t.orInsert k v) t).lookup a
      = (t.lookup a).or (if a ∈ ks then some v else none) := by
  induction ks generalizing t with
  | nil => simp
  | cons k ks ih =>
      rw [List.foldl_cons, ih, lookup_orInsert, Option.or_assoc]
      by_cases hk : a = k <;> by_cases hks : a ∈ ks <;> simp [hk, hks]

/-- **A first-match index.** Lookups after the build are answered by what was in the table,
and otherwise by the first entry that answers to the key. -/
theorem lookup_orInsertAll (l : List (List K × V)) (t : Table K V) (a : K) :
    (t.orInsertAll l).lookup a = (t.lookup a).or (firstMatch l a) := by
  induction l generalizing t with
  | nil => simp [orInsertAll]
  | cons e l ih =>
      rw [orInsertAll, List.foldl_cons]
      apply (ih _).trans
      rw [lookup_orInsertKeys, Option.or_assoc, firstMatch_cons]
      by_cases h : a ∈ e.1 <;> simp [h]

end Table
