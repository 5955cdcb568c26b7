import Mathlib.Algebra.BigOperators.Group.List.Basic
import Mathlib.Data.List.Forall2
import Mathlib.Data.List.Lex

set_option autoImplicit false

/-! # Choice vectors

A choice vector for a list of sizes has one index below each size. `vectors sizes` lists them with
the last index running fastest, which is their lexicographic order. (`List.sections` runs through
the first index fastest.) A loop that multiplies out one list of alternatives after the other
visits them in this order (`flatMap_range_getD`).
-/

namespace Choices

def vectors : List Nat → List (List Nat)
  | [] => [[]]
  | n :: sizes => (List.range n).flatMap fun i => (vectors sizes).map fun v => i :: v

/-- Each vector with an index below each size is listed, and nothing else. -/
theorem mem_vectors {v sizes : List Nat} :
    v ∈ vectors sizes ↔ List.Forall₂ (fun i n => i < n) v sizes := by
  induction sizes generalizing v with
  | nil => rw [vectors, List.mem_singleton, List.forall₂_nil_right_iff]
  | cons n sizes ih =>
      rw [vectors, List.mem_flatMap, List.forall₂_cons_right_iff]
      constructor
      · rintro ⟨i, hi, hv⟩
        obtain ⟨v', hv', rfl⟩ := List.mem_map.mp hv
        exact ⟨i, v', List.mem_range.mp hi, ih.mp hv', rfl⟩
      · rintro ⟨i, v', hi, hv', rfl⟩
        exact ⟨i, List.mem_range.mpr hi, List.mem_map.mpr ⟨v', ih.mpr hv', rfl⟩⟩

/-- The vectors come in lexicographic order. -/
theorem pairwise_vectors (sizes : List Nat) :
    (vectors sizes).Pairwise (List.Lex fun i j => i < j) := by
  induction sizes with
  | nil => exact List.pairwise_singleton _ _
  | cons n sizes ih =>
      rw [vectors, List.pairwise_flatMap]
      constructor
      · -- the same first index: the rest decides
        intro i _
        rw [List.pairwise_map]
        exact ih.imp fun h => List.Lex.cons h
      · refine List.pairwise_lt_range.imp fun {i j} hij a ha b hb => ?_
        obtain ⟨v, _, rfl⟩ := List.mem_map.mp ha
        obtain ⟨w, _, rfl⟩ := List.mem_map.mp hb
        exact List.Lex.rel hij

/-- No vector is listed twice. -/
theorem nodup_vectors (sizes : List Nat) : (vectors sizes).Nodup := by
  refine (pairwise_vectors sizes).imp fun {v w} h heq => ?_
  subst heq
  exact List.lex_irrefl (fun i => Nat.lt_irrefl i) v h

theorem length_vectors (sizes : List Nat) : (vectors sizes).length = sizes.prod := by
  induction sizes with
  | nil => rfl
  | cons n sizes ih =>
      have hconst : ∀ i ∈ List.range n,
          ((vectors sizes).map fun v => i :: v).length = sizes.prod := by
        intro i _
        rw [List.length_map, ih]
      calc (vectors (n :: sizes)).length
          = ((List.range n).map fun _ => sizes.prod).sum := by
            rw [vectors, List.length_flatMap, List.map_congr_left hconst]
        _ = n * sizes.prod := by
            rw [List.map_const', List.sum_replicate_nat, List.length_range]
        _ = (n :: sizes).prod := List.prod_cons.symm

/-- Going through a list is going through its indices. -/
theorem flatMap_range_getD {α β : Type} (l : List α) (d : α) (f : α → List β) :
    ((List.range l.length).flatMap fun i => f (l.getD i d)) = l.flatMap f := by
  induction l with
  | nil => rfl
  | cons a l ih =>
      rw [List.length_cons, List.range_succ_eq_map, List.flatMap_cons, List.flatMap_map,
        List.flatMap_cons, ← ih]
      rfl

end Choices
