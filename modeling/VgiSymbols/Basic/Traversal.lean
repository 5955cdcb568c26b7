import Mathlib.Algebra.GroupWithZero.Nat
import Mathlib.Algebra.Order.BigOperators.Group.List
import Mathlib.Algebra.Order.Group.Nat
import Mathlib.Data.List.Nodup
import Mathlib.Logic.Relation

set_option autoImplicit false

/-! # Traversal of a tree with a stack

A node is taken off the stack and its successors are put on it, the last of them on top. The
traversal keeps no record of what it has visited. In a graph without cycles (a `size` that counts
each node for more than its successors) it visits exactly the nodes that can be reached
(`mem_visits`), and where no node is a successor of two others, each of them once
(`nodup_visits`).
-/

namespace Traversal

variable {α : Type} (next : α → List α)

/-- The nodes taken off the stack, in order. -/
def visits : Nat → List α → List α
  | 0, _ => []
  | _ + 1, [] => []
  | fuel + 1, a :: stack => a :: visits fuel ((next a).reverse ++ stack)

/-- Reached from a node in some number of steps. -/
def Reach : α → α → Prop := Relation.ReflTransGen fun a b => b ∈ next a

/-- Below `root` no node is a successor of two others, nor twice of one. -/
structure IsForest (root : α) : Prop where
  nodup : ∀ a, Reach next root a → (next a).Nodup
  parent : ∀ a b c, Reach next root a → Reach next root b → c ∈ next a → c ∈ next b → a = b

variable {next}

section Sized

variable {size : α → Nat} (hsize : ∀ a, ((next a).map size).sum < size a)
include hsize

theorem size_lt_of_mem_next {a b : α} (h : b ∈ next a) : size b < size a :=
  calc size b ≤ ((next a).map size).sum :=
        List.single_le_sum (fun _ _ => Nat.zero_le _) _ (List.mem_map_of_mem h)
    _ < size a := hsize a

theorem Reach.size_le {a b : α} (h : Reach next a b) : size b ≤ size a := by
  induction h with
  | refl => exact Nat.le_refl _
  | @tail c b _ hstep ih =>
      calc size b ≤ size c := le_of_lt (size_lt_of_mem_next hsize hstep)
        _ ≤ size a := ih

/-- No node is reached from its successors. -/
theorem not_reach_of_mem_next {a b : α} (h : b ∈ next a) : ¬ Reach next b a := fun hreach =>
  absurd (hreach.size_le hsize) (not_le.mpr (size_lt_of_mem_next hsize h))

/-- What is left on the stack counts for less after each round. -/
theorem sum_size_next {a : α} {stack : List α} {fuel : Nat}
    (h : ((a :: stack).map size).sum ≤ fuel + 1) :
    (((next a).reverse ++ stack).map size).sum ≤ fuel := by
  have hlt := hsize a
  rw [List.map_cons, List.sum_cons] at h
  rw [List.map_append, List.sum_append, List.map_reverse, List.sum_reverse]
  omega

/-- **Every node that can be reached is visited, and no other.** -/
theorem mem_visits {fuel : Nat} {stack : List α} (hfuel : (stack.map size).sum ≤ fuel) {b : α} :
    b ∈ visits next fuel stack ↔ ∃ a ∈ stack, Reach next a b := by
  induction fuel generalizing stack with
  | zero =>
      cases stack with
      | nil => simp [visits]
      | cons a stack =>
          have hlt := hsize a
          rw [List.map_cons, List.sum_cons] at hfuel
          omega
  | succ fuel ih =>
      cases stack with
      | nil => simp [visits]
      | cons a stack =>
          have hreach : Reach next a b ↔ a = b ∨ ∃ c ∈ next a, Reach next c b :=
            Relation.ReflTransGen.cases_head_iff
          rw [visits, List.mem_cons, ih (sum_size_next hsize hfuel), List.exists_mem_cons_iff,
            hreach, or_assoc, eq_comm]
          simp only [List.mem_append, List.mem_reverse, or_and_right, exists_or]

/-- Two successors of one node have nothing below them in common. By induction on the path from
the first: the other path enters each node from the same side. -/
theorem IsForest.not_reach {root a b c : α} (h : IsForest next root) (ha : Reach next root a)
    (hb : b ∈ next a) (hc : c ∈ next a) (hne : b ≠ c) {d : α} (hbd : Reach next b d) :
    ¬ Reach next c d := by
  have hroot : ∀ {x e : α}, x ∈ next a → Reach next x e → Reach next root e :=
    fun hx he => (ha.tail hx).trans he
  -- a path from a successor back to a successor is a cycle, unless they are the same
  have hback : ∀ {x y : α}, x ∈ next a → y ∈ next a → Reach next x y → x = y := by
    intro x y hx hy hxy
    rcases Relation.ReflTransGen.cases_tail hxy with heq | ⟨z, hxz, hzy⟩
    · exact heq.symm
    · have hza := h.parent z a y (hroot hx hxz) ha hzy hy
      exact absurd (hza ▸ hxz) (not_reach_of_mem_next hsize hx)
  induction hbd with
  | refl => exact fun hcb => hne (hback hc hb hcb).symm
  | @tail x d hbx hxd ih =>
      intro hcd
      rcases Relation.ReflTransGen.cases_tail hcd with heq | ⟨y, hcy, hyd⟩
      · exact hne (hback hb hc (heq ▸ Relation.ReflTransGen.tail hbx hxd))
      · exact ih (h.parent y x d (hroot hc hcy) (hroot hb hbx) hyd hxd ▸ hcy)

/-- No node can be reached from two entries of the stack. -/
def Apart (next : α → List α) (stack : List α) : Prop :=
  stack.Pairwise fun a b => ∀ c, Reach next a c → ¬ Reach next b c

/-- One round leaves the entries of the stack apart. -/
theorem IsForest.apart_next {root a : α} {stack : List α} (h : IsForest next root)
    (ha : Reach next root a) (hstack : Apart next (a :: stack)) :
    Apart next ((next a).reverse ++ stack) := by
  obtain ⟨hbelow, hrest⟩ := List.pairwise_cons.mp hstack
  refine List.pairwise_append.mpr ⟨?_, hrest, ?_⟩
  · apply (List.nodup_reverse.mpr (h.nodup a ha)).pairwise_of_forall_ne
    intro b hb c hc hne d
    exact h.not_reach hsize ha (List.mem_reverse.mp hb) (List.mem_reverse.mp hc) hne
  · intro b hb c hc d hbd
    exact hbelow c hc d (Relation.ReflTransGen.head (List.mem_reverse.mp hb) hbd)

/-- **No node is visited twice.** -/
theorem IsForest.nodup_visits {root : α} (h : IsForest next root) {fuel : Nat} {stack : List α}
    (hfuel : (stack.map size).sum ≤ fuel) (hroot : ∀ a ∈ stack, Reach next root a)
    (hstack : Apart next stack) : (visits next fuel stack).Nodup := by
  induction fuel generalizing stack with
  | zero => exact List.nodup_nil
  | succ fuel ih =>
      cases stack with
      | nil => exact List.nodup_nil
      | cons a stack =>
          obtain ⟨ha, hstackroot⟩ := List.forall_mem_cons.mp hroot
          obtain ⟨hbelow, -⟩ := List.pairwise_cons.mp hstack
          have hfuel' := sum_size_next hsize hfuel
          rw [visits, List.nodup_cons, mem_visits hsize hfuel']
          constructor
          · -- the node itself is below nothing that is left on the stack
            rintro ⟨b, hb, hba⟩
            rcases List.mem_append.mp hb with hb | hb
            · exact not_reach_of_mem_next hsize (List.mem_reverse.mp hb) hba
            · exact hbelow b hb a Relation.ReflTransGen.refl hba
          · refine ih hfuel' (fun b hb => ?_) (h.apart_next hsize ha hstack)
            rcases List.mem_append.mp hb with hb | hb
            · exact ha.tail (List.mem_reverse.mp hb)
            · exact hstackroot b hb

end Sized

end Traversal
