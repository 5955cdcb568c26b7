import Mathlib.Algebra.BigOperators.Group.List.Basic
import Mathlib.Algebra.Order.BigOperators.Group.List
import Mathlib.Algebra.Order.Group.Nat
import Mathlib.Algebra.GroupWithZero.Nat
import Mathlib.Data.List.Infix

set_option autoImplicit false

/-! # Recency stacks

A least-recently-used cache with a budget, as the list of its keys, the one used last in front.
Using a key moves it to the front; a key that is not there is put in front, and as many keys as
the budget demands leave at the end (`fit`).

The stack under a smaller budget is a prefix of the stack under a larger one, whatever is used and
removed (`step_mono`): a larger budget never loses what a smaller one keeps. So what
faults under the larger budget faults under the smaller one too (`fault_mono`).
-/

namespace Recency

variable {K : Type} (w : K → Nat) {b b' : Nat}

/-- The weight of a stack. -/
def weight (l : List K) : Nat := (l.map w).sum

@[simp] theorem weight_nil : weight w [] = 0 := rfl

@[simp] theorem weight_cons (k : K) (l : List K) : weight w (k :: l) = w k + weight w l := rfl

/-! ## What fits -/

/-- The keys that fit in what is left of the budget, up to the first that does not. -/
def fitWithin (b : Nat) : List K → List K
  | [] => []
  | k :: l => if w k ≤ b then k :: fitWithin (b - w k) l else []

/-- The keys that fit in the budget; the first key always stays. -/
def fit (b : Nat) : List K → List K
  | [] => []
  | k :: l => k :: if w k ≤ b then fitWithin w (b - w k) l else []

theorem fitWithin_isPrefix (b : Nat) (l : List K) : fitWithin w b l <+: l := by
  induction l generalizing b with
  | nil => exact List.nil_prefix
  | cons k l ih =>
      rw [fitWithin]
      split
      · exact (List.prefix_cons_inj k).mpr (ih _)
      · exact List.nil_prefix

theorem fit_isPrefix (b : Nat) (l : List K) : fit w b l <+: l := by
  cases l with
  | nil => exact List.nil_prefix
  | cons k l =>
      rw [fit, List.prefix_cons_inj]
      split
      · exact fitWithin_isPrefix w _ l
      · exact List.nil_prefix

theorem fitWithin_mono {l l' : List K} (hb : b ≤ b') (hl : l <+: l') :
    fitWithin w b l <+: fitWithin w b' l' := by
  induction l generalizing b b' l' with
  | nil => exact List.nil_prefix
  | cons k l ih =>
      obtain ⟨r, rfl⟩ := hl
      have hl : l <+: l ++ r := List.prefix_append l r
      rw [List.cons_append, fitWithin, fitWithin]
      by_cases hk : w k ≤ b
      · have hk' : w k ≤ b' := hk.trans hb
        rw [if_pos hk, if_pos hk']
        exact (List.prefix_cons_inj k).mpr (ih (Nat.sub_le_sub_right hb _) hl)
      · rw [if_neg hk]
        exact List.nil_prefix

/-- **More fits in a larger budget**, and more of a longer stack. -/
theorem fit_mono {l l' : List K} (hb : b ≤ b') (hl : l <+: l') : fit w b l <+: fit w b' l' := by
  cases l with
  | nil => exact List.nil_prefix
  | cons k l =>
      obtain ⟨r, rfl⟩ := hl
      have hl : l <+: l ++ r := List.prefix_append l r
      rw [List.cons_append, fit, fit, List.prefix_cons_inj]
      by_cases hk : w k ≤ b
      · have hk' : w k ≤ b' := hk.trans hb
        rw [if_pos hk, if_pos hk']
        exact fitWithin_mono w (Nat.sub_le_sub_right hb _) hl
      · rw [if_neg hk]
        exact List.nil_prefix

theorem fitWithin_of_weight_le {l : List K} (h : weight w l ≤ b) : fitWithin w b l = l := by
  induction l generalizing b with
  | nil => rfl
  | cons k l ih =>
      rw [weight_cons] at h
      rw [fitWithin, if_pos (by omega), ih (by omega)]

theorem fitWithin_concat_of_lt {l : List K} {k : K} (h : b < weight w (l ++ [k])) :
    fitWithin w b (l ++ [k]) = fitWithin w b l := by
  induction l generalizing b with
  | nil =>
      have hk : ¬ w k ≤ b := by simpa [weight] using h
      show (if w k ≤ b then _ else []) = []
      rw [if_neg hk]
  | cons a l ih =>
      rw [List.cons_append, weight_cons] at h
      rw [List.cons_append, fitWithin, fitWithin]
      by_cases ha : w a ≤ b
      · rw [if_pos ha, if_pos ha, ih (by omega)]
      · rw [if_neg ha, if_neg ha]

/-- A stack within the budget fits. -/
theorem fit_of_weight_le {l : List K} (h : weight w l ≤ b) : fit w b l = l := by
  cases l with
  | nil => rfl
  | cons k l =>
      rw [weight_cons] at h
      rw [fit, if_pos (by omega), fitWithin_of_weight_le w (by omega)]

/-- A stack of one key fits. -/
@[simp] theorem fit_singleton (b : Nat) (k : K) : fit w b [k] = [k] := by
  simp [fit, fitWithin]

/-- The last key of a stack over the budget leaves, unless it is the only one. -/
theorem fit_concat_of_lt {l : List K} {k : K} (hl : l ≠ []) (h : b < weight w (l ++ [k])) :
    fit w b (l ++ [k]) = fit w b l := by
  cases l with
  | nil => exact absurd rfl hl
  | cons a l =>
      rw [List.cons_append, weight_cons] at h
      rw [List.cons_append, fit, fit]
      by_cases ha : w a ≤ b
      · rw [if_pos ha, if_pos ha, fitWithin_concat_of_lt w (by omega)]
      · rw [if_neg ha, if_neg ha]

/-! ## Stacks -/

/-- What is asked of a stack. -/
inductive Request (K : Type) where
  | use (k : K)
  | remove (k : K)
  | clear
  | none

variable [DecidableEq K]

/-- The stack after a request. -/
def step (b : Nat) (l : List K) : Request K → List K
  | .use k => if k ∈ l then k :: l.erase k else fit w b (k :: l)
  | .remove k => l.erase k
  | .clear => []
  | .none => l

/-- The request uses a key that is not there. -/
def fault (l : List K) : Request K → Option K
  | .use k => if k ∈ l then Option.none else some k
  | _ => Option.none

/-- The key that was used is in front. -/
theorem exists_step_use (b : Nat) (l : List K) (k : K) : ∃ l', step w b l (.use k) = k :: l' := by
  rw [step]
  split
  · exact ⟨_, rfl⟩
  · exact ⟨_, rfl⟩

/-- Using it once more changes nothing. -/
theorem step_use_again (b b' : Nat) (l : List K) (k : K) :
    step w b' (step w b l (.use k)) (.use k) = step w b l (.use k) := by
  obtain ⟨l', hl'⟩ := exists_step_use w b l k
  rw [hl', step, if_pos List.mem_cons_self, List.erase_cons_head]

theorem erase_isPrefix {l l' : List K} (h : l <+: l') (k : K) : l.erase k <+: l'.erase k := by
  obtain ⟨r, rfl⟩ := h
  by_cases hk : k ∈ l
  · rw [List.erase_append_left r hk]
    exact List.prefix_append _ _
  · rw [List.erase_append_right r hk, List.erase_of_not_mem hk]
    exact List.prefix_append _ _

/-- **The inclusion property**: a prefix stays a prefix under a smaller budget. -/
theorem step_mono (hb : b ≤ b') {l l' : List K} (h : l <+: l') (req : Request K) :
    step w b l req <+: step w b' l' req := by
  cases req with
  | use k =>
      show (if k ∈ l then _ else _) <+: (if k ∈ l' then _ else _)
      by_cases hk : k ∈ l
      · rw [if_pos hk, if_pos (h.subset hk), List.prefix_cons_inj]
        exact erase_isPrefix h k
      · rw [if_neg hk]
        by_cases hk' : k ∈ l'
        · -- the key is behind all that the smaller stack has
          have herase : l <+: l'.erase k := by
            have := erase_isPrefix h k
            rwa [List.erase_of_not_mem hk] at this
          rw [if_pos hk']
          exact (fit_isPrefix w b _).trans ((List.prefix_cons_inj k).mpr herase)
        · rw [if_neg hk']
          exact fit_mono w hb ((List.prefix_cons_inj k).mpr h)
  | remove k => exact erase_isPrefix h k
  | clear => exact List.prefix_refl []
  | none => exact h

/-- What faults with more keys faults with fewer. -/
theorem fault_mono {l l' : List K} (h : l ⊆ l') {req : Request K} {k : K}
    (hk : fault l' req = some k) : fault l req = some k := by
  cases req with
  | use a =>
      have hk' : (if a ∈ l' then Option.none else some a) = some k := hk
      split at hk'
      · cases hk'
      · next ha =>
          show (if a ∈ l then Option.none else some a) = some k
          rw [if_neg fun hmem => ha (h hmem), hk']
  | remove a => cases hk
  | clear => cases hk
  | none => cases hk

end Recency
