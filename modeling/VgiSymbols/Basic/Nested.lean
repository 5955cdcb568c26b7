import Mathlib.Data.List.Basic

set_option autoImplicit false

/-! # Lists of lists, laid out flat

A list of lists can be kept as one flat list of values and the index each list ends at.
`ends` are these indices and `slices` cuts the values at them again: `slices_flatten` says that
nothing is lost or moved to another list, and `ends_concat` how the indices grow when a list is
added at the end.
-/

namespace Nested

variable {α : Type}

/-- The indices the lists end at, if the first of them begins at `start`. -/
def ends : Nat → List (List α) → List Nat
  | _, [] => []
  | start, l :: ls => (start + l.length) :: ends (start + l.length) ls

/-- The lists in `values` that end at the given indices, the first one from `start`. -/
def slices (values : List α) : Nat → List Nat → List (List α)
  | _, [] => []
  | start, stop :: stops => (values.drop start).take (stop - start) :: slices values stop stops

theorem ends_concat (start : Nat) (ls : List (List α)) (l : List α) :
    ends start (ls ++ [l]) = ends start ls ++ [start + ls.flatten.length + l.length] := by
  induction ls generalizing start with
  | nil => rfl
  | cons k ls ih =>
      rw [List.cons_append, ends, ih, ends, List.cons_append, List.flatten_cons,
        List.length_append, ← Nat.add_assoc]

/-- The indices depend on the lengths only. -/
theorem ends_map {β : Type} (f : α → β) (start : Nat) (ls : List (List α)) :
    ends start (ls.map (List.map f)) = ends start ls := by
  induction ls generalizing start with
  | nil => rfl
  | cons l ls ih => rw [List.map_cons, ends, List.length_map, ih, ends]

/-- The lists after any values that come before them. -/
theorem slices_append (front : List α) (ls : List (List α)) :
    slices (front ++ ls.flatten) front.length (ends front.length ls) = ls := by
  induction ls generalizing front with
  | nil => rfl
  | cons l ls ih =>
      have hfirst : ((front ++ (l ++ ls.flatten)).drop front.length).take
          (front.length + l.length - front.length) = l := by
        rw [List.drop_left, Nat.add_sub_cancel_left, List.take_left]
      have hrest := ih (front ++ l)
      rw [List.length_append, List.append_assoc] at hrest
      rw [ends, List.flatten_cons, slices, hfirst, hrest]

/-- **The slices of the flat list are the lists.** -/
theorem slices_flatten (ls : List (List α)) : slices ls.flatten 0 (ends 0 ls) = ls :=
  slices_append [] ls

end Nested
