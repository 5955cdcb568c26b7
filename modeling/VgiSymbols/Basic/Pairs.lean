import Mathlib.Data.List.Forall2

set_option autoImplicit false

/-! # Lists related element by element

What `List.Forall₂ R` says of the members and of the last elements of the two lists, and how two
such relations compose.
-/

namespace List.Forall₂

variable {α β γ : Type} {R : α → β → Prop} {S : β → γ → Prop} {T : α → γ → Prop}

theorem comp (H : ∀ a b c, R a b → S b c → T a c) {l₁ : List α} {l₂ : List β} {l₃ : List γ}
    (h : Forall₂ R l₁ l₂) (h' : Forall₂ S l₂ l₃) : Forall₂ T l₁ l₃ := by
  induction h generalizing l₃ with
  | nil =>
      cases h'
      exact Forall₂.nil
  | cons hab _ ih =>
      cases h' with
      | cons hbc h' => exact Forall₂.cons (H _ _ _ hab hbc) (ih h')

theorem exists_left {l₁ : List α} {l₂ : List β} (h : Forall₂ R l₁ l₂) {b : β} (hb : b ∈ l₂) :
    ∃ a ∈ l₁, R a b := by
  induction h with
  | nil => cases hb
  | cons hab _ ih =>
      rcases List.mem_cons.mp hb with rfl | hb
      · exact ⟨_, List.mem_cons_self, hab⟩
      · obtain ⟨a, ha, hR⟩ := ih hb
        exact ⟨a, List.mem_cons_of_mem _ ha, hR⟩

theorem exists_right {l₁ : List α} {l₂ : List β} (h : Forall₂ R l₁ l₂) {a : α} (ha : a ∈ l₁) :
    ∃ b ∈ l₂, R a b :=
  exists_left h.flip ha

/-- Two lists that end in related elements, and are related before that. -/
theorem concat_right {l₁ : List α} {l₂ : List β} {b : β} (h : Forall₂ R l₁ (l₂ ++ [b])) :
    ∃ init a, l₁ = init ++ [a] ∧ Forall₂ R init l₂ ∧ R a b := by
  have hinit := forall₂_take_append l₁ l₂ [b] h
  have hlast := forall₂_drop_append l₁ l₂ [b] h
  obtain ⟨a, rest, hab, hrest, heq⟩ := forall₂_cons_right_iff.mp hlast
  rw [forall₂_nil_right_iff.mp hrest] at heq
  refine ⟨l₁.take l₂.length, a, ?_, hinit, hab⟩
  rw [← heq, List.take_append_drop]

/-- Two lists made of the same pairs. -/
theorem zipWith {δ : Type} {f : γ → δ → α} {g : γ → δ → β} (h : ∀ c d, R (f c d) (g c d))
    (l₁ : List γ) (l₂ : List δ) : Forall₂ R (List.zipWith f l₁ l₂) (List.zipWith g l₁ l₂) := by
  induction l₁ generalizing l₂ with
  | nil => exact Forall₂.nil
  | cons c l₁ ih =>
      cases l₂ with
      | nil => exact Forall₂.nil
      | cons d l₂ => exact Forall₂.cons (h c d) (ih l₂)

end List.Forall₂
