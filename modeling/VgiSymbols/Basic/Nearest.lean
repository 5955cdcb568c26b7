import Mathlib.Data.List.Sort

set_option autoImplicit false

/-! # The entry nearest below a key

In a list of keyed entries in no order, `nearest k` is the entry with the greatest key up to `k`,
the first of them where several have that key (`nearest_eq_some_iff`). A stable sort by the keys
does not change it.
-/

namespace Nearest

variable {κ α : Type} [LinearOrder κ]

/-- The first entry with the greatest key that is at most `k`. -/
def nearest (k : κ) : List (κ × α) → Option (κ × α)
  | [] => none
  | e :: l =>
      match nearest k l with
      | none => if e.1 ≤ k then some e else none
      | some b => if e.1 ≤ k ∧ b.1 ≤ e.1 then some e else some b

theorem nearest_eq_none {k : κ} {l : List (κ × α)} :
    nearest k l = none ↔ ∀ e ∈ l, k < e.1 := by
  induction l with
  | nil => simp [nearest]
  | cons e l ih =>
      rw [nearest, List.forall_mem_cons, ← ih]
      cases nearest k l with
      | none => simp
      | some b =>
          simp only [reduceCtorEq, and_false, iff_false]
          split <;> simp

theorem nearest_eq_some {k : κ} {l : List (κ × α)} {b : κ × α} (h : nearest k l = some b) :
    b ∈ l ∧ b.1 ≤ k ∧ ∀ e ∈ l, e.1 ≤ k → e.1 ≤ b.1 := by
  induction l generalizing b with
  | nil => cases h
  | cons e l ih =>
      rw [nearest] at h
      cases hl : nearest k l with
      | none =>
          rw [hl] at h
          have hrest := nearest_eq_none.mp hl
          by_cases hle : e.1 ≤ k
          · rw [if_pos hle] at h
            cases h
            refine ⟨List.mem_cons_self, hle, List.forall_mem_cons.mpr ⟨fun _ => le_rfl, ?_⟩⟩
            exact fun e' he' hle' => absurd hle' (not_le.mpr (hrest e' he'))
          · rw [if_neg hle] at h
            cases h
      | some b' =>
          simp only [hl] at h
          obtain ⟨hmem, hle', hmax⟩ := ih hl
          by_cases hcond : e.1 ≤ k ∧ b'.1 ≤ e.1
          · rw [if_pos hcond] at h
            cases h
            refine ⟨List.mem_cons_self, hcond.1, List.forall_mem_cons.mpr ⟨fun _ => le_rfl, ?_⟩⟩
            exact fun e' he' hle => (hmax e' he' hle).trans hcond.2
          · rw [if_neg hcond] at h
            cases h
            refine ⟨List.mem_cons_of_mem _ hmem, hle', List.forall_mem_cons.mpr ⟨?_, hmax⟩⟩
            exact fun hle => le_of_not_ge fun hge => hcond ⟨hle, hge⟩

/-! ## First at a key -/

/-- The first entry with the key `k`. -/
def FirstAt (k : κ) (l : List (κ × α)) (e : κ × α) : Prop :=
  e.1 = k ∧ ∃ before after, l = before ++ e :: after ∧ ∀ e' ∈ before, e'.1 ≠ k

theorem firstAt_iff {k : κ} {l : List (κ × α)} {e : κ × α} :
    FirstAt k l e ↔ l.find? (fun e => decide (e.1 = k)) = some e := by
  rw [List.find?_eq_some_iff_append, decide_eq_true_iff]
  simp only [Bool.not_eq_true', decide_eq_false_iff_not]
  rfl

theorem FirstAt.mem {k : κ} {l : List (κ × α)} {e : κ × α} (h : FirstAt k l e) : e ∈ l :=
  List.mem_of_find?_eq_some (firstAt_iff.mp h)

theorem FirstAt.unique {k : κ} {l : List (κ × α)} {e e' : κ × α} (h : FirstAt k l e)
    (h' : FirstAt k l e') : e = e' :=
  Option.some.inj ((firstAt_iff.mp h).symm.trans (firstAt_iff.mp h'))

theorem exists_firstAt {l : List (κ × α)} {e : κ × α} (h : e ∈ l) : ∃ f, FirstAt e.1 l f := by
  have hfind : (l.find? fun e' => decide (e'.1 = e.1)).isSome = true :=
    List.find?_isSome.mpr ⟨e, h, decide_eq_true rfl⟩
  obtain ⟨f, hf⟩ := Option.isSome_iff_exists.mp hfind
  exact ⟨f, firstAt_iff.mpr hf⟩

omit [LinearOrder κ] in
/-- The first entry stays the first when others are dropped. -/
theorem FirstAt.filter {k : κ} {l : List (κ × α)} {e : κ × α} (h : FirstAt k l e)
    (p : κ × α → Bool) (hp : p e = true) : FirstAt k (l.filter p) e := by
  obtain ⟨hkey, before, after, rfl, hbefore⟩ := h
  refine ⟨hkey, before.filter p, after.filter p, ?_, fun e' he' =>
    hbefore e' (List.mem_of_mem_filter he')⟩
  rw [List.filter_append, List.filter_cons_of_pos hp]

/-- The first entry with the greatest key that is at most `k`. -/
structure IsNearest (k : κ) (l : List (κ × α)) (e : κ × α) : Prop where
  le : e.1 ≤ k
  greatest : ∀ e' ∈ l, e'.1 ≤ k → e'.1 ≤ e.1
  first : FirstAt e.1 l e

theorem IsNearest.unique {k : κ} {l : List (κ × α)} {e e' : κ × α} (h : IsNearest k l e)
    (h' : IsNearest k l e') : e = e' := by
  have hkey : e.1 = e'.1 :=
    le_antisymm (h'.greatest e h.first.mem h.le) (h.greatest e' h'.first.mem h'.le)
  exact h.first.unique (hkey ▸ h'.first)

theorem firstAt_of_nearest {k : κ} {l : List (κ × α)} {b : κ × α} (h : nearest k l = some b) :
    FirstAt b.1 l b := by
  induction l generalizing b with
  | nil => cases h
  | cons e l ih =>
      have hhead : FirstAt e.1 (e :: l) e := ⟨rfl, [], l, rfl, fun _ h => by cases h⟩
      rw [nearest] at h
      cases hl : nearest k l with
      | none =>
          rw [hl] at h
          by_cases hle : e.1 ≤ k
          · rw [if_pos hle] at h
            cases h
            exact hhead
          · rw [if_neg hle] at h
            cases h
      | some b' =>
          simp only [hl] at h
          by_cases hcond : e.1 ≤ k ∧ b'.1 ≤ e.1
          · rw [if_pos hcond] at h
            cases h
            exact hhead
          · -- an entry in front with this key would be the nearer
            rw [if_neg hcond] at h
            cases h
            obtain ⟨-, before, after, rfl, hbefore⟩ := ih hl
            have hne : e.1 ≠ b.1 := fun heq =>
              hcond ⟨heq ▸ (nearest_eq_some hl).2.1, le_of_eq heq.symm⟩
            exact ⟨rfl, e :: before, after, rfl, List.forall_mem_cons.mpr ⟨hne, hbefore⟩⟩

/-- **What is nearest**: the first entry with the greatest key. -/
theorem nearest_eq_some_iff {k : κ} {l : List (κ × α)} {b : κ × α} :
    nearest k l = some b ↔ IsNearest k l b := by
  have hsound : ∀ {e}, nearest k l = some e → IsNearest k l e := by
    intro e h
    obtain ⟨-, hle, hmax⟩ := nearest_eq_some h
    exact ⟨hle, hmax, firstAt_of_nearest h⟩
  constructor
  · exact hsound
  · intro h
    cases hl : nearest k l with
    | none => exact absurd h.le (not_le.mpr (nearest_eq_none.mp hl b h.first.mem))
    | some e => rw [(hsound hl).unique h]

/-! ## Lists with the same nearest entries -/

/-- Entries of different keys may change places. -/
theorem nearest_swap {k : κ} {a b : κ × α} (hne : a.1 ≠ b.1) (l : List (κ × α)) :
    nearest k (a :: b :: l) = nearest k (b :: a :: l) := by
  rcases lt_or_gt_of_ne hne with hlt | hlt <;>
    (simp only [nearest]; cases nearest k l <;> grind)

theorem nearest_cons_congr {k : κ} {l l' : List (κ × α)} (h : nearest k l = nearest k l')
    (e : κ × α) : nearest k (e :: l) = nearest k (e :: l') := by
  rw [nearest, nearest, h]

theorem nearest_orderedInsert (k : κ) (e : κ × α) (l : List (κ × α)) :
    nearest k (l.orderedInsert (fun a b => a.1 ≤ b.1) e) = nearest k (e :: l) := by
  induction l with
  | nil => rfl
  | cons b l ih =>
      rw [List.orderedInsert]
      by_cases hle : e.1 ≤ b.1
      · rw [if_pos hle]
      · rw [if_neg hle, nearest_cons_congr ih, nearest_swap (ne_of_lt (not_le.mp hle))]

/-- Sorting by the keys changes nothing. -/
theorem nearest_insertionSort (k : κ) (l : List (κ × α)) :
    nearest k (l.insertionSort fun a b => a.1 ≤ b.1) = nearest k l := by
  induction l with
  | nil => rfl
  | cons e l ih =>
      rw [List.insertionSort_cons, nearest_orderedInsert, nearest_cons_congr ih]

/-- Of two neighbours with one key the first is the nearer. -/
theorem nearest_cons_cons_of_eq {k : κ} {a b : κ × α} (heq : b.1 = a.1) (l : List (κ × α)) :
    nearest k (a :: b :: l) = nearest k (a :: l) := by
  simp only [nearest]
  cases nearest k l <;> grind

/-- Related lists with the same keys have related nearest entries. -/
theorem nearest_forall₂ {β : Type} (R : α → β → Prop) {l : List (κ × α)} {l' : List (κ × β)}
    (h : List.Forall₂ (fun s e => s.1 = e.1 ∧ R s.2 e.2) l l') (k : κ) :
    Option.Rel (fun s e => s.1 = e.1 ∧ R s.2 e.2) (nearest k l) (nearest k l') := by
  induction h with
  | nil => exact Option.Rel.none
  | @cons s e l l' hse _ ih =>
      rw [nearest, nearest]
      generalize nearest k l = b at ih ⊢
      generalize nearest k l' = b' at ih ⊢
      cases ih with
      | none =>
          simp only [hse.1]
          split
          · exact Option.Rel.some hse
          · exact Option.Rel.none
      | some hrel =>
          simp only [hse.1, hrel.1]
          split
          · exact Option.Rel.some hse
          · exact Option.Rel.some hrel

end Nearest
