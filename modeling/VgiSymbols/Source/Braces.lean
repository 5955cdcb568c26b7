import VgiSymbols.Basic.Choices
import VgiSymbols.Core.Source

set_option autoImplicit false

/-! # Brace expansion

The glob matcher knows no braces, so the pattern of a `glob` source is expanded before it is
matched. A pattern of plain text and groups that are not nested stands for the product of its
groups, in the order in which the last group changes fastest (`expandBraces_eq_product`).
-/

namespace VgiSymbols

open Choices

/-! ## Patterns -/

def NoBraces (cs : List Char) : Prop := '{' ∉ cs ∧ '}' ∉ cs

theorem noBraces_cons {c : Char} {cs : List Char} :
    NoBraces (c :: cs) ↔ (c ≠ '{' ∧ c ≠ '}') ∧ NoBraces cs := by
  unfold NoBraces
  rw [List.mem_cons, List.mem_cons, not_or, not_or, ne_comm (b := '{'), ne_comm (b := '}')]
  exact and_and_and_comm

/-- A part of a pattern: text, or a group of at least one alternative. An alternative may be
empty. -/
inductive Segment where
  | literal (text : List Char) (plain : NoBraces text)
  | group (alts : List (List Char)) (nonempty : alts ≠ [])
      (plain : ∀ alt ∈ alts, NoBraces alt ∧ ',' ∉ alt)

namespace Segment

/-- The characters of a pattern. -/
def render : List Segment → List Char
  | [] => []
  | literal text _ :: p => text ++ render p
  | group alts _ _ :: p => '{' :: ([','].intercalate alts ++ '}' :: render p)

/-- The number of alternatives of each group. -/
def sizes : List Segment → List Nat
  | [] => []
  | literal _ _ :: p => sizes p
  | group alts _ _ :: p => alts.length :: sizes p

/-- The pattern with one alternative chosen for each group. -/
def pick : List Segment → List Nat → String
  | [], _ => ""
  | literal text _ :: p, v => String.ofList text ++ pick p v
  | group alts _ _ :: p, i :: v => String.ofList (alts.getD i []) ++ pick p v
  | group _ _ _ :: _, [] => ""

theorem pick_of_sizes_eq_nil {p : List Segment} (h : sizes p = []) :
    pick p [] = String.ofList (render p) := by
  induction p with
  | nil => rfl
  | cons s p ih =>
      cases s with
      | literal text plain => rw [pick, ih h, render, String.ofList_append]
      | group alts nonempty plain => cases h

end Segment

/-! ## The expansion -/

/-- A group ends at its closing brace. -/
theorem takeGroup_append {body : List Char} (h : NoBraces body) (cs : List Char) :
    takeGroup 1 (body ++ '}' :: cs) = (body, cs) := by
  induction body with
  | nil => rfl
  | cons c body ih =>
      obtain ⟨⟨hopen, hclose⟩, hbody⟩ := noBraces_cons.mp h
      rw [List.cons_append, takeGroup, if_neg hopen, if_neg hclose, ih hbody]

theorem noBraces_intercalate {alts : List (List Char)} (h : ∀ alt ∈ alts, NoBraces alt) :
    NoBraces ([','].intercalate alts) := by
  have hout : ∀ c : Char, c ≠ ',' → (∀ alt ∈ alts, c ∉ alt) → c ∉ [','].intercalate alts := by
    intro c hc halts hmem
    induction alts with
    | nil => cases hmem
    | cons alt alts ih =>
        obtain ⟨halt, halts⟩ := List.forall_mem_cons.mp halts
        obtain ⟨-, h⟩ := List.forall_mem_cons.mp h
        cases alts with
        | nil =>
            rw [List.intercalate_singleton] at hmem
            exact halt hmem
        | cons alt' alts =>
            rw [List.intercalate_cons_cons, List.mem_append, List.mem_append,
              List.mem_singleton] at hmem
            obtain (hmem | hmem) | hmem := hmem
            · exact halt hmem
            · exact hc hmem
            · exact ih h halts hmem
  exact ⟨hout '{' (by decide) fun alt halt => (h alt halt).1,
    hout '}' (by decide) fun alt halt => (h alt halt).2⟩

/-- Plain text goes behind each of the prefixes. -/
theorem expandBracesFrom_literal {text : List Char} (h : NoBraces text) (results : List String)
    (cs : List Char) :
    expandBracesFrom results (text ++ cs) =
      expandBracesFrom (results.map fun r => r ++ String.ofList text) cs := by
  induction text generalizing results with
  | nil => simp
  | cons c text ih =>
      obtain ⟨⟨hopen, -⟩, htext⟩ := noBraces_cons.mp h
      have hpush : ∀ r : String,
          r.push c ++ String.ofList text = r ++ String.ofList (c :: text) := by
        intro r
        rw [← String.toList_inj, String.toList_append, String.toList_push, String.toList_append,
          String.toList_ofList, String.toList_ofList, List.append_assoc]
        rfl
      rw [List.cons_append, expandBracesFrom, if_neg hopen, ih htext, List.map_map]
      exact congrArg (fun rs => expandBracesFrom rs cs) (List.map_congr_left fun r _ => hpush r)

/-- A group puts each of its alternatives behind each of the prefixes. -/
theorem expandBracesFrom_group {alts : List (List Char)} (hne : alts ≠ [])
    (h : ∀ alt ∈ alts, NoBraces alt ∧ ',' ∉ alt) (results : List String) (cs : List Char) :
    expandBracesFrom results ('{' :: ([','].intercalate alts ++ '}' :: cs)) =
      expandBracesFrom (results.flatMap fun pre => alts.map fun alt => pre ++ String.ofList alt)
        cs := by
  have hgroup := takeGroup_append (noBraces_intercalate fun alt halt => (h alt halt).1) cs
  have hsplit := List.splitOn_intercalate ',' (fun alt halt => (h alt halt).2) hne
  rw [expandBracesFrom, if_pos rfl]
  simp only [hgroup, hsplit, List.map_map]
  rfl

/-- Behind any prefixes, by induction on the pattern. -/
theorem expandBracesFrom_render (p : List Segment) (results : List String) :
    expandBracesFrom results (Segment.render p) =
      results.flatMap fun pre => (vectors (Segment.sizes p)).map fun v =>
        pre ++ Segment.pick p v := by
  induction p generalizing results with
  | nil =>
      rw [Segment.render, expandBracesFrom]
      simp [Segment.sizes, vectors, Segment.pick]
  | cons s p ih =>
      cases s with
      | literal text plain =>
          rw [Segment.render, expandBracesFrom_literal plain, ih, List.flatMap_map]
          simp only [Segment.pick, Segment.sizes, String.append_assoc]
      | group alts nonempty plain =>
          rw [Segment.render, expandBracesFrom_group nonempty plain, ih, List.flatMap_assoc]
          apply List.flatMap_congr
          intro pre _
          -- the index into a group stands for its alternative
          have hvectors : ((vectors (Segment.sizes (.group alts nonempty plain :: p))).map fun v =>
              pre ++ Segment.pick (.group alts nonempty plain :: p) v) =
              alts.flatMap fun alt => (vectors (Segment.sizes p)).map fun v =>
                pre ++ String.ofList alt ++ Segment.pick p v := by
            rw [← flatMap_range_getD alts []]
            simp only [Segment.sizes, vectors, List.map_flatMap, List.map_map, Function.comp_def,
              Segment.pick, String.append_assoc]
          rw [hvectors, List.flatMap_map]

theorem expandBraces_render (p : List Segment) :
    expandBraces (String.ofList (Segment.render p)) =
      (vectors (Segment.sizes p)).map (Segment.pick p) := by
  rw [expandBraces, String.toList_ofList, expandBracesFrom_render]
  simp

/-- **Brace expansion is the ordered product.** The expanded patterns are those with one
alternative chosen for each group, each choice once and in the order of the choices: as many as
the product of the group sizes, and the pattern itself where there is no group. -/
theorem expandBraces_eq_product (p : List Segment) :
    ∃ choices : List (List Nat),
      (∀ v, v ∈ choices ↔ List.Forall₂ (fun i n => i < n) v (Segment.sizes p)) ∧
      choices.Nodup ∧
      choices.Pairwise (List.Lex fun i j => i < j) ∧
      expandBraces (String.ofList (Segment.render p)) = choices.map (Segment.pick p) ∧
      (expandBraces (String.ofList (Segment.render p))).length = (Segment.sizes p).prod ∧
      (Segment.sizes p = [] →
        expandBraces (String.ofList (Segment.render p)) = [String.ofList (Segment.render p)]) := by
  have hproduct := expandBraces_render p
  refine ⟨vectors (Segment.sizes p), fun v => mem_vectors, nodup_vectors _, pairwise_vectors _,
    hproduct, ?_, fun hnone => ?_⟩
  · rw [hproduct, List.length_map, length_vectors]
  · rw [hproduct, hnone, vectors, List.map_singleton, Segment.pick_of_sizes_eq_nil hnone]

end VgiSymbols
