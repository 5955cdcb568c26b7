import VgiSymbols.Basic.Run

set_option autoImplicit false

/-! # Ledgers

A state holds a list of entries. A step may add an entry behind the others, and remove some. Then
what is held at the end of a run is what was held or added and not removed since
(`mem_run_iff`), in the order of the additions (`sublist_run`). If only the entries in front are
removed, the ledger is a queue: what was taken from it, with what is left, is what was held or
added, in order (`taken_append_held`).
-/

namespace Ledger

open Run

variable {σ ι κ : Type} {step : σ → ι → σ} {added : σ → ι → Option κ} {removes : ι → κ → Prop}
  {C : ι → Prop}

/-- The entry was added in the run, and not removed since. -/
def AddedSince (step : σ → ι → σ) (added : σ → ι → Option κ) (removes : ι → κ → Prop) (s : σ)
    (ops : List ι) (x : κ) : Prop :=
  ∃ before i after, ops = before ++ i :: after ∧ added (run step s before) i = some x ∧
    ∀ j ∈ after, ¬ removes j x

theorem addedSince_cons {s : σ} {i : ι} {ops : List ι} {x : κ} :
    AddedSince step added removes s (i :: ops) x ↔
      (added s i = some x ∧ ∀ j ∈ ops, ¬ removes j x) ∨
        AddedSince step added removes (step s i) ops x := by
  constructor
  · rintro ⟨before, j, after, hops, hadd, hkept⟩
    cases before with
    | nil =>
        obtain ⟨rfl, rfl⟩ := List.cons.inj hops
        exact Or.inl ⟨hadd, hkept⟩
    | cons i' before =>
        obtain ⟨rfl, rfl⟩ := List.cons.inj hops
        exact Or.inr ⟨before, j, after, rfl, hadd, hkept⟩
  · rintro (⟨hadd, hkept⟩ | ⟨before, j, after, rfl, hadd, hkept⟩)
    · exact ⟨[], i, ops, rfl, hadd, hkept⟩
    · exact ⟨i :: before, j, after, rfl, hadd, hkept⟩

/-- **The rule for membership.** -/
theorem mem_run_iff (step : σ → ι → σ) (held : σ → List κ) (added : σ → ι → Option κ)
    (removes : ι → κ → Prop)
    (hstep : ∀ s i x, C i → (x ∈ held (step s i) ↔ x ∈ held s ∧ ¬ removes i x ∨ added s i = some x))
    {ops : List ι} (hops : ∀ i ∈ ops, C i) (s : σ) (x : κ) :
    x ∈ held (run step s ops) ↔
      (x ∈ held s ∧ ∀ i ∈ ops, ¬ removes i x) ∨ AddedSince step added removes s ops x := by
  induction ops generalizing s with
  | nil =>
      refine ⟨fun h => Or.inl ⟨h, fun _ hi => by cases hi⟩, ?_⟩
      rintro (h | ⟨before, i, after, hops, -⟩)
      · exact h.1
      · exact absurd hops.symm
          (List.append_ne_nil_of_right_ne_nil before (List.cons_ne_nil i after))
  | cons i ops ih =>
      have hrest : ∀ j ∈ ops, C j := fun j hj => hops j (by simp [hj])
      rw [run_cons, ih hrest, hstep s i x (hops i (by simp)), addedSince_cons, List.forall_mem_cons]
      tauto

/-- **The rule for the order.** -/
theorem sublist_run (step : σ → ι → σ) (held : σ → List κ) (added : σ → ι → Option κ)
    (hstep : ∀ s i, C i → (held (step s i)).Sublist (held s ++ (added s i).toList))
    {ops : List ι} (hops : ∀ i ∈ ops, C i) (s : σ) :
    (held (run step s ops)).Sublist (held s ++ emitted step added s ops) := by
  induction ops generalizing s with
  | nil =>
      rw [emitted, List.append_nil]
      exact List.Sublist.refl _
  | cons i ops ih =>
      have hrest : ∀ j ∈ ops, C j := fun j hj => hops j (by simp [hj])
      rw [run_cons, emitted, ← List.append_assoc]
      exact (ih hrest _).trans ((hstep s i (hops i (by simp))).append_right _)

/-- The ledger of a run that removes nothing. -/
theorem held_run (step : σ → ι → σ) (held : σ → List κ) (added : σ → ι → Option κ)
    (hstep : ∀ s i, C i → held (step s i) = held s ++ (added s i).toList)
    {ops : List ι} (hops : ∀ i ∈ ops, C i) (s : σ) :
    held (run step s ops) = held s ++ emitted step added s ops := by
  induction ops generalizing s with
  | nil => exact (List.append_nil _).symm
  | cons i ops ih =>
      rw [run_cons, ih (fun j hj => hops j (by simp [hj])), hstep s i (hops i (by simp)), emitted,
        List.append_assoc]

/-! ## Queues -/

/-- **The rule for queues.** A step takes entries from the front and adds some at the end. The
condition on the states may keep count of the steps that are left. -/
theorem taken_append_held (step : σ → ι → σ) (held : σ → List κ) (taken : σ → ι → List κ)
    (added : σ → ι → Option κ) {J : Nat → σ → Prop}
    (hstep : ∀ n s i, J (n + 1) s → C i →
      taken s i ++ held (step s i) = held s ++ (added s i).toList ∧ J n (step s i))
    {ops : List ι} (hops : ∀ i ∈ ops, C i) {s : σ} (hs : J ops.length s) :
    (trace step taken s ops).flatten ++ held (run step s ops)
      = held s ++ emitted step added s ops := by
  induction ops generalizing s with
  | nil => exact (List.append_nil _).symm
  | cons i ops ih =>
      obtain ⟨hi, hnext⟩ := hstep ops.length s i hs (hops i (by simp))
      have hrest := ih (fun j hj => hops j (by simp [hj])) hnext
      calc (trace step taken s (i :: ops)).flatten ++ held (run step s (i :: ops))
          = taken s i
              ++ ((trace step taken (step s i) ops).flatten ++ held (run step (step s i) ops)) :=
            List.append_assoc ..
        _ = (taken s i ++ held (step s i)) ++ emitted step added (step s i) ops := by
            rw [hrest, List.append_assoc]
        _ = held s ++ emitted step added s (i :: ops) := by
            rw [hi, emitted, List.append_assoc]

theorem emitted_filter (step : σ → ι → σ) (added : σ → ι → Option κ) (P : κ → Bool) (s : σ)
    (ops : List ι) :
    emitted step (fun s i => (added s i).filter P) s ops = (emitted step added s ops).filter P := by
  induction ops generalizing s with
  | nil => rfl
  | cons i ops ih =>
      have htoList : ((added s i).filter P).toList = (added s i).toList.filter P :=
        Option.toList_filter
      rw [emitted, emitted, ih, List.filter_append, htoList]

end Ledger
