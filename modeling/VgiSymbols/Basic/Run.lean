import Mathlib.Logic.Basic
import Mathlib.Data.List.Forall2

set_option autoImplicit false

/-! # Runs of a transition function

A system is a step function `σ → ι → σ` on states; a run is the left fold of a list of
operations. `MeetsAlong step C s ops` says that every step of the run meets the condition
`C`, which may look at the state before the step. `invariant_run` is the induction rule: what
holds at the start and is preserved by every step that meets `C` holds at the end.
-/

namespace Run

variable {σ ι : Type}

/-- The state a run ends in. -/
def run (step : σ → ι → σ) (s : σ) (ops : List ι) : σ := ops.foldl step s

@[simp] theorem run_nil (step : σ → ι → σ) (s : σ) : run step s [] = s := rfl

@[simp] theorem run_cons (step : σ → ι → σ) (s : σ) (i : ι) (ops : List ι) :
    run step s (i :: ops) = run step (step s i) ops := rfl

/-- Every step of the run from `s` meets the condition `C`. -/
def MeetsAlong (step : σ → ι → σ) (C : σ → ι → Prop) : σ → List ι → Prop
  | _, [] => True
  | s, i :: ops => C s i ∧ MeetsAlong step C (step s i) ops

instance (step : σ → ι → σ) (C : σ → ι → Prop) [∀ s i, Decidable (C s i)] :
    ∀ (s : σ) (ops : List ι), Decidable (MeetsAlong step C s ops)
  | _, [] => .isTrue trivial
  | s, i :: ops =>
      have := instDecidableMeetsAlong step C (step s i) ops
      inferInstanceAs (Decidable (C s i ∧ MeetsAlong step C (step s i) ops))

theorem MeetsAlong.of_forall {step : σ → ι → σ} {C : σ → ι → Prop} (h : ∀ s i, C s i) (s : σ)
    (ops : List ι) : MeetsAlong step C s ops := by
  induction ops generalizing s with
  | nil => trivial
  | cons i ops ih => exact ⟨h s i, ih _⟩

theorem MeetsAlong.of_forall_mem {step : σ → ι → σ} {C : ι → Prop} {ops : List ι}
    (h : ∀ i ∈ ops, C i) (s : σ) : MeetsAlong step (fun _ i => C i) s ops := by
  induction ops generalizing s with
  | nil => trivial
  | cons i ops ih => exact ⟨h i (by simp), ih (fun j hj => h j (by simp [hj])) _⟩

theorem MeetsAlong.and {step : σ → ι → σ} {A C : σ → ι → Prop} {s : σ} {ops : List ι}
    (hA : MeetsAlong step A s ops) (hC : MeetsAlong step C s ops) :
    MeetsAlong step (fun s i => A s i ∧ C s i) s ops := by
  induction ops generalizing s with
  | nil => trivial
  | cons i ops ih => exact ⟨⟨hA.1, hC.1⟩, ih hA.2 hC.2⟩

/-- **The induction rule for runs.** -/
theorem invariant_run {step : σ → ι → σ} {C : σ → ι → Prop} {P : σ → Prop}
    (hstep : ∀ s i, P s → C s i → P (step s i)) {s : σ} (hs : P s) {ops : List ι}
    (hops : MeetsAlong step C s ops) : P (run step s ops) := by
  induction ops generalizing s with
  | nil => exact hs
  | cons i ops ih => exact ih (hstep s i hs hops.1) hops.2

/-- The rule without a condition on the steps. -/
theorem invariant_run' {step : σ → ι → σ} {P : σ → Prop} (hstep : ∀ s i, P s → P (step s i))
    {s : σ} (hs : P s) (ops : List ι) : P (run step s ops) :=
  invariant_run (C := fun _ _ => True) (fun s i h _ => hstep s i h) hs
    (MeetsAlong.of_forall (fun _ _ => trivial) s ops)

/-- One condition implies another along a run, if it does so in the states of an invariant and keeps
the invariant. -/
theorem MeetsAlong.imp {step : σ → ι → σ} {A C : σ → ι → Prop} {J : σ → Prop}
    (hkeep : ∀ s i, J s → C s i → J (step s i)) (himp : ∀ s i, J s → C s i → A s i) {s : σ}
    (hs : J s) {ops : List ι} (hops : MeetsAlong step C s ops) : MeetsAlong step A s ops := by
  induction ops generalizing s with
  | nil => trivial
  | cons i ops ih => exact ⟨himp s i hs hops.1, ih (hkeep s i hs hops.1) hops.2⟩

/-- Two conditions agree along the runs whose steps are of a kind `B`, if they agree in the states
of an invariant, and the steps that meet one of them keep the invariant. -/
theorem meetsAlong_congr_of {step : σ → ι → σ} {A B C : σ → ι → Prop} {J : σ → Prop}
    (hkeep : ∀ s i, J s → B s i → C s i → J (step s i))
    (hiff : ∀ s i, J s → B s i → (A s i ↔ C s i)) {s : σ} (hs : J s) {ops : List ι}
    (hops : MeetsAlong step B s ops) :
    MeetsAlong step A s ops ↔ MeetsAlong step C s ops := by
  induction ops generalizing s with
  | nil => exact Iff.rfl
  | cons i ops ih =>
      obtain ⟨hb, hops⟩ := hops
      constructor
      · rintro ⟨ha, hrest⟩
        have hc := (hiff s i hs hb).mp ha
        exact ⟨hc, (ih (hkeep s i hs hb hc) hops).mp hrest⟩
      · rintro ⟨hc, hrest⟩
        exact ⟨(hiff s i hs hb).mpr hc, (ih (hkeep s i hs hb hc) hops).mpr hrest⟩

theorem meetsAlong_congr {step : σ → ι → σ} {A C : σ → ι → Prop} {J : σ → Prop}
    (hkeep : ∀ s i, J s → C s i → J (step s i)) (hiff : ∀ s i, J s → (A s i ↔ C s i)) {s : σ}
    (hs : J s) (ops : List ι) : MeetsAlong step A s ops ↔ MeetsAlong step C s ops :=
  meetsAlong_congr_of (B := fun _ _ => True) (fun s i h _ => hkeep s i h)
    (fun s i h _ => hiff s i h) hs (MeetsAlong.of_forall (fun _ _ => trivial) s ops)

/-! ## What happens in a run -/

/-- Some step of the run meets `A`, which may look at the state before the step. -/
def Happens (step : σ → ι → σ) (A : σ → ι → Prop) (s : σ) (ops : List ι) : Prop :=
  ∃ before i after, ops = before ++ i :: after ∧ A (run step s before) i

theorem not_happens_nil {step : σ → ι → σ} {A : σ → ι → Prop} {s : σ} :
    ¬ Happens step A s [] := by
  rintro ⟨before, i, after, hops, -⟩
  exact List.append_ne_nil_of_right_ne_nil before (List.cons_ne_nil i after) hops.symm

theorem happens_cons {step : σ → ι → σ} {A : σ → ι → Prop} {s : σ} {i : ι} {ops : List ι} :
    Happens step A s (i :: ops) ↔ A s i ∨ Happens step A (step s i) ops := by
  constructor
  · rintro ⟨before, j, after, hops, hA⟩
    cases before with
    | nil =>
        cases hops
        exact Or.inl hA
    | cons i' before =>
        cases hops
        exact Or.inr ⟨before, j, after, rfl, hA⟩
  · rintro (hA | ⟨before, j, after, rfl, hA⟩)
    · exact ⟨[], i, ops, rfl, hA⟩
    · exact ⟨i :: before, j, after, rfl, hA⟩

/-- **The rule for what stays**: if a step keeps `L` and makes it true exactly when it meets `A`,
then `L` holds at the end of a run that started with it or in which `A` happened. -/
theorem run_iff_happens {step : σ → ι → σ} {A : σ → ι → Prop} {L J : σ → Prop}
    (hkeep : ∀ s i, J s → J (step s i)) (hstep : ∀ s i, J s → (L (step s i) ↔ L s ∨ A s i))
    {s : σ} (hs : J s) (ops : List ι) : L (run step s ops) ↔ L s ∨ Happens step A s ops := by
  induction ops generalizing s with
  | nil => exact ⟨Or.inl, fun h => h.resolve_right not_happens_nil⟩
  | cons i ops ih =>
      rw [run_cons, ih (hkeep s i hs), hstep s i hs, happens_cons, or_assoc]

/-- **The rule for what is found**: if a step leads to `L` only from `L`, or when it meets `A`, then
`L` at the end of a run was there from the start, or `A` happened. -/
theorem happens_of_run {step : σ → ι → σ} {A : σ → ι → Prop} {C : ι → Prop} {L J : σ → Prop}
    (hkeep : ∀ s i, J s → C i → J (step s i))
    (hstep : ∀ s i, J s → C i → L (step s i) → L s ∨ A s i) {s : σ} (hs : J s) {ops : List ι}
    (hops : ∀ i ∈ ops, C i) (h : L (run step s ops)) : L s ∨ Happens step A s ops := by
  induction ops generalizing s with
  | nil => exact Or.inl h
  | cons i ops ih =>
      have hi := hops i (by simp)
      have hrest : ∀ j ∈ ops, C j := fun j hj => hops j (by simp [hj])
      rcases ih (hkeep s i hs hi) hrest h with h | h
      · exact (hstep s i hs hi h).imp_right fun hA => happens_cons.mpr (Or.inl hA)
      · exact Or.inr (happens_cons.mpr (Or.inr h))

/-! ## What a run emits -/

variable {ω : Type}

/-- What the steps of a run emit, in order. -/
def emitted (step : σ → ι → σ) (out : σ → ι → Option ω) : σ → List ι → List ω
  | _, [] => []
  | s, i :: ops => (out s i).toList ++ emitted step out (step s i) ops

theorem emitted_append (step : σ → ι → σ) (out : σ → ι → Option ω) (s : σ) (ops ops' : List ι) :
    emitted step out s (ops ++ ops')
      = emitted step out s ops ++ emitted step out (run step s ops) ops' := by
  induction ops generalizing s with
  | nil => rfl
  | cons i ops ih => rw [List.cons_append, emitted, ih, emitted, run_cons, List.append_assoc]

theorem emitted_eq_nil {step : σ → ι → σ} {out : σ → ι → Option ω} {ops : List ι}
    (h : ∀ i ∈ ops, ∀ s, out s i = none) (s : σ) : emitted step out s ops = [] := by
  induction ops generalizing s with
  | nil => rfl
  | cons i ops ih =>
      rw [emitted, h i (by simp), ih fun j hj => h j (by simp [hj])]
      rfl

/-- **The rule for related runs.** Two runs on the same operations emit the same, if related
states emit the same and step to related states. The relation may keep count of the steps that are
left. -/
theorem emitted_eq {step : σ → ι → σ} {out : σ → ι → Option ω} {R : Nat → σ → σ → Prop}
    {B : ι → Prop}
    (hstep : ∀ n s s' i, R (n + 1) s s' → B i →
      out s i = out s' i ∧ R n (step s i) (step s' i))
    {ops : List ι} (hops : ∀ i ∈ ops, B i) {n : Nat} {s s' : σ} (hs : R (n + ops.length) s s') :
    emitted step out s ops = emitted step out s' ops ∧ R n (run step s ops) (run step s' ops) := by
  induction ops generalizing s s' with
  | nil => exact ⟨rfl, hs⟩
  | cons i ops ih =>
      obtain ⟨hout, hnext⟩ := hstep _ _ _ i hs (hops i (by simp))
      obtain ⟨hrest, hend⟩ := ih (fun j hj => hops j (by simp [hj])) hnext
      exact ⟨by rw [emitted, emitted, hout, hrest], hend⟩

/-- **The rule for runs that emit nothing twice**: an invariant on what was emitted so far and
the state rules out that a step emits it again. -/
theorem nodup_emitted (step : σ → ι → σ) (out : σ → ι → Option ω) {C : ι → Prop}
    {J : List ω → σ → Prop} (hfresh : ∀ seen s i x, J seen s → C i → out s i = some x → x ∉ seen)
    (hstep : ∀ seen s i, J seen s → C i → J (seen ++ (out s i).toList) (step s i))
    {seen : List ω} {s : σ} (hseen : seen.Nodup) (hs : J seen s) {ops : List ι}
    (hops : ∀ i ∈ ops, C i) : (seen ++ emitted step out s ops).Nodup := by
  induction ops generalizing seen s with
  | nil => simpa [emitted] using hseen
  | cons i ops ih =>
      have hi := hops i (by simp)
      rw [emitted, ← List.append_assoc]
      refine ih ?_ (hstep seen s i hs hi) fun j hj => hops j (by simp [hj])
      cases hx : out s i with
      | none => simpa using hseen
      | some x => exact List.nodup_append.mpr ⟨hseen, by simp,
          fun a ha b hb hab => hfresh seen s i x hs hi hx
            (by rw [← List.mem_singleton.mp hb, ← hab]; exact ha)⟩

/-- **The rule for runs that emit less.** Of two runs on the same operations one emits a part of
what the other does, if in related states it emits the same or nothing and steps to related
states. -/
theorem emitted_sublist {step : σ → ι → σ} {out : σ → ι → Option ω} {R : σ → σ → Prop}
    {C : ι → Prop}
    (hstep : ∀ s s' i, R s s' → C i →
      (∀ x, out s' i = some x → out s i = some x) ∧ R (step s i) (step s' i))
    {s s' : σ} (hs : R s s') {ops : List ι} (hops : ∀ i ∈ ops, C i) :
    List.Sublist (emitted step out s' ops) (emitted step out s ops) ∧
      R (run step s ops) (run step s' ops) := by
  induction ops generalizing s s' with
  | nil => exact ⟨List.Sublist.refl [], hs⟩
  | cons i ops ih =>
      obtain ⟨hout, hnext⟩ := hstep s s' i hs (hops i (by simp))
      obtain ⟨hrest, hend⟩ := ih hnext fun j hj => hops j (by simp [hj])
      refine ⟨?_, hend⟩
      rw [emitted, emitted]
      refine List.Sublist.append ?_ hrest
      cases hx : out s' i with
      | none => exact List.nil_sublist _
      | some x => rw [hout x hx]

/-! ## Runs in smaller steps -/

/-- The smaller steps of a run, each step of it taken in the steps `fine` says. -/
def expand {κ : Type} (step : σ → ι → σ) (fine : σ → ι → List κ) : σ → List ι → List κ
  | _, [] => []
  | s, i :: ops => fine s i ++ expand step fine (step s i) ops

/-- **The refinement rule.** If every step is, through `abs`, a run of smaller steps, then so is
every run. -/
theorem run_expand {τ κ : Type} {step : σ → ι → σ} {step' : τ → κ → τ} {abs : σ → τ}
    {fine : σ → ι → List κ} (h : ∀ s i, abs (step s i) = run step' (abs s) (fine s i)) (s : σ)
    (ops : List ι) : abs (run step s ops) = run step' (abs s) (expand step fine s ops) := by
  induction ops generalizing s with
  | nil => rfl
  | cons i ops ih =>
      rw [run_cons, ih, expand, h]
      exact (List.foldl_append ..).symm

theorem forall_mem_expand {κ : Type} {step : σ → ι → σ} {fine : σ → ι → List κ} {C : κ → Prop}
    (h : ∀ s i, ∀ k ∈ fine s i, C k) (s : σ) (ops : List ι) :
    ∀ k ∈ expand step fine s ops, C k := by
  induction ops generalizing s with
  | nil => exact fun k hk => by cases hk
  | cons i ops ih => exact List.forall_mem_append.mpr ⟨h s i, ih _⟩

/-! ## What a run shows -/

/-- What the steps of a run show to an observer, in order. -/
def trace (step : σ → ι → σ) (out : σ → ι → ω) : σ → List ι → List ω
  | _, [] => []
  | s, i :: ops => out s i :: trace step out (step s i) ops

/-- **The simulation rule.** Two runs on related operations show the same and end in related
states, if related states show the same and step to related states. The steps may be assumed to
meet a condition along the first run. -/
theorem trace_eq {step : σ → ι → σ} {out : σ → ι → ω} {R : σ → σ → Prop} {B : ι → ι → Prop}
    {C : σ → ι → Prop}
    (hstep : ∀ s s' i i', R s s' → B i i' → C s i →
      out s i = out s' i' ∧ R (step s i) (step s' i'))
    {s s' : σ} (hs : R s s') {ops ops' : List ι} (hops : List.Forall₂ B ops ops')
    (hmeets : MeetsAlong step C s ops) :
    trace step out s ops = trace step out s' ops' ∧ R (run step s ops) (run step s' ops') := by
  induction hops generalizing s s' with
  | nil => exact ⟨rfl, hs⟩
  | cons hi _ ih =>
      obtain ⟨hout, hnext⟩ := hstep _ _ _ _ hs hi hmeets.1
      obtain ⟨htrace, hend⟩ := ih hnext hmeets.2
      exact ⟨congrArg₂ List.cons hout htrace, hend⟩

/-! ## Silent steps -/

/-- The second list of operations is the first with silent ones put in. -/
inductive Padded (silent : ι → Prop) : List ι → List ι → Prop where
  | nil : Padded silent [] []
  | cons (i : ι) {ops ops' : List ι} (h : Padded silent ops ops') :
      Padded silent (i :: ops) (i :: ops')
  | pad {i : ι} (hi : silent i) {ops ops' : List ι} (h : Padded silent ops ops') :
      Padded silent ops (i :: ops')

/-- **The rule for silent steps.** Putting silent steps in a run does not change what it emits, if
related states emit the same and step to related states, and a silent step emits nothing and leads
to a related state. The relation may keep count of the steps that are left. -/
theorem emitted_padded {step : σ → ι → σ} {out : σ → ι → Option ω} {R : Nat → σ → σ → Prop}
    {B silent : ι → Prop}
    (hstep : ∀ n s s' i, R (n + 1) s s' → B i →
      out s i = out s' i ∧ R n (step s i) (step s' i))
    (hsilent : ∀ n s s' i, R (n + 1) s s' → silent i → out s' i = none ∧ R n s (step s' i))
    {ops ops' : List ι} (hops : Padded silent ops ops') (hB : ∀ i ∈ ops, B i) {s s' : σ}
    (hs : R ops'.length s s') : emitted step out s ops = emitted step out s' ops' := by
  induction hops generalizing s s' with
  | nil => rfl
  | cons i _ ih =>
      obtain ⟨hout, hnext⟩ := hstep _ _ _ _ hs (hB i (by simp))
      rw [emitted, emitted, hout, ih (fun j hj => hB j (by simp [hj])) hnext]
  | pad hi _ ih =>
      obtain ⟨hout, hnext⟩ := hsilent _ _ _ _ hs hi
      rw [emitted, hout, ih hB hnext]
      rfl

end Run
