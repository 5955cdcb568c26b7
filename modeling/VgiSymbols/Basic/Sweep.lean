import VgiSymbols.Basic.Run
import VgiSymbols.Basic.Unwind

set_option autoImplicit false

/-! # Sweeps

A call on a state that unwinds still leaves the state it had reached. A sweep makes such a call
for each element of a list, one after the other, up to the first that unwinds.

* `sweep_flatMap`: a sweep over a concatenation is the sweep of its parts.
* `sweep_snd`: the state it leaves is that of a run of the elements it came to.
* `sweep_eq_zipWith`, `sweep_eq_map`: what calls have in common, sweeps of them have.
-/

namespace Sweep

variable {σ ρ α β γ : Type}

/-! ## Calls in sequence -/

/-- The value of a call, changed; its state is left as it is. -/
def mapValue (f : α → β) (x : Unwind α × σ) : Unwind β × σ := (f <$> x.1, x.2)

@[simp] theorem mapValue_returned (f : α → β) (a : α) (s : σ) :
    mapValue f (.returned a, s) = (.returned (f a), s) := rfl

@[simp] theorem mapValue_panicked (f : α → β) (s : σ) :
    mapValue f ((.panicked, s) : Unwind α × σ) = (.panicked, s) := rfl

theorem mapValue_mapValue (f : α → β) (g : β → γ) (x : Unwind α × σ) :
    mapValue g (mapValue f x) = mapValue (g ∘ f) x := by
  obtain ⟨_ | _, s⟩ := x <;> rfl

theorem mapValue_congr {f g : α → β} (h : ∀ a, f a = g a) (x : Unwind α × σ) :
    mapValue f x = mapValue g x := by rw [funext h]

theorem mapValue_id (x : Unwind α × σ) : mapValue (fun a => a) x = x := by
  obtain ⟨_ | _, s⟩ := x <;> rfl

/-- One call after another; the second one is not made when the first unwinds. -/
def andThen (x : Unwind α × σ) (f : α → σ → Unwind β × σ) : Unwind β × σ :=
  match x with
  | (.returned a, s) => f a s
  | (.panicked, s) => (.panicked, s)

@[simp] theorem andThen_returned (a : α) (s : σ) (f : α → σ → Unwind β × σ) :
    andThen (.returned a, s) f = f a s := rfl

@[simp] theorem andThen_panicked (s : σ) (f : α → σ → Unwind β × σ) :
    andThen (.panicked, s) f = (.panicked, s) := rfl

theorem mapValue_andThen (x : Unwind α × σ) (f : α → σ → Unwind β × σ) (g : β → γ) :
    mapValue g (andThen x f) = andThen x fun a s => mapValue g (f a s) := by
  obtain ⟨_ | _, s⟩ := x <;> rfl

/-! ## Sweeps -/

/-- A call for each element, up to the first that unwinds. -/
def sweep (f : σ → ρ → Unwind α × σ) : List ρ → σ → Unwind (List α) × σ
  | [], s => (.returned [], s)
  | r :: rows, s => andThen (f s r) fun a s => mapValue (a :: ·) (sweep f rows s)

theorem sweep_append (f : σ → ρ → Unwind α × σ) (rows rows' : List ρ) (s : σ) :
    sweep f (rows ++ rows') s =
      andThen (sweep f rows s) fun out s => mapValue (out ++ ·) (sweep f rows' s) := by
  induction rows generalizing s with
  | nil => rcases h : sweep f rows' s with ⟨_ | _, s'⟩ <;> simp [sweep, h]
  | cons r rows ih =>
      rcases h : f s r with ⟨_ | _, s'⟩
      · rcases h' : sweep f rows s' with ⟨_ | _, s''⟩
        · simp [sweep, h, ih, h', mapValue_mapValue, Function.comp_def]
        · simp [sweep, h, ih, h']
      · simp [sweep, h]

/-- **A sweep over a concatenation is the sweep of its parts.** `p` makes the calls of a whole
part, and `view` is what its value shows of theirs. -/
theorem sweep_flatMap {κ δ : Type} {f : σ → ρ → Unwind α × σ} {p : σ → κ → Unwind γ × σ}
    {rows : κ → List ρ} {view : γ → List δ} {g : α → δ}
    (hpart : ∀ s k, mapValue view (p s k) = mapValue (List.map g) (sweep f (rows k) s))
    (parts : List κ) (s : σ) :
    mapValue (List.map g) (sweep f (parts.flatMap rows) s)
      = mapValue (List.flatMap view) (sweep p parts s) := by
  induction parts generalizing s with
  | nil => rfl
  | cons k parts ih =>
      have hk := hpart s k
      rw [List.flatMap_cons, sweep_append, sweep, mapValue_andThen, mapValue_andThen]
      rcases hp : p s k with ⟨c | _, s'⟩
      · -- the part returns: so do its calls, and the rest goes on in the state they leave
        rcases hf : sweep f (rows k) s with ⟨out | _, s''⟩
        · rw [hp, hf, mapValue_returned, mapValue_returned] at hk
          obtain ⟨hview, rfl⟩ : view c = out.map g ∧ s' = s'' := by simpa using hk
          rw [andThen_returned, andThen_returned, mapValue_mapValue, mapValue_mapValue]
          have hrest := congrArg (mapValue (view c ++ ·)) (ih s')
          rw [mapValue_mapValue, mapValue_mapValue, hview] at hrest
          simpa [Function.comp_def, hview] using hrest
        · rw [hp, hf] at hk
          cases hk
      · rcases hf : sweep f (rows k) s with ⟨out | _, s''⟩
        · rw [hp, hf] at hk
          cases hk
        · rw [hp, hf] at hk
          exact hk.symm

/-! ## The state a sweep leaves -/

/-- The elements a sweep comes to: all up to the first whose call unwinds. -/
def reachedRows (f : σ → ρ → Unwind α × σ) : List ρ → σ → List ρ
  | [], _ => []
  | r :: rows, s =>
      match f s r with
      | (.returned _, s) => r :: reachedRows f rows s
      | (.panicked, _) => [r]

/-- **The state a sweep leaves is that of a run** of the elements it came to. -/
theorem sweep_snd (f : σ → ρ → Unwind α × σ) (rows : List ρ) (s : σ) :
    (sweep f rows s).2 = Run.run (fun s r => (f s r).2) s (reachedRows f rows s) := by
  induction rows generalizing s with
  | nil => rfl
  | cons r rows ih =>
      rw [sweep, reachedRows]
      rcases h : f s r with ⟨_ | _, s'⟩
      · rw [andThen_returned, Run.run_cons, h]
        exact ih s'
      · rw [andThen_panicked, Run.run_cons, h]
        rfl

theorem reachedRows_isPrefix (f : σ → ρ → Unwind α × σ) (rows : List ρ) (s : σ) :
    reachedRows f rows s <+: rows := by
  induction rows generalizing s with
  | nil => exact List.prefix_refl []
  | cons r rows ih =>
      rw [reachedRows]
      obtain ⟨_ | _, s'⟩ := f s r
      · exact (List.prefix_cons_inj r).mpr (ih s')
      · exact (List.prefix_cons_inj r).mpr List.nil_prefix

/-! ## Sweeps of related calls -/

/-- **One sweep from another**, if each call is the other followed by a function of its element.
`J` is an invariant of the states it needs. -/
theorem sweep_eq_zipWith {J : σ → Prop} {f : σ → ρ → Unwind α × σ} {g : σ → ρ → Unwind β × σ}
    {h : ρ → α → β} (hkeep : ∀ s r, J s → J (f s r).2)
    (hcall : ∀ s r, J s → g s r = mapValue (h r) (f s r)) {s : σ} (hs : J s) (rows : List ρ) :
    sweep g rows s = mapValue (List.zipWith h rows) (sweep f rows s) := by
  induction rows generalizing s with
  | nil => rfl
  | cons r rows ih =>
      have hnext := hkeep s r hs
      rw [sweep, sweep, hcall s r hs]
      rcases hr : f s r with ⟨_ | _, s'⟩
      · rw [hr] at hnext
        rw [mapValue_returned, andThen_returned, andThen_returned, ih hnext, mapValue_mapValue,
          mapValue_mapValue]
        rfl
      · rfl

/-- **A sweep of calls that return what the element says**, if they keep the invariant they
need for it. -/
theorem sweep_eq_map {J : σ → Prop} {f : σ → ρ → Unwind α × σ} {v : ρ → α} {rows : List ρ}
    (hcall : ∀ r ∈ rows, ∀ s, J s → (f s r).1 = .returned (v r) ∧ J (f s r).2) {s : σ}
    (hs : J s) : (sweep f rows s).1 = .returned (rows.map v) ∧ J (sweep f rows s).2 := by
  induction rows generalizing s with
  | nil => exact ⟨rfl, hs⟩
  | cons r rows ih =>
      obtain ⟨hfirst, hcall⟩ := List.forall_mem_cons.mp hcall
      obtain ⟨hvalue, hnext⟩ := hfirst s hs
      rcases hr : f s r with ⟨out, s'⟩
      rw [hr] at hvalue hnext
      obtain rfl : out = .returned (v r) := hvalue
      obtain ⟨hrest, hend⟩ := ih hcall hnext
      rw [sweep, hr, andThen_returned]
      exact ⟨congrArg (Functor.map (v r :: ·)) hrest, hend⟩

end Sweep
