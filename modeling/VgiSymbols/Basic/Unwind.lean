import Mathlib.Control.Basic

set_option autoImplicit false

/-! # Calls that may unwind

A call into a library that can panic either returns or unwinds the stack. `Unwind α` is
the outcome of such a call, with the monad that lets a panic escape through every caller
that does not catch it. `catchUnwind` is the guard that stops it.

A fallible call (one that also returns errors) is `ExceptT ε Unwind α`: the `do` notation
of that monad is the early return of an error, and a panic goes past it.
-/

/-- The outcome of a call that returns a value or unwinds. -/
inductive Unwind (α : Type) where
  | returned (a : α)
  | panicked
  deriving DecidableEq, Repr

namespace Unwind

variable {α β γ ε : Type}

protected def bind : Unwind α → (α → Unwind β) → Unwind β
  | returned a, f => f a
  | panicked, _ => panicked

instance : Monad Unwind where
  pure := returned
  bind := Unwind.bind

@[simp] theorem pure_eq (a : α) : (pure a : Unwind α) = returned a := rfl

@[simp] theorem returned_bind (a : α) (f : α → Unwind β) : (returned a >>= f) = f a := rfl

@[simp] theorem panicked_bind (f : α → Unwind β) : (panicked >>= f) = panicked := rfl

@[simp] theorem map_returned (f : α → β) (a : α) : f <$> returned a = returned (f a) := rfl

@[simp] theorem map_panicked (f : α → β) : f <$> (panicked : Unwind α) = panicked := rfl

instance : LawfulMonad Unwind := .mk' Unwind
  (fun x => by cases x <;> rfl) (fun _ _ => rfl) fun x _ _ => by cases x <;> rfl

theorem bind_eq_returned {x : Unwind α} {f : α → Unwind β} {b : β} :
    (x >>= f) = returned b ↔ ∃ a, x = returned a ∧ f a = returned b := by
  cases x <;> simp

theorem map_eq_returned {x : Unwind α} {f : α → β} {b : β} :
    f <$> x = returned b ↔ ∃ a, x = returned a ∧ f a = b := by
  cases x <;> simp

/-- The guard: the value of a call that returned, nothing when it panicked. -/
def catchUnwind : Unwind α → Option α
  | returned a => some a
  | panicked => none

@[simp] theorem catchUnwind_returned (a : α) : (returned a).catchUnwind = some a := rfl

@[simp] theorem catchUnwind_panicked : (panicked : Unwind α).catchUnwind = none := rfl

theorem catchUnwind_eq_some {x : Unwind α} {a : α} :
    x.catchUnwind = some a ↔ x = returned a := by
  cases x <;> simp

/-- The call comes back to its caller. -/
def Returns (x : Unwind α) : Prop := ∃ a, x = returned a

@[simp] theorem returns_returned (a : α) : (returned a).Returns := ⟨a, rfl⟩

@[simp] theorem not_returns_panicked : ¬ (panicked : Unwind α).Returns := by
  rintro ⟨a, h⟩
  cases h

theorem returns_iff_ne_panicked {x : Unwind α} : x.Returns ↔ x ≠ panicked := by
  cases x <;> simp

instance (x : Unwind α) : Decidable x.Returns :=
  match x with
  | returned a => .isTrue ⟨a, rfl⟩
  | panicked => .isFalse not_returns_panicked

@[simp] theorem returns_map {x : Unwind α} {f : α → β} : (f <$> x).Returns ↔ x.Returns := by
  cases x <;> simp

theorem Returns.bind {x : Unwind α} {f : α → Unwind β} (hx : x.Returns)
    (hf : ∀ a, (f a).Returns) : (x >>= f).Returns := by
  obtain ⟨a, rfl⟩ := hx
  exact hf a

/-! ## A call for each element of a list -/

/-- What a call yields for the elements of a list, up to the first that unwinds. -/
def collect (f : α → Unwind (Option β)) : List α → Unwind (List β)
  | [] => return []
  | a :: l => do
      let b ← f a
      let rest ← collect f l
      return b.toList ++ rest

theorem collect_concat (f : α → Unwind (Option β)) (l : List α) (a : α) :
    collect f (l ++ [a]) = do
      let out ← collect f l
      let b ← f a
      return out ++ b.toList := by
  induction l with
  | nil => simp [collect]
  | cons x l ih =>
      rw [List.cons_append, collect, ih, collect]
      simp only [bind_assoc, pure_bind, List.append_assoc]

/-- If no call unwinds, the list of what they yield. -/
theorem collect_congr {f g : α → Unwind (Option β)} {l : List α} (h : ∀ a ∈ l, f a = g a) :
    collect f l = collect g l := by
  induction l with
  | nil => rfl
  | cons a l ih => rw [collect, collect, h a (by simp), ih fun x hx => h x (by simp [hx])]

theorem collect_eq_filterMap {f : α → Unwind (Option β)} {l : List α}
    (h : ∀ a ∈ l, (f a).Returns) :
    collect f l = returned (l.filterMap fun a => (f a).catchUnwind.join) := by
  induction l with
  | nil => rfl
  | cons a l ih =>
      obtain ⟨b, hb⟩ := h a (by simp)
      rw [collect, ih fun x hx => h x (by simp [hx]), hb]
      cases b <;> simp [hb]

theorem returns_collect {f : α → Unwind (Option β)} {l : List α} :
    (collect f l).Returns ↔ ∀ a ∈ l, (f a).Returns := by
  refine ⟨fun h => ?_, fun h => ⟨_, collect_eq_filterMap h⟩⟩
  induction l with
  | nil => exact fun _ ha => by cases ha
  | cons a l ih =>
      obtain ⟨out, hout⟩ := h
      obtain ⟨b, hb, hrest⟩ := bind_eq_returned.mp hout
      obtain ⟨rest, hrest, -⟩ := bind_eq_returned.mp hrest
      exact List.forall_mem_cons.mpr ⟨⟨b, hb⟩, ih ⟨rest, hrest⟩⟩

theorem mem_collect {f : α → Unwind (Option β)} {l : List α} {out : List β}
    (h : collect f l = returned out) {b : β} :
    b ∈ out ↔ ∃ a ∈ l, f a = returned (some b) := by
  have hret := returns_collect.mp ⟨out, h⟩
  rw [collect_eq_filterMap hret] at h
  cases h
  rw [List.mem_filterMap]
  refine exists_congr fun a => and_congr_right fun ha => ?_
  obtain ⟨o, ho⟩ := hret a ha
  simp [ho]

/-! ## Fallible calls -/

/-- Translate the error of a fallible call, and enter the monad of early returns. -/
def mapErr (x : Unwind (Except ε α)) {δ : Type} (f : ε → δ) : ExceptT δ Unwind α :=
  ExceptT.mk (Except.mapError f <$> x)

/-- The value inside a call that may come back empty-handed, or the given error. -/
def okOr (x : Unwind (Option α)) (e : ε) : ExceptT ε Unwind α :=
  ExceptT.mk ((fun o => o.elim (Except.error e) Except.ok) <$> x)

/-- A call that returns no errors, inside the monad of early returns. -/
def infallible (x : Unwind α) : ExceptT ε Unwind α := ExceptT.mk (Except.ok <$> x)

theorem run_bind_eq_ok {x : ExceptT ε Unwind α} {f : α → ExceptT ε Unwind β} {b : β} :
    (x >>= f).run = returned (.ok b) ↔
      ∃ a, x.run = returned (.ok a) ∧ (f a).run = returned (.ok b) := by
  rcases x with (e | a) | _
  · constructor
    · intro h; cases h
    · rintro ⟨a, h, -⟩; cases h
  · constructor
    · intro h; exact ⟨a, rfl, h⟩
    · rintro ⟨a', h, h'⟩; cases h; exact h'
  · constructor
    · intro h; cases h
    · rintro ⟨a, h, -⟩; cases h

theorem map_eq_returned_ok {x : Unwind (Except ε α)} {f : α → β} {b : β} :
    Except.map f <$> x = returned (.ok b) ↔ ∃ a, x = returned (.ok a) ∧ f a = b := by
  rcases x with (e | a) | _ <;> simp [Except.map]

theorem Returns.run_bind {x : ExceptT ε Unwind α} {f : α → ExceptT ε Unwind β}
    (hx : x.run.Returns) (hf : ∀ a, x.run = returned (.ok a) → (f a).run.Returns) :
    (x >>= f).run.Returns := by
  obtain ⟨e | a, h⟩ := hx
  · exact ⟨.error e, by rw [ExceptT.run_bind, h]; rfl⟩
  · rw [ExceptT.run_bind, h]
    exact hf a h

theorem Returns.mapErr {x : Unwind (Except ε α)} (h : x.Returns) {δ : Type} (f : ε → δ) :
    (x.mapErr f).run.Returns :=
  returns_map.mpr h

theorem Returns.okOr {x : Unwind (Option α)} (h : x.Returns) (e : ε) :
    (x.okOr e).run.Returns :=
  returns_map.mpr h

theorem Returns.infallible {x : Unwind α} (h : x.Returns) :
    (x.infallible : ExceptT ε Unwind α).run.Returns :=
  returns_map.mpr h

theorem run_mapErr_eq_ok {x : Unwind (Except ε α)} {δ : Type} {f : ε → δ} {a : α} :
    (x.mapErr f).run = returned (.ok a) ↔ x = returned (.ok a) := by
  rcases x with (e | b) | _ <;> simp [mapErr, ExceptT.run, ExceptT.mk, Except.mapError]

theorem run_infallible_eq_ok {x : Unwind α} {a : α} :
    (x.infallible : ExceptT ε Unwind α).run = returned (.ok a) ↔ x = returned a := by
  rcases x with b | _ <;> simp [infallible, ExceptT.run, ExceptT.mk]

end Unwind
