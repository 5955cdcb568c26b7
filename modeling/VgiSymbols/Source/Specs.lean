import VgiSymbols.Source.Numbered

set_option autoImplicit false

/-! # Complete sources

`add` registers the source that its arguments describe if that source is complete, and changes
nothing otherwise (`add_of_complete`, `add_of_missing`).
-/

namespace VgiSymbols

namespace SourceSpec

/-- The source that the arguments of `add` describe, under the id it would get. -/
def described (sourceId kind : String) (path url bucket : Option String) (enabled : Option Bool)
    (secret : Option String) : SourceSpec :=
  let kind := asciiLower (trim kind)
  let egress := kind == "debuginfod" || kind == "s3" || kind == "http"
  { sourceId, kind, path, url, bucket, enabled := enabled.getD (!egress), egress, secret }

section Described

variable (sourceId sourceId' kind : String) (path url bucket : Option String)
  (enabled : Option Bool) (secret : Option String)

theorem isLocal_described :
    (described sourceId kind path url bucket enabled secret).isLocal
      = (described sourceId' kind path url bucket enabled secret).isLocal := rfl

end Described

/-- The source is of a known kind and has the locator of that kind. -/
def Complete (s : SourceSpec) : Prop :=
  (s.kind = "dir" ∨ s.kind = "glob") ∧ s.path.getD "" ≠ "" ∨
    (s.kind = "debuginfod" ∨ s.kind = "http") ∧ s.url.getD "" ≠ "" ∨
    s.kind = "s3" ∧ s.bucket.getD "" ≠ "" ∨ s.kind = "inline"

/-- What `add` finds missing. -/
def missing (s : SourceSpec) : Option String :=
  if s.kind = "dir" ∨ s.kind = "glob" then
    if s.path.getD "" = "" then some ("source kind '" ++ s.kind ++ "' requires path =>") else none
  else if s.kind = "debuginfod" ∨ s.kind = "http" then
    if s.url.getD "" = "" then some ("source kind '" ++ s.kind ++ "' requires url =>") else none
  else if s.kind = "s3" then
    if s.bucket.getD "" = "" then some "source kind 's3' requires bucket =>" else none
  else if s.kind = "inline" then none
  else some ("unknown source kind '" ++ s.kind ++ "'")

theorem missing_eq_none {s : SourceSpec} : s.missing = none ↔ s.Complete := by
  have hmissing (c : Prop) [Decidable c] (e : String) :
      (if c then some e else none) = none ↔ ¬ c := by
    rw [ite_eq_right_iff]
    simp only [reduceCtorEq, imp_false]
  unfold missing Complete
  by_cases hlocal : s.kind = "dir" ∨ s.kind = "glob"
  · rw [if_pos hlocal, hmissing]
    rcases hlocal with h | h <;> simp [h]
  by_cases hurl : s.kind = "debuginfod" ∨ s.kind = "http"
  · rw [if_neg hlocal, if_pos hurl, hmissing]
    rcases hurl with h | h <;> simp [h]
  by_cases hbucket : s.kind = "s3"
  · rw [if_neg hlocal, if_neg hurl, if_pos hbucket, hmissing]
    simp [hbucket]
  · rw [if_neg hlocal, if_neg hurl, if_neg hbucket]
    by_cases hinline : s.kind = "inline"
    · rw [if_pos hinline]
      simp [hinline]
    · rw [if_neg hinline]
      simp only [reduceCtorEq, hlocal, hurl, hbucket, hinline, false_and, or_self]

end SourceSpec

namespace SourceRegistry

open SourceSpec

section Add

variable {reg : SourceRegistry} {kind : String} {path url bucket : Option String}
  {enabled : Option Bool} {secret : Option String}

/-- `add` says what is missing of a source that is not complete, and changes nothing. -/
theorem add_of_missing {e : String}
    (h : (described (numberedId reg.nextId.toNat) kind path url bucket enabled secret).missing
      = some e) : reg.add kind path url bucket enabled secret = (.error e, reg) := by
  dsimp only [missing, described] at h
  dsimp only [add]
  simp only [h]

/-- `add` registers a complete source behind the others, under the next id. -/
theorem add_of_complete
    (h : (described (numberedId reg.nextId.toNat) kind path url bucket enabled secret).missing
      = none) :
    (reg.add kind path url bucket enabled secret).2 =
      { reg with
        sources := reg.sources ++
          [described (numberedId reg.nextId.toNat) kind path url bucket enabled secret]
        nextId := reg.nextId + 1 } := by
  dsimp only [missing, described] at h
  dsimp only [add]
  simp only [h, described, numberedId]

end Add

/-- The source that a call of `add` registers, if any. -/
def newSource (reg : SourceRegistry) (kind : String) (path url bucket : Option String)
    (enabled : Option Bool) (secret : Option String) : Option SourceSpec :=
  some (described (numberedId reg.nextId.toNat) kind path url bucket enabled secret) |>.filter
    fun s => s.missing.isNone

theorem sources_add (reg : SourceRegistry) (kind : String) (path url bucket : Option String)
    (enabled : Option Bool) (secret : Option String) :
    (reg.add kind path url bucket enabled secret).2.sources
      = reg.sources ++ (reg.newSource kind path url bucket enabled secret).toList := by
  rw [newSource, Option.filter_some]
  cases h : (described (numberedId reg.nextId.toNat) kind path url bucket enabled
    secret).missing with
  | some e =>
      rw [add_of_missing h]
      exact (List.append_nil _).symm
  | none =>
      rw [add_of_complete h]
      rfl

theorem newSource_eq_some {reg : SourceRegistry} {kind : String} {path url bucket : Option String}
    {enabled : Option Bool} {secret : Option String} {s : SourceSpec} :
    reg.newSource kind path url bucket enabled secret = some s ↔
      s = described (numberedId reg.nextId.toNat) kind path url bucket enabled secret ∧
        s.Complete := by
  rw [newSource, Option.filter_eq_some_iff, Option.some_inj, Option.isNone_iff_eq_none,
    missing_eq_none]
  exact and_congr_left fun _ => eq_comm

end SourceRegistry

end VgiSymbols
