import VgiSymbols.Basic.Recency
import VgiSymbols.Cache.Accounting

set_option autoImplicit false

/-! # The resident modules as a recency stack

While the byte counter is right and no module is dropped for want of a slot, the resident ids are
a recency stack: an answered lookup uses an id that is there, an insert uses a new one.
-/

namespace VgiSymbols

namespace SymbolCache

variable {w : String → Nat} {c : SymbolCache}

/-- The bytes of every resident module are the weight of its id. -/
def Weighs (w : String → Nat) (c : SymbolCache) : Prop :=
  ∀ d r, c.resident.peek d = some r → r.bytes.toNat = w d

theorem Weighs.totalBytes (h : c.Weighs w) :
    c.totalBytes = Recency.weight w c.resident.keys := by
  show (c.resident.items.entries.map fun e => e.2.bytes.toNat).sum
    = ((c.resident.items.entries.map Sigma.fst).map w).sum
  rw [List.map_map]
  refine congrArg List.sum (List.map_congr_left fun e he => ?_)
  exact h e.1 e.2 (AList.mem_lookup_iff.mpr he)

/-- **Evicting to the budget leaves what fits.** -/
theorem keys_evictLoop_eq (hweighs : c.Weighs w) (hacc : c.Accounted) {fuel : Nat}
    (hfuel : c.resident.len ≤ fuel) :
    (evictLoop fuel c).resident.keys = Recency.fit w c.maxBytes.toNat c.resident.keys := by
  have htotal : c.residentBytes.toNat = Recency.weight w c.resident.keys :=
    hacc.trans hweighs.totalBytes
  have hlen : c.resident.keys.length = c.resident.len := rfl
  induction fuel generalizing c with
  | zero =>
      have hnil : c.resident.keys = [] := List.length_eq_zero_iff.mp (Nat.le_zero.mp hfuel)
      rw [evictLoop, hnil, Recency.fit]
  | succ fuel ih =>
      rw [evictLoop]
      by_cases hguard : c.maxBytes < c.residentBytes ∧ 1 < c.resident.len
      · rw [if_pos hguard]
        obtain ⟨hover, hmany⟩ := hguard
        cases hpop : c.resident.popLru with
        | none =>
            rw [LruCache.popLru_eq_none.mp hpop] at hlen
            simp only [List.length_nil] at hlen
            omega
        | some e =>
            obtain ⟨⟨id, r⟩, resident⟩ := e
            have hkeys := LruCache.keys_popLru hpop
            have hleft := LruCache.len_popLru hpop
            let c' : SymbolCache :=
              ({ c with
                resident := resident
                residentBytes := saturatingSub c.residentBytes r.bytes }).foldBack id r
            have hweighs' : c'.Weighs w := fun d r' hr' =>
              hweighs d r' (LruCache.peek_of_popLru hpop hr')
            have hbytes := LruCache.weight_popLru (fun r : Resident => r.bytes.toNat) hpop
            have hacc' : c'.Accounted := by
              show (saturatingSub c.residentBytes r.bytes).toNat
                = resident.weight fun r => r.bytes.toNat
              rw [toNat_saturatingSub, hacc, SymbolCache.totalBytes]
              omega
            have hne : resident.keys ≠ [] := by
              intro hnil
              have : resident.len = 0 := by rw [LruCache.len, hnil]; rfl
              omega
            have hlt : c.maxBytes.toNat < Recency.weight w (resident.keys ++ [id]) := by
              rw [← hkeys, ← htotal]
              exact UInt64.lt_iff_toNat_lt.mp hover
            have hrest := ih hweighs' hacc' (show resident.len ≤ fuel by omega)
              (hacc'.trans hweighs'.totalBytes) rfl
            show (evictLoop fuel c').resident.keys = _
            rw [hrest, hkeys, Recency.fit_concat_of_lt w hne hlt]
            rfl
      · rw [if_neg hguard]
        by_cases hwithin : c.residentBytes ≤ c.maxBytes
        · have hle : Recency.weight w c.resident.keys ≤ c.maxBytes.toNat := by
            rw [← htotal]
            exact UInt64.le_iff_toNat_le.mp hwithin
          rw [Recency.fit_of_weight_le w hle]
        · -- one module at most is resident
          have hfew : ¬ 1 < c.resident.len := fun h => hguard ⟨UInt64.not_le.mp hwithin, h⟩
          have hshort : c.resident.keys.length ≤ 1 := by omega
          cases hkeys : c.resident.keys with
          | nil => rw [Recency.fit]
          | cons d l =>
              rw [hkeys, List.length_cons] at hshort
              have hnil : l = [] := List.length_eq_zero_iff.mp (by omega)
              rw [hnil, Recency.fit_singleton]

/-- An insert of a new module into a free slot. -/
theorem keys_insert {m : ParsedModule} (hweighs : c.Weighs w)
    (hm : m.residentBytes.toNat = w m.debugId) (hacc : c.Accounted)
    (hnew : m.debugId ∉ c.resident.keys) (hroom : c.resident.len < c.resident.cap)
    (hcounter : Recency.weight w (m.debugId :: c.resident.keys) < 2 ^ 64) (now : UInt64)
    (origin : Origin) :
    (c.insert now m origin).2.resident.keys
        = Recency.step w c.maxBytes.toNat c.resident.keys (.use m.debugId) ∧
      (c.insert now m origin).2.Accounted ∧ (c.insert now m origin).2.Weighs w := by
  have hfits : c.Fits m := by
    refine ⟨Or.inr (Or.inl hroom), ?_⟩
    have hbytes : c.residentBytes.toNat = Recency.weight w c.resident.keys :=
      hacc.trans hweighs.totalBytes
    rw [Recency.weight_cons] at hcounter
    omega
  have hstore : (c.store now m origin).resident.keys = m.debugId :: c.resident.keys := by
    rw [resident_store, LruCache.keys_put, LruCache.roomFor, if_pos (Or.inr hroom)]
    exact congrArg (m.debugId :: ·) (List.erase_of_not_mem hnew)
  have hstored : (c.store now m origin).Weighs w := by
    intro d r hr
    by_cases hd : d = m.debugId
    · rw [hd, resident_store, LruCache.peek_put_self] at hr
      cases hr
      rw [hd]
      exact hm
    · exact hweighs d r (LruCache.peek_of_put_ne hd hr)
  have hevicted := evicted_insert c now m origin
  refine ⟨?_, (accounted_insert_iff hacc now m origin).mpr hfits, fun d r hr =>
    hstored d r (hevicted.peek d r hr)⟩
  show (evictLoop _ (c.store now m origin)).resident.keys = _
  rw [keys_evictLoop_eq hstored (accounted_store_of_fits hacc hfits now origin) (Nat.le_refl _),
    hstore, Recency.step, if_neg hnew]
  rfl

/-- An answered lookup uses the id of its module. -/
theorem keys_touch {token : String} {r : Resident} {d : String}
    (hd : c.aliases.lookup (canonicalToken token) = some d) (hr : c.resident.peek d = some r)
    (now : UInt64) (b : Nat) :
    (c.touch now token).resident.keys = Recency.step w b c.resident.keys (.use d) := by
  have hmem : d ∈ c.resident.keys := LruCache.mem_keys_iff.mpr ⟨r, hr⟩
  rw [Recency.step, if_pos hmem, touch, resolveDebugId, hd]
  exact LruCache.keys_promote _ hr

theorem Weighs.touch (h : c.Weighs w) (now : UInt64) (token : String) :
    (c.touch now token).Weighs w := by
  intro d r hr
  obtain ⟨r₀, hr₀, -, hbytes⟩ := exists_of_peek_touch hr
  rw [← hbytes]
  exact h d r₀ hr₀

end SymbolCache

end VgiSymbols
