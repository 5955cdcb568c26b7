import VgiSymbols.Cache.Runs

set_option autoImplicit false

/-! # The byte counter

The cache keeps a counter next to the modules it counts. Modules leave in four ways: replaced
under their own id, popped by the byte budget, evicted on request, and dropped without notice
when the module count is at its cap. The first three are matched by a subtraction; the last is
not, and `accounted_run_iff` says exactly which runs keep the counter right.

The proofs follow the pair of the counter and the true total through the operations: eviction
subtracts the bytes of one module from both (`counts_evictLoop`), an insert adds the bytes of
one module to both and takes the replaced ones off (`counts_store`).
-/

namespace VgiSymbols

namespace SymbolCache

/-- The bytes of the modules that are resident. -/
def totalBytes (c : SymbolCache) : Nat := c.resident.weight fun r => r.bytes.toNat

/-- The counter is right. -/
def Accounted (c : SymbolCache) : Prop := c.residentBytes.toNat = c.totalBytes

/-! ## What each operation does to the counter and to the total -/

theorem accounted_new (maxBytes : UInt64) (maxModules : Nat) :
    (new maxBytes maxModules).Accounted := rfl

@[simp] theorem totalBytes_touch (now : UInt64) (token : String) (c : SymbolCache) :
    (c.touch now token).totalBytes = c.totalBytes := by
  unfold touch
  split
  · next d _ =>
      show LruCache.weight _ (c.resident.promote d (Resident.bump now)) = _
      cases h : c.resident.peek d with
      | none => rw [LruCache.promote_of_peek_eq_none h]; rfl
      | some r => exact LruCache.weight_promote _ _ h rfl
  · rfl

/-- The pair of counter and total along the eviction loop: a pop takes the bytes of one module
off both. -/
theorem counts_evictLoop {P : Nat → Nat → Prop}
    (hpop : ∀ n t b, b ≤ t → P n t → P (n - b) (t - b)) (fuel : Nat) (c : SymbolCache)
    (h : P c.residentBytes.toNat c.totalBytes) :
    P (evictLoop fuel c).residentBytes.toNat (evictLoop fuel c).totalBytes := by
  induction fuel generalizing c with
  | zero => exact h
  | succ fuel ih =>
      rw [evictLoop]
      split
      · split
        · next id r resident hr =>
            apply ih _
            have hw := LruCache.weight_popLru (fun r : Resident => r.bytes.toNat) hr
            show P (saturatingSub c.residentBytes r.bytes).toNat
              (resident.weight fun r => r.bytes.toNat)
            rw [toNat_saturatingSub,
              show resident.weight (fun r => r.bytes.toNat) = c.totalBytes - r.bytes.toNat by
                unfold totalBytes; omega]
            refine hpop _ _ _ ?_ h
            unfold totalBytes
            omega
        · exact h
      · exact h

/-- Evicting everything leaves no module. -/
theorem keys_evictAllLoop (fuel : Nat) (freed : Int64) (c : SymbolCache)
    (hfuel : c.resident.len ≤ fuel) : (evictAllLoop fuel freed c).2.resident.keys = [] := by
  induction fuel generalizing freed c with
  | zero => exact List.length_eq_zero_iff.mp (Nat.le_zero.mp hfuel)
  | succ fuel ih =>
      rw [evictAllLoop]
      split
      · next id r resident hr =>
          apply ih _ _
          have := LruCache.len_popLru hr
          show resident.len ≤ fuel
          omega
      · next hnone => exact LruCache.popLru_eq_none.mp hnone

theorem counts_evict {P : Nat → Nat → Prop}
    (hpop : ∀ n t b, b ≤ t → P n t → P (n - b) (t - b)) (hzero : P 0 0) (c : SymbolCache)
    (token : Option String) (h : P c.residentBytes.toNat c.totalBytes) :
    P (c.evict token).2.residentBytes.toNat (c.evict token).2.totalBytes := by
  cases token with
  | none =>
      -- The loop pops until the LRU is empty, and the counter is then set to 0 outright.
      have hnil := keys_evictAllLoop c.resident.len 0 c (Nat.le_refl _)
      have htotal : (c.evict none).2.totalBytes = 0 := LruCache.weight_of_keys_eq_nil _ hnil
      rw [htotal]
      exact hzero
  | some t =>
      rw [evict]
      split
      · exact h
      · split
        · next d _ r resident hpopd =>
            -- The bytes are in the total, so the saturating subtraction does not saturate.
            have hw := LruCache.weight_pop (fun r : Resident => r.bytes.toNat) hpopd
            show P (saturatingSub c.residentBytes r.bytes).toNat
              (resident.weight fun r => r.bytes.toNat)
            rw [toNat_saturatingSub,
              show resident.weight (fun r => r.bytes.toNat) = c.totalBytes - r.bytes.toNat by
                unfold totalBytes; omega]
            refine hpop _ _ _ ?_ h
            unfold totalBytes
            omega
        · exact h

/-- An operation other than an insert leaves the pair as it is, or evicts. -/
theorem counts_step {P : Nat → Nat → Prop}
    (hpop : ∀ n t b, b ≤ t → P n t → P (n - b) (t - b)) (hzero : P 0 0) (rd : Readers)
    {c : SymbolCache} (now : UInt64) {op : CacheOp} (hop : ∀ m origin, op ≠ .insert m origin)
    (h : P c.residentBytes.toNat c.totalBytes) :
    P (step rd c (now, op)).residentBytes.toNat (step rd c (now, op)).totalBytes := by
  cases op with
  | insert m origin => exact absurd rfl (hop m origin)
  | resolve token addr limits =>
      rw [step_resolve, residentBytes_touch, totalBytes_touch]
      exact h
  | functionName token addr =>
      rw [step_functionName, residentBytes_touch, totalBytes_touch]
      exact h
  | recordMiss token => exact h
  | rehydrate manifest =>
      obtain ⟨hres, hcounter⟩ := resident_rehydrate c manifest
      rw [step, totalBytes, hcounter, hres]
      exact h
  | evict token => exact counts_evict hpop hzero c token h
  | toManifest sources =>
      obtain ⟨hres, hcounter⟩ := resident_toManifest c sources
      rw [step, totalBytes, hcounter, hres]
      exact h

/-- The bytes of the module that an insert replaces, 0 if there is none. -/
def replacedBytes (c : SymbolCache) (m : ParsedModule) : Nat :=
  ((c.resident.peek m.debugId).map fun r => r.bytes.toNat).getD 0

theorem counts_store (c : SymbolCache) (now : UInt64) (m : ParsedModule) (origin : Origin) :
    (c.store now m origin).residentBytes.toNat =
      (c.residentBytes.toNat - c.replacedBytes m + m.residentBytes.toNat) % 2 ^ 64 := by
  unfold store replacedBytes
  simp only [LruCache.put_fst]
  cases c.resident.peek m.debugId with
  | none =>
      rw [UInt64.toNat_add]
      rfl
  | some old =>
      rw [UInt64.toNat_add, toNat_saturatingSub]
      rfl

theorem residentBytes_store_le (c : SymbolCache) (now : UInt64) (m : ParsedModule)
    (origin : Origin) :
    (c.store now m origin).residentBytes.toNat
      ≤ c.residentBytes.toNat + m.residentBytes.toNat := by
  have hcount := counts_store c now m origin
  have hwrap := Nat.mod_le
    (c.residentBytes.toNat - c.replacedBytes m + m.residentBytes.toNat) (2 ^ 64)
  omega

theorem replacedBytes_le (c : SymbolCache) (m : ParsedModule) :
    c.replacedBytes m ≤ c.totalBytes := by
  unfold replacedBytes
  cases h : c.resident.peek m.debugId with
  | none => exact Nat.zero_le _
  | some r => exact LruCache.le_weight_of_peek (fun r : Resident => r.bytes.toNat) h

theorem totalBytes_store_le (c : SymbolCache) (now : UInt64) (m : ParsedModule)
    (origin : Origin) :
    (c.store now m origin).totalBytes + c.replacedBytes m
      ≤ c.totalBytes + m.residentBytes.toNat :=
  LruCache.weight_put_le c.resident m.debugId (fresh now m) fun r => r.bytes.toNat

theorem totalBytes_store_of_slot {c : SymbolCache} {m : ParsedModule}
    (h : m.debugId ∈ c.resident.keys ∨ c.resident.len < c.resident.cap) (now : UInt64)
    (origin : Origin) :
    (c.store now m origin).totalBytes + c.replacedBytes m
      = c.totalBytes + m.residentBytes.toNat :=
  LruCache.weight_put_of_room (fresh now m) (fun r => r.bytes.toNat) h

/-- Without a slot, the least recently used module is dropped and not counted as replaced. -/
theorem totalBytes_store_of_full {c : SymbolCache} {m : ParsedModule}
    (hk : m.debugId ∉ c.resident.keys) (hfull : ¬ c.resident.len < c.resident.cap)
    {id : String} {r : Resident} {rest : LruCache String Resident}
    (hpop : c.resident.popLru = some ((id, r), rest)) (now : UInt64) (origin : Origin) :
    (c.store now m origin).totalBytes + r.bytes.toNat
      = c.totalBytes + m.residentBytes.toNat ∧ c.replacedBytes m = 0 := by
  refine ⟨LruCache.weight_put_of_full (fresh now m) (fun r => r.bytes.toNat) hk hfull hpop, ?_⟩
  rw [replacedBytes, LruCache.peek_eq_none_iff.mpr hk]
  rfl

/-- The bytes of the module just inserted are in the total. -/
theorem le_totalBytes_insert (c : SymbolCache) (now : UInt64) (m : ParsedModule)
    (origin : Origin) : m.residentBytes.toNat ≤ (c.insert now m origin).2.totalBytes :=
  LruCache.le_weight_of_peek (fun r : Resident => r.bytes.toNat) (peek_insert_self c now m origin)

/-! ## When an insert keeps the counter right -/

/-- The insert can be accounted for: the module replaces its own id, or there is a free slot, or
the module dropped for it has no bytes; and the counter does not overflow. -/
structure Fits (c : SymbolCache) (m : ParsedModule) : Prop where
  slot : m.debugId ∈ c.resident.keys ∨ c.resident.len < c.resident.cap ∨
    ∀ id r rest, c.resident.popLru = some ((id, r), rest) → r.bytes = 0
  counter : c.residentBytes.toNat - c.replacedBytes m + m.residentBytes.toNat < 2 ^ 64

theorem accounted_store_of_fits {c : SymbolCache} (h : c.Accounted) {m : ParsedModule}
    (hfits : c.Fits m) (now : UInt64) (origin : Origin) : (c.store now m origin).Accounted := by
  have hcount := counts_store c now m origin
  have hle := replacedBytes_le c m
  have hover := hfits.counter
  unfold Accounted at *
  by_cases hslot : m.debugId ∈ c.resident.keys ∨ c.resident.len < c.resident.cap
  · have := totalBytes_store_of_slot hslot now origin
    omega
  · -- `put` drops the least recently used module, which has no bytes to be missed.
    rw [not_or] at hslot
    obtain ⟨⟨id, r⟩, rest, hpop⟩ := LruCache.exists_popLru_of_full hslot.2
    obtain ⟨htotal, hzero⟩ := totalBytes_store_of_full hslot.1 hslot.2 hpop now origin
    have hr : r.bytes = 0 :=
      (hfits.slot.resolve_left hslot.1).resolve_left hslot.2 id r rest hpop
    rw [hr, UInt64.toNat_zero] at htotal
    omega

/-- An insert that does not fit leaves the counter above the total, or, after an overflow,
below it. -/
theorem counts_store_of_not_fits {c : SymbolCache} (h : c.Accounted) {m : ParsedModule}
    (hfits : ¬ c.Fits m) (now : UInt64) (origin : Origin) :
    (c.store now m origin).totalBytes < (c.store now m origin).residentBytes.toNat ∨
      (c.store now m origin).residentBytes.toNat < (c.store now m origin).totalBytes ∧
        0 < m.residentBytes.toNat := by
  have hcount := counts_store c now m origin
  have hle := replacedBytes_le c m
  have hc := c.residentBytes.toNat_lt
  have hm := m.residentBytes.toNat_lt
  unfold Accounted at h
  by_cases hslot : m.debugId ∈ c.resident.keys ∨ c.resident.len < c.resident.cap
  · -- There is a slot, so it is the counter that does not hold the sum.
    have htotal := totalBytes_store_of_slot hslot now origin
    have hover : ¬ c.residentBytes.toNat - c.replacedBytes m + m.residentBytes.toNat < 2 ^ 64 :=
      fun hlt => hfits ⟨hslot.imp_right Or.inl, hlt⟩
    omega
  · -- `put` drops a module that the counter keeps on counting.
    rw [not_or] at hslot
    obtain ⟨⟨id, r⟩, rest, hpop⟩ := LruCache.exists_popLru_of_full hslot.2
    obtain ⟨htotal, hzero⟩ := totalBytes_store_of_full hslot.1 hslot.2 hpop now origin
    have hr := r.bytes.toNat_lt
    by_cases hover : c.residentBytes.toNat - c.replacedBytes m + m.residentBytes.toNat < 2 ^ 64
    · have hpos : r.bytes.toNat ≠ 0 := by
        intro hb
        refine hfits ⟨Or.inr (Or.inr fun id' r' rest' hpop' => ?_), hover⟩
        rw [hpop] at hpop'
        cases hpop'
        exact UInt64.toNat_inj.mp hb
      omega
    · omega

/-- **An insert keeps the counter right exactly when it fits.** -/
theorem accounted_insert_iff {c : SymbolCache} (h : c.Accounted) (now : UInt64)
    (m : ParsedModule) (origin : Origin) :
    (c.insert now m origin).2.Accounted ↔ c.Fits m := by
  constructor
  · intro hins
    by_contra hfits
    have hbytes := le_totalBytes_insert c now m origin
    have heq : (c.insert now m origin).2.residentBytes.toNat
      = (c.insert now m origin).2.totalBytes := hins
    -- Eviction takes the same amount off both, so it cannot close the gap; only after an
    -- overflow could the counter stop at 0 with the total, but the new module is in the total.
    rcases counts_store_of_not_fits h hfits now origin with hlt | ⟨hlt, hpos⟩
    · have := counts_evictLoop (P := fun n t => t < n) (fun n t b hb hnt => by omega)
        (c.store now m origin).resident.len _ hlt
      exact absurd heq (Nat.ne_of_gt this)
    · have := counts_evictLoop (P := fun n t => n < t ∨ t = 0) (fun n t b hb hnt => by omega)
        (c.store now m origin).resident.len _ (Or.inl hlt)
      have hfinal : (c.insert now m origin).2.residentBytes.toNat
          < (c.insert now m origin).2.totalBytes ∨
            (c.insert now m origin).2.totalBytes = 0 := this
      omega
  · intro hfits
    exact counts_evictLoop (P := fun n t => n = t) (fun n t b hb hnt => by omega) _ _
      (accounted_store_of_fits h hfits now origin)

/-! ## Runs -/

/-- The step, if it is an insert, can be accounted for. -/
def KeepsAccount (c : SymbolCache) (i : UInt64 × CacheOp) : Prop :=
  ∀ m origin, i.2 = .insert m origin → c.Fits m

theorem accounted_step_iff {rd : Readers} {c : SymbolCache} (h : c.Accounted)
    (i : UInt64 × CacheOp) : (step rd c i).Accounted ↔ c.KeepsAccount i := by
  obtain ⟨now, op⟩ := i
  by_cases hop : ∃ m origin, op = .insert m origin
  · obtain ⟨m, origin, rfl⟩ := hop
    refine (accounted_insert_iff h now m origin).trans ⟨fun hfits m' origin' heq => ?_,
      fun hkeep => hkeep m origin rfl⟩
    cases heq
    exact hfits
  · -- Every other operation keeps the account and meets the condition as it stands.
    have hother : ∀ m origin, op ≠ .insert m origin := fun m origin heq => hop ⟨m, origin, heq⟩
    have hstep : (step rd c (now, op)).Accounted :=
      counts_step (P := fun n t => n = t) (fun n t b hb hnt => by omega) rfl rd now hother h
    exact ⟨fun _ m origin heq => absurd heq (hother m origin), fun _ => hstep⟩

/-- **Exactly which runs keep the byte counter right**: those whose every insert fits. -/
theorem accounted_run_iff (rd : Readers) (maxBytes : UInt64) (maxModules : Nat)
    (ops : List (UInt64 × CacheOp)) :
    Run.MeetsAlong (step rd) (fun c i => (step rd c i).Accounted) (new maxBytes maxModules) ops ↔
      Run.MeetsAlong (step rd) KeepsAccount (new maxBytes maxModules) ops :=
  Run.meetsAlong_congr (J := Accounted) (fun _ i h hi => (accounted_step_iff h i).mpr hi)
    (fun _ i h => accounted_step_iff h i) (accounted_new maxBytes maxModules) ops

/-- Two modules of 10 bytes in a cache with one slot: the counter says 20. -/
theorem not_accounted_run :
    ¬ ∀ (maxBytes : UInt64) (maxModules : Nat) (ops : List (UInt64 × CacheOp)),
      (runOps StandIn.readers (new maxBytes maxModules) ops).Accounted := by
  intro h
  have h₁ := h 4096 1 [(0, .insert (StandIn.module [1] 10) .inline),
    (1, .insert (StandIn.module [2] 10) .inline)]
  unfold Accounted at h₁
  revert h₁
  decide +kernel

end SymbolCache

end VgiSymbols
