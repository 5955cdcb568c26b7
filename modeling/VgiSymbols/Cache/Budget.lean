import VgiSymbols.Cache.Accounting
import Mathlib.Logic.Function.Basic

set_option autoImplicit false

/-! # Budgets and recency

The byte counter may be wrong, but never low (`Covers`), so the byte budget binds. The modules
are kept in order of their last use (`Ordered`), and what an insert drops is a final segment of
that order. `insert_within_budget` puts the two together.

Recency is a ghost: `Traced` runs the cache with a clock and remembers when each debug-id was
last inserted or looked up.
-/

namespace VgiSymbols

namespace SymbolCache

/-! ## The counter is never low -/

/-- The counter is at least the true total, and at most the bytes inserted so far. -/
def Covers (n : Nat) (c : SymbolCache) : Prop :=
  c.totalBytes ≤ c.residentBytes.toNat ∧ c.residentBytes.toNat ≤ n

/-- The bytes an operation inserts. -/
def CacheOp.bytes : CacheOp → Nat
  | .insert m _ => m.residentBytes.toNat
  | _ => 0

theorem covers_insert {c : SymbolCache} {n : Nat} (h : c.Covers n) (now : UInt64)
    (m : ParsedModule) (origin : Origin) (hn : n + m.residentBytes.toNat < 2 ^ 64) :
    (c.insert now m origin).2.Covers (n + m.residentBytes.toNat) := by
  refine counts_evictLoop (P := fun k t => t ≤ k ∧ k ≤ n + m.residentBytes.toNat)
    (fun k t b hb hkt => by omega) _ _ ?_
  -- The counter does not wrap: it holds at most the bytes inserted so far.
  have hcount := counts_store c now m origin
  have htotal := totalBytes_store_le c now m origin
  have hle := replacedBytes_le c m
  obtain ⟨hlow, hhigh⟩ := h
  omega

theorem covers_step {rd : Readers} {c : SymbolCache} {n : Nat} (h : c.Covers n)
    (i : UInt64 × CacheOp) (hn : n + i.2.bytes < 2 ^ 64) :
    (step rd c i).Covers (n + i.2.bytes) := by
  obtain ⟨now, op⟩ := i
  cases op with
  | insert m origin => exact covers_insert h now m origin hn
  | resolve | functionName | recordMiss | rehydrate | evict | toManifest =>
      exact counts_step (P := fun k t => t ≤ k ∧ k ≤ n) (fun k t b hb hkt => by omega)
        ⟨Nat.le_refl 0, Nat.zero_le n⟩ rd now (fun m origin heq => by cases heq) h

/-! ## The order of use -/

/-- The debug-id an operation uses: the inserted one, or the one a lookup leads to. -/
def used (c : SymbolCache) : CacheOp → Option String
  | .insert m _ => some m.debugId
  | .resolve token _ _ | .functionName token _ =>
      if c.isResident token then c.resolveDebugId token else none
  | _ => none

/-- A cache with a clock that counts the operations, and the time of the last use of each
debug-id. -/
structure Traced where
  cache : SymbolCache
  clock : Nat
  lastUse : String → Nat

namespace Traced

def new (maxBytes : UInt64) (maxModules : Nat) : Traced :=
  { cache := SymbolCache.new maxBytes maxModules, clock := 0, lastUse := fun _ => 0 }

def step (rd : Readers) (t : Traced) (i : UInt64 × CacheOp) : Traced :=
  { cache := SymbolCache.step rd t.cache i
    clock := t.clock + 1
    lastUse := match t.cache.used i.2 with
      | some d => Function.update t.lastUse d (t.clock + 1)
      | none => t.lastUse }

/-- The modules are in the order of their last use, the most recent first. -/
structure Ordered (t : Traced) : Prop where
  sorted : t.cache.resident.keys.Pairwise fun a b => t.lastUse b < t.lastUse a
  past : ∀ d ∈ t.cache.resident.keys, t.lastUse d ≤ t.clock

theorem ordered_new (maxBytes : UInt64) (maxModules : Nat) :
    (new maxBytes maxModules).Ordered :=
  ⟨List.Pairwise.nil, fun d hd => (by cases hd)⟩

/-- Using `d` now puts it in front of the others. -/
theorem sorted_used {keys : List String} (hnodup : keys.Nodup) {lastUse : String → Nat}
    {clock : Nat} (hsorted : keys.Pairwise fun a b => lastUse b < lastUse a)
    (hpast : ∀ k ∈ keys, lastUse k ≤ clock) (d : String) :
    ((d :: keys.erase d).Pairwise fun a b =>
      Function.update lastUse d (clock + 1) b < Function.update lastUse d (clock + 1) a) ∧
      ∀ k ∈ d :: keys.erase d, Function.update lastUse d (clock + 1) k ≤ clock + 1 := by
  have hother : ∀ k ∈ keys.erase d, Function.update lastUse d (clock + 1) k = lastUse k ∧
      lastUse k ≤ clock := by
    intro k hk
    have hne : k ≠ d := fun heq => (List.Nodup.not_mem_erase hnodup) (heq ▸ hk)
    exact ⟨Function.update_of_ne hne _ _, hpast k (List.mem_of_mem_erase hk)⟩
  -- `d` is used at the new time, and every other key has an older one.
  refine ⟨List.pairwise_cons.mpr ⟨fun k hk => ?_, ?_⟩, fun k hk => ?_⟩
  · obtain ⟨heq, hle⟩ := hother k hk
    rw [heq, Function.update_self]
    omega
  · refine (hsorted.sublist List.erase_sublist).imp_of_mem fun {a b} ha hb hab => ?_
    rw [(hother a ha).1, (hother b hb).1]
    exact hab
  · rcases List.mem_cons.mp hk with rfl | hk
    · rw [Function.update_self]
    · obtain ⟨heq, hle⟩ := hother k hk
      omega

theorem lastUse_step {rd : Readers} {t : Traced} {i : UInt64 × CacheOp} {d : String}
    (h : t.cache.used i.2 = some d) :
    (t.step rd i).lastUse = Function.update t.lastUse d (t.clock + 1) := by
  show (match t.cache.used i.2 with
    | some d => Function.update t.lastUse d (t.clock + 1)
    | none => t.lastUse) = _
  rw [h]

/-- A step that uses nothing and at most removes modules keeps the order. -/
theorem ordered_of_sublist {rd : Readers} {t : Traced} (h : t.Ordered) {i : UInt64 × CacheOp}
    (hused : t.cache.used i.2 = none)
    (hkeys : List.Sublist (t.step rd i).cache.resident.keys t.cache.resident.keys) :
    (t.step rd i).Ordered := by
  have hlast : (t.step rd i).lastUse = t.lastUse := by
    show (match t.cache.used i.2 with
      | some d => Function.update t.lastUse d (t.clock + 1)
      | none => t.lastUse) = t.lastUse
    rw [hused]
  constructor
  · rw [hlast]
    exact h.sorted.sublist hkeys
  · intro d hd
    rw [hlast]
    exact Nat.le_succ_of_le (h.past d (hkeys.subset hd))

/-- A step that uses `d` and keeps at most `d` and the old modules keeps the order. -/
theorem ordered_of_used {rd : Readers} {t : Traced} (h : t.Ordered) {i : UInt64 × CacheOp}
    {d : String} (hused : t.cache.used i.2 = some d)
    (hkeys : List.Sublist (t.step rd i).cache.resident.keys
      (d :: t.cache.resident.keys.erase d)) :
    (t.step rd i).Ordered := by
  have hlast : (t.step rd i).lastUse = Function.update t.lastUse d (t.clock + 1) :=
    lastUse_step hused
  obtain ⟨hsorted, hpast⟩ := sorted_used t.cache.resident.keys_nodup h.sorted h.past d
  constructor
  · rw [hlast]
    exact hsorted.sublist hkeys
  · intro k hk
    rw [hlast]
    exact hpast k (hkeys.subset hk)

/-- What is resident after an insert, followed by what the insert dropped, is the order of use
with the new module in front. -/
theorem exists_dropped (c : SymbolCache) (now : UInt64) (m : ParsedModule) (origin : Origin) :
    ∃ dropped, m.debugId :: c.resident.keys.erase m.debugId
      = (c.insert now m origin).2.resident.keys ++ dropped := by
  obtain ⟨dropped, hd⟩ := keys_evictLoop (c.store now m origin).resident.len
    (c.store now m origin)
  rw [resident_store, LruCache.keys_put] at hd
  by_cases hroom : m.debugId ∈ c.resident.items ∨ c.resident.len < c.resident.cap
  · rw [LruCache.roomFor, if_pos hroom] at hd
    exact ⟨dropped, hd⟩
  · -- the count cap dropped the last module before the loop ran
    rw [LruCache.roomFor, if_neg hroom, Table.keys_dropLast] at hd
    rw [not_or] at hroom
    -- so there is one, and it stands at the end of what the loop leaves
    have hk : m.debugId ∉ c.resident.keys := fun h => hroom.1 (AList.mem_keys.mpr h)
    have hk' : m.debugId ∉ c.resident.items.keys.dropLast :=
      fun h => hk ((List.dropLast_sublist _).subset h)
    have hne : c.resident.keys ≠ [] := by
      intro hnil
      apply hroom.2
      rw [LruCache.len, hnil]
      exact c.resident.cap_pos
    rw [List.erase_of_not_mem hk'] at hd
    refine ⟨dropped ++ [c.resident.keys.getLast hne], ?_⟩
    rw [List.erase_of_not_mem hk, ← List.append_assoc]
    have hsplit := List.dropLast_append_getLast hne
    calc m.debugId :: c.resident.keys
        = (m.debugId :: c.resident.keys.dropLast) ++ [c.resident.keys.getLast hne] := by
          rw [List.cons_append, hsplit]
      _ = _ := congrArg (· ++ [c.resident.keys.getLast hne]) hd

theorem sublist_insert (c : SymbolCache) (now : UInt64) (m : ParsedModule) (origin : Origin) :
    List.Sublist (c.insert now m origin).2.resident.keys
      (m.debugId :: c.resident.keys.erase m.debugId) := by
  obtain ⟨dropped, hd⟩ := exists_dropped c now m origin
  rw [hd]
  exact List.sublist_append_left _ _

theorem ordered_touch {rd : Readers} {t : Traced} (h : t.Ordered) {i : UInt64 × CacheOp}
    {token : String} (hcache : SymbolCache.step rd t.cache i = t.cache.touch i.1 token)
    (hused : t.cache.used i.2
      = if t.cache.isResident token then t.cache.resolveDebugId token else none) :
    (t.step rd i).Ordered := by
  have hstep : (t.step rd i).cache = t.cache.touch i.1 token := hcache
  cases hr : t.cache.reached token with
  | none =>
      -- The lookup reaches no module, so nothing is promoted.
      apply ordered_of_sublist h
      · rw [hused, isResident_eq, hr]
        rfl
      · rw [hstep, touch_of_reached_eq_none i.1 hr]
  | some r =>
      obtain ⟨d, ha, hd⟩ := reached_eq_some.mp hr
      have hid : t.cache.resolveDebugId token = some d := ha
      apply ordered_of_used (d := d) h
      · rw [hused, isResident_eq, hr, hid]
        rfl
      · rw [hstep, touch, hid]
        show List.Sublist (t.cache.resident.promote d (Resident.bump i.1)).keys _
        rw [LruCache.keys_promote _ hd]

theorem ordered_step {rd : Readers} {t : Traced} (h : t.Ordered) (i : UInt64 × CacheOp) :
    (t.step rd i).Ordered := by
  obtain ⟨now, op⟩ := i
  cases op with
  | insert m origin => exact ordered_of_used h rfl (sublist_insert t.cache now m origin)
  | resolve token addr limits => exact ordered_touch h (step_resolve rd _ now _ _ _) rfl
  | functionName token addr => exact ordered_touch h (step_functionName rd _ now _ _) rfl
  | recordMiss token => exact ordered_of_sublist h rfl (List.Sublist.refl _)
  | rehydrate manifest =>
      apply ordered_of_sublist h rfl
      show List.Sublist (t.cache.rehydrate manifest).resident.keys _
      rw [(resident_rehydrate t.cache manifest).1]
  | evict token => exact ordered_of_sublist h rfl (evicted_evict t.cache token).keys
  | toManifest sources =>
      exact ordered_of_sublist h rfl (evicted_toManifest t.cache sources).keys

/-! ## Runs -/

/-- The bytes a run inserts. -/
def inserted (ops : List (UInt64 × CacheOp)) : Nat := (ops.map fun i => i.2.bytes).sum

/-- The invariant of a run, `n` bytes into it. -/
structure Kept (maxBytes : UInt64) (maxModules : Nat) (n : Nat) (t : Traced) : Prop where
  covers : t.cache.Covers n
  ordered : t.Ordered
  maxBytes_eq : t.cache.maxBytes = maxBytes
  cap_eq : t.cache.resident.cap = max maxModules 1

theorem budgets_step (rd : Readers) (c : SymbolCache) (i : UInt64 × CacheOp) :
    (SymbolCache.step rd c i).maxBytes = c.maxBytes ∧
      (SymbolCache.step rd c i).resident.cap = c.resident.cap := by
  obtain ⟨now, op⟩ := i
  cases op with
  | insert m origin => exact ⟨maxBytes_insert c now m origin, cap_insert c now m origin⟩
  | resolve token addr limits =>
      rw [step_resolve]
      exact ⟨maxBytes_touch now token c, cap_touch now token c⟩
  | functionName token addr =>
      rw [step_functionName]
      exact ⟨maxBytes_touch now token c, cap_touch now token c⟩
  | recordMiss token => exact ⟨rfl, rfl⟩
  | rehydrate manifest =>
      exact rehydrate_induction (P := fun c' => c'.maxBytes = c.maxBytes ∧
        c'.resident.cap = c.resident.cap) (Q := fun _ => True) (fun _ _ h _ => h) ⟨rfl, rfl⟩
        fun _ _ => trivial
  | evict token => exact ⟨(evicted_evict c token).maxBytes, (evicted_evict c token).cap⟩
  | toManifest sources =>
      exact ⟨(evicted_toManifest c sources).maxBytes, (evicted_toManifest c sources).cap⟩

theorem kept_run {rd : Readers} {maxBytes : UInt64} {maxModules n : Nat} {t : Traced}
    (h : Kept maxBytes maxModules n t) (ops : List (UInt64 × CacheOp))
    (hbytes : n + inserted ops < 2 ^ 64) :
    Kept maxBytes maxModules (n + inserted ops) (Run.run (step rd) t ops) := by
  induction ops generalizing n t with
  | nil => exact h
  | cons i ops ih =>
      have hsum : n + inserted (i :: ops) = n + i.2.bytes + inserted ops := by
        simp only [inserted, List.map_cons, List.sum_cons]
        omega
      rw [hsum] at hbytes ⊢
      obtain ⟨hmax, hcap⟩ := budgets_step rd t.cache i
      exact ih {
        covers := covers_step h.covers i (by omega)
        ordered := ordered_step h.ordered i
        maxBytes_eq := hmax.trans h.maxBytes_eq
        cap_eq := hcap.trans h.cap_eq } hbytes

theorem kept_new (maxBytes : UInt64) (maxModules : Nat) :
    Kept maxBytes maxModules 0 (new maxBytes maxModules) where
  covers := ⟨Nat.le_refl 0, Nat.le_refl 0⟩
  ordered := ordered_new maxBytes maxModules
  maxBytes_eq := rfl
  cap_eq := rfl

/-- The byte budget binds after an insert, unless the inserted module is alone. -/
theorem totalBytes_insert_le {c : SymbolCache} (now : UInt64) (m : ParsedModule)
    (origin : Origin) {n : Nat} (h : (c.insert now m origin).2.Covers n) :
    (c.insert now m origin).2.totalBytes ≤ c.maxBytes.toNat ∨
      (c.insert now m origin).2.resident.len = 1 := by
  by_cases hone : (c.insert now m origin).2.resident.len = 1
  · exact Or.inr hone
  · have hpos : 0 < (c.insert now m origin).2.resident.len :=
      List.length_pos_of_mem (LruCache.mem_keys_iff.mpr ⟨_, peek_insert_self c now m origin⟩)
    have hle : ¬ (c.insert now m origin).2.maxBytes < (c.insert now m origin).2.residentBytes :=
      fun hlt => evictToBudget_done (c.store now m origin)
        ⟨hlt, (by change 1 < (c.insert now m origin).2.resident.len; omega)⟩
    rw [maxBytes_insert] at hle
    exact Or.inl (h.1.trans (UInt64.le_iff_toNat_le.mp (UInt64.not_lt.mp hle)))

/-- What an insert drops was used before what it keeps. -/
theorem lastUse_lt_of_dropped {rd : Readers} {t : Traced} (h : t.Ordered) (now : UInt64)
    (m : ParsedModule) (origin : Origin) {gone stayed : String}
    (hgone : gone ∈ t.cache.resident.keys)
    (hleft : gone ∉ (t.cache.insert now m origin).2.resident.keys)
    (hstayed : stayed ∈ (t.cache.insert now m origin).2.resident.keys) :
    (t.step rd (now, .insert m origin)).lastUse gone
      < (t.step rd (now, .insert m origin)).lastUse stayed := by
  have hlast : (t.step rd (now, .insert m origin)).lastUse
      = Function.update t.lastUse m.debugId (t.clock + 1) := lastUse_step rfl
  obtain ⟨dropped, hd⟩ := exists_dropped t.cache now m origin
  have hsorted := (sorted_used t.cache.resident.keys_nodup h.sorted h.past m.debugId).1
  rw [hd] at hsorted
  -- What left is in the dropped end of a list that is sorted by the last use.
  have hne : gone ≠ m.debugId := by
    rintro rfl
    exact hleft (LruCache.mem_keys_iff.mpr ⟨_, peek_insert_self t.cache now m origin⟩)
  have hmem : gone ∈ (t.cache.insert now m origin).2.resident.keys ++ dropped := by
    rw [← hd]
    exact List.mem_cons_of_mem _ ((List.mem_erase_of_ne hne).mpr hgone)
  rw [hlast]
  exact (List.pairwise_append.mp hsorted).2.2 stayed hstayed gone
    ((List.mem_append.mp hmem).resolve_left hleft)

/-- **Right after every insert** the module count is within its cap, the resident bytes are
within their budget or a single module is resident, the inserted module is resident, and every
module that left was used less recently than every module that stayed. -/
theorem insert_within_budget (rd : Readers) (maxBytes : UInt64) (maxModules : Nat)
    (ops : List (UInt64 × CacheOp)) (now : UInt64) (m : ParsedModule) (origin : Origin)
    (hbytes : inserted ops + m.residentBytes.toNat < 2 ^ 64) :
    let t := Run.run (step rd) (new maxBytes maxModules) ops
    let t' := t.step rd (now, .insert m origin)
    t'.cache.resident.len ≤ max 1 maxModules ∧
      (t'.cache.totalBytes ≤ maxBytes.toNat ∨ t'.cache.resident.len = 1) ∧
      (∃ r, t'.cache.resident.peek m.debugId = some r ∧ r.module = m) ∧
      ∀ gone ∈ t.cache.resident.keys, gone ∉ t'.cache.resident.keys →
        ∀ stayed ∈ t'.cache.resident.keys, t'.lastUse gone < t'.lastUse stayed := by
  intro t t'
  -- Of the run before the insert only the invariant is needed.
  have hkept : Kept maxBytes maxModules (0 + inserted ops) t :=
    kept_run (kept_new maxBytes maxModules) ops (by omega)
  clear_value t
  have hcovers := covers_insert hkept.covers now m origin (by omega)
  refine ⟨?_, ?_, ⟨_, peek_insert_self t.cache now m origin, rfl⟩,
    fun gone hgone hleft stayed hstayed =>
      lastUse_lt_of_dropped hkept.ordered now m origin hgone hleft hstayed⟩
  · have hlen := LruCache.len_le_cap (t.cache.insert now m origin).2.resident
    rw [cap_insert, hkept.cap_eq, max_comm] at hlen
    exact hlen
  · rw [← hkept.maxBytes_eq]
    exact totalBytes_insert_le now m origin hcovers

theorem insert_within_budget_stand_in :
    let t := Run.run (step StandIn.readers) (new 15 4)
      [(0, .insert (StandIn.module [1] 10) .inline), (1, .evict none),
        (2, .insert (StandIn.module [2] 10) .inline)]
    let t' := t.step StandIn.readers (3, .insert (StandIn.module [3] 10) .inline)
    t'.cache.resident.len ≤ max 1 4 ∧
      (t'.cache.totalBytes ≤ (15 : UInt64).toNat ∨ t'.cache.resident.len = 1) ∧
      (∃ r, t'.cache.resident.peek (StandIn.module [3] 10).debugId = some r ∧
        r.module = StandIn.module [3] 10) ∧
      ∀ gone ∈ t.cache.resident.keys, gone ∉ t'.cache.resident.keys →
        ∀ stayed ∈ t'.cache.resident.keys, t'.lastUse gone < t'.lastUse stayed :=
  insert_within_budget StandIn.readers 15 4 _ 3 (StandIn.module [3] 10) .inline
    (by decide +kernel)

end Traced

end SymbolCache

end VgiSymbols
