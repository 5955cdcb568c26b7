import VgiSymbols.Basic.Nearest
import VgiSymbols.Module.Walk

set_option autoImplicit false

/-! # Raw and demangled names

A row carries a name twice: as the linkage name that is stored in the file and demangled. On the
path through the frames the linkage name is read and then demangled. The symbol table, which
answers where there are no frames, holds demangled names only (`symbolFor_eq_nearest`), and its
name is put into both fields. `consistentNames_iff` says when the two fields still agree.
-/

namespace VgiSymbols

open Unwind Nearest

variable {rd : Readers}

instance linearOrderUInt64 : LinearOrder UInt64 where
  le_refl := UInt64.le_refl
  le_trans _ _ _ := UInt64.le_trans
  le_antisymm _ _ := UInt64.le_antisymm
  le_total := UInt64.le_total
  lt_iff_le_not_ge _ _ := by
    rw [UInt64.lt_iff_toNat_lt, UInt64.le_iff_toNat_le, UInt64.le_iff_toNat_le]
    omega
  toDecidableLE := inferInstance

namespace DwarfModule

/-! ## The symbol table -/

theorem nearest_dedupAfter {k last : UInt64} (name : String) (l : List (UInt64 × String)) :
    nearest k ((last, name) :: dedupAfter Prod.fst last l) = nearest k ((last, name) :: l) := by
  induction l generalizing last name with
  | nil => rfl
  | cons e l ih =>
      rw [dedupAfter]
      by_cases heq : e.1 = last
      · -- a dropped neighbour has the address of the one before it, which comes first
        rw [if_pos heq, ih, nearest_cons_cons_of_eq heq]
      · rw [if_neg heq]
        exact nearest_cons_congr (ih e.2) _

theorem nearest_dedupByKey (k : UInt64) (l : List (UInt64 × String)) :
    nearest k (dedupByKey Prod.fst l) = nearest k l := by
  cases l with
  | nil => rfl
  | cons e l => exact nearest_dedupAfter e.2 l

theorem nearest_sortSymbols (k : UInt64) (l : List (UInt64 × String)) :
    nearest k (sortSymbols l) = nearest k l := by
  rw [sortSymbols, nearest_dedupByKey]
  exact nearest_insertionSort k l

/-- The addresses of a sorted table increase. -/
theorem pairwise_dedupAfter {last : UInt64} {l : List (UInt64 × String)}
    (h : l.Pairwise fun a b => a.1 ≤ b.1) (hlast : ∀ e ∈ l, last ≤ e.1) :
    (dedupAfter Prod.fst last l).Pairwise (fun a b => a.1 < b.1) ∧
      ∀ e ∈ dedupAfter Prod.fst last l, last < e.1 := by
  induction l generalizing last with
  | nil => exact ⟨List.Pairwise.nil, fun e he => by cases he⟩
  | cons e l ih =>
      obtain ⟨hle, hl⟩ := List.pairwise_cons.mp h
      obtain ⟨hlaste, hlastl⟩ := List.forall_mem_cons.mp hlast
      rw [dedupAfter]
      by_cases heq : e.1 = last
      · rw [if_pos heq]
        exact ih hl hlastl
      · rw [if_neg heq]
        have hlt : last < e.1 := lt_of_le_of_ne hlaste (Ne.symm heq)
        obtain ⟨hpair, habove⟩ := ih hl hle
        exact ⟨List.pairwise_cons.mpr ⟨habove, hpair⟩,
          List.forall_mem_cons.mpr ⟨hlt, fun e' he' => hlt.trans (habove e' he')⟩⟩

theorem pairwise_sortSymbols (l : List (UInt64 × String)) :
    (sortSymbols l).Pairwise fun a b => a.1 < b.1 := by
  have hsorted : (l.insertionSort fun a b => a.1 ≤ b.1).Pairwise fun a b => a.1 ≤ b.1 := by
    refine @List.pairwise_insertionSort _ (fun a b : UInt64 × String => a.1 ≤ b.1) _ ?_ ?_ l
    · exact ⟨fun a b => le_total a.1 b.1⟩
    · exact ⟨fun a b c => le_trans⟩
  rw [sortSymbols]
  generalize l.insertionSort (fun a b => a.1 ≤ b.1) = l' at hsorted
  cases l' with
  | nil => exact List.Pairwise.nil
  | cons e l' =>
      obtain ⟨hle, hl⟩ := List.pairwise_cons.mp hsorted
      obtain ⟨hpair, habove⟩ := pairwise_dedupAfter hl hle
      exact List.pairwise_cons.mpr ⟨habove, hpair⟩

/-- The entry that a binary search at `addr` leads to. -/
def entryFor (l : List (UInt64 × String)) (addr : UInt64) : Option (UInt64 × String) :=
  match binarySearchByKey l addr with
  | .ok i => l[i]?
  | .error 0 => none
  | .error (i + 1) => l[i]?

theorem symbolFor_eq (m : DwarfModule) (addr : UInt64) :
    m.symbolFor addr = (entryFor m.symbols addr).map Prod.snd := by
  unfold symbolFor entryFor
  rcases binarySearchByKey m.symbols addr with (_ | i) | i <;> rfl

/-- One step of the search: an entry below the address stays behind. -/
theorem entryFor_cons {e : UInt64 × String} {l : List (UInt64 × String)} {addr : UInt64}
    (hlt : e.1 < addr) : entryFor (e :: l) addr = some ((entryFor l addr).getD e) := by
  have hne : (e.1 == addr) = false := beq_false_of_ne (ne_of_lt hlt)
  unfold entryFor binarySearchByKey
  rw [List.findIdx?_cons, hne]
  cases hfind : l.findIdx? (fun e => e.1 == addr) with
  | some i =>
      have hi : i < l.length := (List.findIdx?_eq_some_iff_getElem.mp hfind).1
      simp [hi]
  | none =>
      have hcount : (e :: l).countP (fun e => e.1 < addr) = l.countP (fun e => e.1 < addr) + 1 :=
        List.countP_cons_of_pos (by simpa using hlt)
      simp only [Option.map_none, hcount]
      cases hn : l.countP (fun e => e.1 < addr) with
      | zero => rfl
      | succ n =>
          have hle : n < l.length := by
            have hcountle : l.countP (fun e => e.1 < addr) ≤ l.length := List.countP_le_length
            omega
          simp [hle]

/-- On a table in the order of the addresses the search finds the nearest entry below. By
induction on the table, with the entries that come before the address. -/
theorem entryFor_eq_nearest {l : List (UInt64 × String)} (h : l.Pairwise fun a b => a.1 < b.1)
    (addr : UInt64) : entryFor l addr = nearest addr l := by
  induction l with
  | nil => rfl
  | cons e l ih =>
      obtain ⟨habove, hl⟩ := List.pairwise_cons.mp h
      rcases lt_or_ge e.1 addr with hlt | hge
      · -- an entry behind it that is not above the address is nearer
        rw [entryFor_cons hlt, ih hl, nearest]
        cases hn : nearest addr l with
        | none => simp [le_of_lt hlt]
        | some b =>
            have hb := habove b (nearest_eq_some hn).1
            simp [not_le.mpr hb]
      · -- all entries behind it are above the address
        have hnone : nearest addr l = none :=
          nearest_eq_none.mpr fun b hb => lt_of_le_of_lt hge (habove b hb)
        rw [nearest, hnone]
        unfold entryFor binarySearchByKey
        rcases eq_or_lt_of_le hge with heq | hlt
        · have hfind : (e :: l).findIdx? (fun e' => e'.1 == addr) = some 0 := by
            rw [List.findIdx?_cons, heq, beq_self_eq_true, if_pos rfl]
          rw [hfind]
          simp [heq]
        · have hfind : (e :: l).findIdx? (fun e => e.1 == addr) = none := by
            rw [List.findIdx?_eq_none_iff]
            intro b hb
            refine beq_false_of_ne (ne_of_gt ?_)
            rcases List.mem_cons.mp hb with rfl | hb
            · exact hlt
            · exact hlt.trans (habove b hb)
          have hcount : (e :: l).countP (fun e => e.1 < addr) = 0 := by
            rw [List.countP_eq_zero]
            intro b hb
            rcases List.mem_cons.mp hb with rfl | hb
            · simpa using hge
            · simpa using hge.trans (le_of_lt (habove b hb))
          simp [hfind, hcount, not_le.mpr hlt]

/-- The address and linkage name of a named function symbol. -/
def namedText (s : ObjectSymbol) : Option (UInt64 × String) :=
  match s.kind, s.name with
  | .text, .returned (.ok name) => if name = "" then none else some (s.address, name)
  | _, _ => none

/-- The named function symbols of a file, in file order and as stored. -/
def linkageNames (rd : Readers) (data : Bytes) : List (UInt64 × String) :=
  match rd.parseObject data with
  | .returned (.ok obj) =>
      match obj.symbols with
      | .returned symbols => symbols.filterMap namedText
      | .panicked => []
  | _ => []

/-- The table holds the stored symbols with their names demangled. -/
theorem functionSymbols_eq_returned {symbols : List ObjectSymbol}
    {out : List (UInt64 × String)} (h : functionSymbols rd symbols = .returned out) :
    List.Forall₂ (fun s e => s.1 = e.1 ∧ rd.tryDemangle s.2 = .returned e.2)
      (symbols.filterMap namedText) out := by
  induction symbols generalizing out with
  | nil =>
      cases h
      exact List.Forall₂.nil
  | cons s symbols ih =>
      rw [functionSymbols] at h
      -- A symbol that is not code, or has no name that can be read, makes no entry.
      have hskip : namedText s = none →
          (functionSymbols rd symbols >>= fun rest => returned ((none : Option _).toList ++ rest))
            = .returned out →
          List.Forall₂ (fun s e => s.1 = e.1 ∧ rd.tryDemangle s.2 = .returned e.2)
            ((s :: symbols).filterMap namedText) out := by
        intro hnone h
        obtain ⟨rest, hrest, h⟩ := bind_eq_returned.mp h
        cases h
        rw [List.filterMap_cons_none hnone]
        exact ih hrest
      by_cases htext : s.kind = .text
      · rw [if_pos htext] at h
        obtain ⟨name?, hname, h⟩ := bind_eq_returned.mp h
        cases name? with
        | error e => exact hskip (by simp [namedText, hname]) h
        | ok name =>
            by_cases hempty : name = ""
            · simp only [hempty, if_true] at h
              exact hskip (by simp [namedText, htext, hname, hempty]) h
            · simp only [hempty, if_false] at h
              obtain ⟨demangled, hdemangled, h⟩ := bind_eq_returned.mp h
              obtain ⟨here, hhere, h⟩ := bind_eq_returned.mp h
              cases hhere
              obtain ⟨rest, hrest, h⟩ := bind_eq_returned.mp h
              cases h
              have hsome : namedText s = some (s.address, name) := by
                simp [namedText, htext, hname, hempty]
              rw [List.filterMap_cons_some hsome]
              exact List.Forall₂.cons ⟨rfl, hdemangled⟩ (ih hrest)
      · rw [if_neg htext] at h
        refine hskip ?_ h
        cases hk : s.kind with
        | text => exact absurd hk htext
        | other => simp [namedText, hk]

theorem symbols_of_parse {data : Bytes} {name : String} {limits : Limits} {m : DwarfModule}
    (h : (DwarfModule.parse rd data name limits).run = .returned (.ok m)) :
    ∃ out, m.symbols = sortSymbols out ∧
      List.Forall₂ (fun s e => s.1 = e.1 ∧ rd.tryDemangle s.2 = .returned e.2)
        (linkageNames rd data) out := by
  cases parse_eq_ok.mp h with
  | @intro _ obj _ _ _ objSymbols symbols _ _ hobj _ _ _ hobjSymbols hsymbols _ =>
      refine ⟨symbols, rfl, ?_⟩
      rw [linkageNames, hobj]
      simp only [hobjSymbols]
      exact functionSymbols_eq_returned hsymbols

/-- **The fallback name**: of the function symbol nearest below the address, the first in the
file where several share its address, the demangled name. -/
theorem symbolFor_eq_nearest {data : Bytes} {name : String} {limits : Limits} {m : DwarfModule}
    (h : (DwarfModule.parse rd data name limits).run = .returned (.ok m)) (addr : UInt64) :
    Option.Rel (fun s n => rd.tryDemangle s.2 = .returned n)
      (nearest addr (linkageNames rd data)) (m.symbolFor addr) := by
  obtain ⟨out, hsymbols, hall⟩ := symbols_of_parse h
  rw [symbolFor_eq, hsymbols, entryFor_eq_nearest (pairwise_sortSymbols out), nearest_sortSymbols]
  have hrel := nearest_forall₂ (fun s n => rd.tryDemangle s = .returned n) hall addr
  generalize nearest addr (linkageNames rd data) = s? at hrel ⊢
  generalize nearest addr out = e? at hrel ⊢
  cases hrel with
  | none => exact Option.Rel.none
  | some hse => exact Option.Rel.some hse.2

/-! ## The names of a row -/

/-- A linkage name as stored in the file: of a frame that the DWARF reader yields, or of a
function symbol. -/
def StoredName (rd : Readers) (data : Bytes) (m : DwarfModule) (name : String) : Prop :=
  (∃ addr iter, m.ctx.findFrames addr = .returned (.ok iter) ∧
    ∃ f ∈ iter.frames, rawName f = .returned (some name)) ∨
  ∃ s ∈ linkageNames rd data, s.2 = name

/-- The raw name of each row is stored in the file, and its name is the raw name demangled. -/
def ConsistentNames (rd : Readers) (data : Bytes) (m : DwarfModule) (rows : List ResolvedFrame) :
    Prop :=
  ∀ r ∈ rows, ∀ raw, r.functionRaw = some raw →
    StoredName rd data m raw ∧ some <$> rd.tryDemangle raw = .returned r.function

/-- The symbol table answers for the address: the reader is not asked, or has no frame there, or
there is no room for one. -/
def FallsBack (m : DwarfModule) (addr : UInt64) (depth : Nat) : Prop :=
  dwarfProbeOk addr = false ∨
    ∃ iter, m.ctx.findFrames addr = .returned (.ok iter) ∧ (depth = 0 ∨ iter = .done)

/-- The fallback row has one name in both fields. -/
theorem consistentNames_noLineFrame {data : Bytes} {name : String} {limits : Limits}
    {m : DwarfModule} (h : (DwarfModule.parse rd data name limits).run = .returned (.ok m))
    (addr : UInt64) :
    ConsistentNames rd data m [m.noLineFrame addr] ↔
      ∀ s n, nearest addr (linkageNames rd data) = some s → rd.tryDemangle s.2 = .returned n →
        StoredName rd data m n ∧ rd.tryDemangle n = .returned n := by
  have hfields : ConsistentNames rd data m [m.noLineFrame addr] ↔
      ∀ n, m.symbolFor addr = some n →
        StoredName rd data m n ∧ rd.tryDemangle n = .returned n := by
    unfold ConsistentNames
    rw [List.forall_mem_singleton, functionRaw_noLineFrame, function_noLineFrame]
    refine forall₂_congr fun n hn => and_congr_right fun _ => ?_
    rw [hn]
    cases rd.tryDemangle n <;> simp
  rw [hfields]
  have hrel := symbolFor_eq_nearest h addr
  generalize nearest addr (linkageNames rd data) = s? at hrel ⊢
  generalize m.symbolFor addr = n? at hrel ⊢
  cases hrel with
  | none => simp
  | @some s n hsn =>
      constructor
      · rintro hall s' n' ⟨⟩ hn'
        cases hsn.symm.trans hn'
        exact hall n rfl
      · rintro hall n' ⟨⟩
        exact hall s n rfl hsn

/-- **When raw and demangled names agree.** The rows of an address have consistent names unless
the symbol table answers for it; then the demangled name of the symbol nearest below must itself
be a stored name that the demangler leaves as it is, as the name of an unmangled symbol is. -/
theorem consistentNames_iff {data : Bytes} {name : String} {parseLimits : Limits}
    {m : DwarfModule} {addr : UInt64} {limits : Limits} {rows : List ResolvedFrame}
    (hparse : (DwarfModule.parse rd data name parseLimits).run = .returned (.ok m))
    (h : m.resolve rd addr limits = .returned rows) :
    ConsistentNames rd data m rows ↔
      (FallsBack m addr limits.maxInlineDepth →
        ∀ s n, nearest addr (linkageNames rd data) = some s → rd.tryDemangle s.2 = .returned n →
          StoredName rd data m n ∧ rd.tryDemangle n = .returned n) := by
  cases resolved_of_returned h with
  | unprobed hprobe =>
      rw [consistentNames_noLineFrame hparse]
      exact ⟨fun hcond _ => hcond, fun hcond => hcond (Or.inl hprobe)⟩
  | empty hprobe hfind hiter =>
      rw [consistentNames_noLineFrame hparse]
      exact ⟨fun hcond _ => hcond, fun hcond => hcond (Or.inr ⟨_, hfind, hiter⟩)⟩
  | broken hprobe hfind hfound =>
      -- an error row has no names
      apply iff_of_true
      · intro r hr raw hraw
        rw [List.mem_singleton.mp hr] at hraw
        cases hraw
      · rintro (hunprobed | ⟨iter, hfind', hiter⟩)
        · rw [hprobe] at hunprobed
          cases hunprobed
        · cases hfind.symm.trans hfind'
          rcases hfound with hfound | ⟨hfound, hpos⟩
          · cases hfound
          · cases hfound
            rcases hiter with hzero | hdone
            · omega
            · cases hdone
  | frames hprobe hfind hne hshows hchain =>
      -- each row shows a frame, whose stored name is the raw one
      apply iff_of_true
      · intro r hr raw hraw
        obtain ⟨f, hf, hshow⟩ := hshows.exists_left hr
        have hname := hshow.functionRaw
        have hfunction := hshow.function
        rw [hraw] at hname hfunction
        exact ⟨Or.inl ⟨addr, _, hfind, f, List.mem_of_mem_take hf, hname⟩, hfunction⟩
      · rintro (hunprobed | ⟨iter, hfind', hzero | rfl⟩)
        · rw [hprobe] at hunprobed
          cases hunprobed
        · rw [hzero, List.take_zero] at hne
          exact absurd rfl hne
        · cases hfind.symm.trans hfind'
          exact absurd List.take_nil hne

end DwarfModule

/-- Readers of images with the one function symbol `_ZN3foo3barEv` and no DWARF frames. -/
def StandIn.mangledReaders : Readers :=
  { readers with
    parseObject := fun data =>
      match data with
      | tag :: buildId =>
          .returned (.ok { object tag buildId with
            symbols := .returned [⟨.text, .returned (.ok "_ZN3foo3barEv"), 0⟩] })
      | [] => .returned (.error "empty")
    loadDwarf := fun _ _ =>
      .returned (.ok ⟨.stop, .returned (.ok ⟨fun _ => .returned (.ok .done)⟩)⟩)
    tryDemangle := fun s => .returned (if s = "_ZN3foo3barEv" then "foo::bar" else s) }

namespace DwarfModule

/-- The symbol `start` of the image without function names, at the last address. -/
theorem consistentNames_start :
    ∃ m, (DwarfModule.parse StandIn.readers [3, 0x11] "a.debug" Limits.default).run
        = .returned (.ok m) ∧
      ConsistentNames StandIn.readers [3, 0x11] m
        [m.noLineFrame (UInt64.ofNat (2 ^ 64 - 1))] := by
  have hparse : (DwarfModule.parse StandIn.readers [3, 0x11] "a.debug" Limits.default).run
      = .returned (.ok _) := rfl
  have hrows : ∀ m : DwarfModule, m.resolve StandIn.readers (UInt64.ofNat (2 ^ 64 - 1))
      Limits.default = .returned [m.noLineFrame (UInt64.ofNat (2 ^ 64 - 1))] := fun m => rfl
  refine ⟨_, hparse, (consistentNames_iff hparse (hrows _)).mpr fun _ s n hs hn => ?_⟩
  cases hs
  cases hn
  exact ⟨Or.inr ⟨_, List.mem_singleton_self _, rfl⟩, rfl⟩

/-- The fallback row has `foo::bar` for the linkage name. -/
theorem not_consistentNames_mangled :
    ∃ m rows, (DwarfModule.parse StandIn.mangledReaders [1, 0x11] "a.debug" Limits.default).run
        = .returned (.ok m) ∧
      m.resolve StandIn.mangledReaders 4 Limits.default = .returned rows ∧
      ¬ ConsistentNames StandIn.mangledReaders [1, 0x11] m rows := by
  refine ⟨_, _, rfl, rfl, fun h => ?_⟩
  obtain ⟨⟨addr, iter, hiter, f, hf, -⟩ | ⟨s, hs, hname⟩, -⟩ :=
    h _ List.mem_cons_self "foo::bar" rfl
  · cases hiter
    cases hf
  · rw [List.mem_singleton.mp hs] at hname
    exact absurd hname (by decide)

end DwarfModule

end VgiSymbols
