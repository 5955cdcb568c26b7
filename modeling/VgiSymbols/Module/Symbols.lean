import VgiSymbols.Module.Names

set_option autoImplicit false

/-! # The function symbol table

The fallback name of an address is looked up in the table of the named function symbols: it is the
name of the first-listed symbol with the greatest address that is not above (`symbolFor_iff`). A
symbol of a file may also be an import, which is not defined in the module. The table does not
tell these apart, and `fromDefined_iff` says when that shows.
-/

namespace VgiSymbols

open Unwind Nearest

variable {rd : Readers}

namespace DwarfModule

/-! ## The nearest symbol below -/

theorem symbolFor_eq_nearest_functionSymbols {m : DwarfModule} {symbols : List (UInt64 × String)}
    (h : m.symbols = sortSymbols symbols) (addr : UInt64) :
    m.symbolFor addr = (nearest addr symbols).map Prod.snd := by
  rw [symbolFor_eq, h, entryFor_eq_nearest (pairwise_sortSymbols symbols), nearest_sortSymbols]

/-- **The nearest-below lookup.** The name for an address is that of the first symbol in file
order among those with the greatest address that does not exceed it; there is none if all of them
exceed it. -/
theorem symbolFor_iff {data : Bytes} {name : String} {limits : Limits} {m : DwarfModule}
    (h : (DwarfModule.parse rd data name limits).run = .returned (.ok m)) :
    ∃ obj objSymbols symbols,
      rd.parseObject data = .returned (.ok obj) ∧ obj.symbols = .returned objSymbols ∧
      functionSymbols rd objSymbols = .returned symbols ∧
      ∀ addr,
        (∀ n, m.symbolFor addr = some n ↔ ∃ s, IsNearest addr symbols s ∧ s.2 = n) ∧
        (m.symbolFor addr = none ↔ ∀ s ∈ symbols, addr < s.1) := by
  cases parse_eq_ok.mp h with
  | @intro _ obj _ _ _ objSymbols symbols _ _ hobj _ _ _ hobjSymbols hsymbols _ =>
      refine ⟨obj, objSymbols, symbols, hobj, hobjSymbols, hsymbols, fun addr => ?_⟩
      rw [symbolFor_eq_nearest_functionSymbols rfl]
      constructor
      · intro n
        simp only [Option.map_eq_some_iff, nearest_eq_some_iff]
      · rw [Option.map_eq_none_iff, nearest_eq_none]

end DwarfModule

/-- A named function symbol. -/
def StandIn.function (name : String) (address : UInt64) : ObjectSymbol :=
  ⟨.text, .returned (.ok name), address⟩

/-- Readers of images with the given symbols. -/
def StandIn.symbolReaders (symbols : List ObjectSymbol) : Readers :=
  { readers with
    parseObject := fun data =>
      match data with
      | tag :: buildId =>
          .returned (.ok { object tag buildId with symbols := .returned symbols })
      | [] => .returned (.error "empty") }

/-- Two functions at one address, and one below that is listed behind. -/
def StandIn.aliased : List ObjectSymbol :=
  [function "late" 0x20, function "alias" 0x20, function "early" 0x10]

namespace DwarfModule

/-- The first listed of the two gives the name. -/
theorem symbolFor_aliased :
    ∃ m, (DwarfModule.parse (StandIn.symbolReaders StandIn.aliased) [1, 0x11] "a.debug"
        Limits.default).run = .returned (.ok m) ∧ m.symbolFor 0x2f = some "late" := by
  have hparse : (DwarfModule.parse (StandIn.symbolReaders StandIn.aliased) [1, 0x11] "a.debug"
      Limits.default).run = .returned (.ok _) := rfl
  obtain ⟨obj, objSymbols, symbols, hobj, hobjSymbols, hsymbols, hspec⟩ := symbolFor_iff hparse
  cases hobj
  cases hobjSymbols
  cases hsymbols
  refine ⟨_, hparse, ((hspec 0x2f).1 "late").mpr ⟨(0x20, "late"), ?_, rfl⟩⟩
  exact ⟨by decide, by decide, rfl, [], _, rfl, fun _ h => by cases h⟩

end DwarfModule

/-! ## Imports -/

/-- A symbol of a file, with its mark as an import: not defined in the module. -/
structure TableSymbol extends ObjectSymbol where
  undefined : Bool

/-- What a symbol table has on a function: its linkage name, and whether it is an import. -/
structure TableFunction where
  linkageName : String
  undefined : Bool

def TableSymbol.function (s : TableSymbol) : Option (UInt64 × TableFunction) :=
  (DwarfModule.namedText s.toObjectSymbol).map fun e => (e.1, ⟨e.2, s.undefined⟩)

namespace DwarfModule

/-- The named functions of a table with their addresses, in file order. -/
def tableFunctions (table : List TableSymbol) : List (UInt64 × TableFunction) :=
  table.filterMap TableSymbol.function

def definedFunctions (table : List TableSymbol) : List (UInt64 × TableFunction) :=
  (tableFunctions table).filter fun e => !e.2.undefined

/-- Imported functions have the address 0. -/
def ImportsAtZero (table : List TableSymbol) : Prop :=
  ∀ s ∈ table, s.undefined = true → s.kind = .text → s.address = 0

/-- The fallback names are those of defined functions: each is the name of one at or below the
address, and the first of those defined at an address is the one that it shows. -/
structure FromDefined (rd : Readers) (m : DwarfModule) (table : List TableSymbol) : Prop where
  reported : ∀ addr n, m.symbolFor addr = some n →
    ∃ e ∈ definedFunctions table, e.1 ≤ addr ∧ rd.tryDemangle e.2.linkageName = .returned n
  shown : ∀ addr e, FirstAt addr (definedFunctions table) e →
    some <$> rd.tryDemangle e.2.linkageName = .returned (m.symbolFor addr)

/-- If the first function at address 0 is an import, then the first one defined there has the
same name. -/
def ImportsHarmless (rd : Readers) (table : List TableSymbol) : Prop :=
  ∀ e, FirstAt 0 (tableFunctions table) e → e.2.undefined = true →
    ∃ d, FirstAt 0 (definedFunctions table) d ∧
      rd.tryDemangle d.2.linkageName = rd.tryDemangle e.2.linkageName

theorem mem_definedFunctions {table : List TableSymbol} {e : UInt64 × TableFunction} :
    e ∈ definedFunctions table ↔ e ∈ tableFunctions table ∧ e.2.undefined = false := by
  rw [definedFunctions, List.mem_filter, Bool.not_eq_true']

/-- The first function at an address, if it is defined, is the first defined there. -/
theorem firstAt_definedFunctions {table : List TableSymbol} {addr : UInt64}
    {e : UInt64 × TableFunction} (h : FirstAt addr (tableFunctions table) e)
    (hdefined : e.2.undefined = false) : FirstAt addr (definedFunctions table) e :=
  h.filter _ (by rw [hdefined]; rfl)

theorem ImportsAtZero.eq_zero {table : List TableSymbol} (h : ImportsAtZero table)
    {e : UInt64 × TableFunction} (he : e ∈ tableFunctions table)
    (hundefined : e.2.undefined = true) : e.1 = 0 := by
  obtain ⟨s, hs, hfun⟩ := List.mem_filterMap.mp he
  obtain ⟨named, hnamed, rfl⟩ := Option.map_eq_some_iff.mp hfun
  unfold namedText at hnamed
  split at hnamed
  · next hkind hname =>
      split at hnamed
      · cases hnamed
      · cases hnamed
        exact h s hs hundefined hkind
  · cases hnamed

/-- The first function at the address itself is nearest to it. -/
theorem isNearest_of_firstAt {addr : UInt64} {l : List (UInt64 × TableFunction)}
    {e : UInt64 × TableFunction} (h : FirstAt addr l e) : IsNearest addr l e := by
  obtain ⟨rfl, -⟩ := id h
  exact ⟨le_rfl, fun e' _ hle => hle, h⟩

section Table

variable {data : Bytes} {name : String} {limits : Limits} {m : DwarfModule} {obj : ObjectFile}
  {table : List TableSymbol}
  (h : (DwarfModule.parse rd data name limits).run = .returned (.ok m))
  (hobj : rd.parseObject data = .returned (.ok obj))
  (htable : obj.symbols = .returned (table.map TableSymbol.toObjectSymbol))
include h hobj htable

/-- The name for an address is that of the nearest function below, imported or not. -/
theorem symbolFor_eq_nearest_function (addr : UInt64) :
    Option.Rel (fun e n => rd.tryDemangle e.2.linkageName = .returned n)
      (nearest addr (tableFunctions table)) (m.symbolFor addr) := by
  have hnames : linkageNames rd data =
      (tableFunctions table).map fun e => (e.1, e.2.linkageName) := by
    simp only [linkageNames, hobj, htable, tableFunctions, List.filterMap_map,
      List.map_filterMap, TableSymbol.function, Function.comp_def, Option.map_map, Option.map_id']
  obtain ⟨symbols, hsymbols, hall⟩ := symbols_of_parse h
  rw [hnames, List.forall₂_map_left_iff] at hall
  rw [symbolFor_eq_nearest_functionSymbols hsymbols]
  have hrel := nearest_forall₂ (fun (e : TableFunction) n =>
    rd.tryDemangle e.linkageName = .returned n) hall addr
  generalize nearest addr (tableFunctions table) = e? at hrel ⊢
  generalize nearest addr symbols = s? at hrel ⊢
  cases hrel with
  | none => exact Option.Rel.none
  | some hes => exact Option.Rel.some hes.2

theorem symbolFor_of_isNearest {addr : UInt64} {e : UInt64 × TableFunction}
    (he : IsNearest addr (tableFunctions table) e) :
    some <$> rd.tryDemangle e.2.linkageName = .returned (m.symbolFor addr) := by
  have hrel := symbolFor_eq_nearest_function h hobj htable addr
  rw [nearest_eq_some_iff.mpr he] at hrel
  generalize m.symbolFor addr = n? at hrel ⊢
  cases hrel with
  | some hn => rw [hn, map_returned]

theorem isNearest_of_symbolFor {addr : UInt64} {n : String} (hn : m.symbolFor addr = some n) :
    ∃ e, IsNearest addr (tableFunctions table) e ∧
      rd.tryDemangle e.2.linkageName = .returned n := by
  have hrel := symbolFor_eq_nearest_function h hobj htable addr
  rw [hn] at hrel
  generalize hnear : nearest addr (tableFunctions table) = e? at hrel
  cases hrel with
  | some he => exact ⟨_, nearest_eq_some_iff.mp hnear, he⟩

/-- **When imports do no harm to the fallback names.** -/
theorem fromDefined_iff (hzero : ImportsAtZero table) :
    FromDefined rd m table ↔ ImportsHarmless rd table := by
  constructor
  · intro hfrom e he hundefined
    -- the name for the address 0 is that of the import
    have hname := symbolFor_of_isNearest h hobj htable (isNearest_of_firstAt he)
    obtain ⟨n, hn, hsymbol⟩ := map_eq_returned.mp hname
    obtain ⟨d, hd, hle, -⟩ := hfrom.reported 0 n hsymbol.symm
    obtain ⟨f, hf⟩ := exists_firstAt hd
    rw [UInt64.le_zero_iff.mp hle] at hf
    refine ⟨f, hf, ?_⟩
    obtain ⟨n', hn', hsymbol'⟩ := map_eq_returned.mp (hfrom.shown 0 f hf)
    rw [hn, hn', Option.some.inj (hsymbol'.trans hsymbol.symm)]
  · intro hharmless
    constructor
    · intro addr n hn
      obtain ⟨e, he, hname⟩ := isNearest_of_symbolFor h hobj htable hn
      by_cases hundefined : e.2.undefined = true
      · have hzero := hzero.eq_zero he.first.mem hundefined
        obtain ⟨d, hd, heq⟩ := hharmless e (hzero ▸ he.first) hundefined
        refine ⟨d, hd.mem, ?_, heq.trans hname⟩
        rw [hd.1]
        exact UInt64.zero_le
      · exact ⟨e, mem_definedFunctions.mpr ⟨he.first.mem, Bool.eq_false_of_not_eq_true hundefined⟩,
          he.le, hname⟩
    · intro addr d hd
      -- the first function at the address, and the first one defined there
      obtain ⟨e, he⟩ := exists_firstAt (mem_definedFunctions.mp hd.mem).1
      rw [hd.1] at he
      have hname := symbolFor_of_isNearest h hobj htable (isNearest_of_firstAt he)
      by_cases hundefined : e.2.undefined = true
      · have hzero := hzero.eq_zero he.mem hundefined
        rw [he.1] at hzero
        subst hzero
        obtain ⟨d', hd', heq⟩ := hharmless e he hundefined
        rw [hd.unique hd', heq, hname]
      · rw [hd.unique (firstAt_definedFunctions he (Bool.eq_false_of_not_eq_true hundefined)),
          hname]

end Table

end DwarfModule

/-- The import `puts`, and `main` as the only function that is defined. -/
def StandIn.importing : List TableSymbol :=
  [⟨function "puts" 0, true⟩, ⟨function "main" 0x1000, false⟩]

/-- The same import, behind a function that is defined at address 0. -/
def StandIn.importingLast : List TableSymbol :=
  [⟨function "start" 0, false⟩, ⟨function "puts" 0, true⟩]

namespace DwarfModule

/-- A function defined in front of the imports is not hidden. -/
theorem fromDefined_importingLast :
    ∃ m, (DwarfModule.parse
        (StandIn.symbolReaders (StandIn.importingLast.map TableSymbol.toObjectSymbol))
        [1, 0x11] "a.debug" Limits.default).run = .returned (.ok m) ∧
      FromDefined (StandIn.symbolReaders (StandIn.importingLast.map TableSymbol.toObjectSymbol))
        m StandIn.importingLast := by
  have hparse : (DwarfModule.parse
      (StandIn.symbolReaders (StandIn.importingLast.map TableSymbol.toObjectSymbol))
      [1, 0x11] "a.debug" Limits.default).run = .returned (.ok _) := rfl
  have hzero : ImportsAtZero StandIn.importingLast := by
    intro s hs _ _
    rcases List.mem_pair.mp hs with rfl | rfl <;> rfl
  refine ⟨_, hparse, (fromDefined_iff hparse rfl rfl hzero).mpr fun e he hundefined => ?_⟩
  have hfirst : FirstAt 0 (tableFunctions StandIn.importingLast) (0, ⟨"start", false⟩) :=
    ⟨rfl, [], _, rfl, fun _ h => by cases h⟩
  rw [he.unique hfirst] at hundefined
  cases hundefined

/-- The import gives its name to the addresses in front of `main`. -/
theorem not_fromDefined_importing :
    ∃ m, (DwarfModule.parse
        (StandIn.symbolReaders (StandIn.importing.map TableSymbol.toObjectSymbol))
        [1, 0x11] "a.debug" Limits.default).run = .returned (.ok m) ∧
      ImportsAtZero StandIn.importing ∧ m.symbolFor 4 = some "puts" ∧
      ¬ FromDefined (StandIn.symbolReaders (StandIn.importing.map TableSymbol.toObjectSymbol))
        m StandIn.importing := by
  refine ⟨_, rfl, fun s hs hundefined _ => ?_, rfl, fun h => ?_⟩
  · rcases List.mem_pair.mp hs with rfl | rfl
    · rfl
    · cases hundefined
  · obtain ⟨e, he, -, hname⟩ := h.reported 4 "puts" rfl
    rcases List.mem_singleton.mp he with rfl
    exact absurd hname (by decide)

end DwarfModule

end VgiSymbols
