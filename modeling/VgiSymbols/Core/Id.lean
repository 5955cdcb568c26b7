import VgiSymbols.Core.Frame
import Mathlib.Data.List.Sort

set_option autoImplicit false

/-! # Debug-ids and tokens

A frame names a module by a *token*; a module answers to the canonical forms of up to three
identifiers (`Identity.aliases`): its debug-id in Breakpad form, the bare UUID and the raw
build-id. Everything is compared after `canonicalToken`.
-/

namespace VgiSymbols

/-! ## Canonical tokens -/

def isAsciiWhitespace (c : Char) : Bool :=
  c == ' ' || c == '\t' || c == '\n' || c == '\x0c' || c == '\r'

/-- The characters `canonicalToken` keeps. -/
def isTokenChar (c : Char) : Bool :=
  !isAsciiWhitespace c && !(c == '-' || c == '{' || c == '}')

/-- Lowercase, without ASCII whitespace and the separators `-`, `{` and `}`.
(`Char.toLower` is ASCII lowercasing.) -/
def canonicalToken (s : String) : String :=
  String.ofList ((s.toList.filter isTokenChar).map Char.toLower)

example : canonicalToken "E4-C1 f2" = "e4c1f2" := by decide
example : canonicalToken "{ABCDEF}" = "abcdef" := by decide

theorem forall_ascii {P : Char → Prop} (h : ∀ n, n < 128 → P (Char.ofNat n)) {c : Char}
    (hc : c.toNat < 128) : P c := by
  have := h c.toNat hc
  rwa [Char.ofNat_toNat] at this

theorem toLower_of_not_ascii {c : Char} (hc : ¬ c.toNat < 128) : c.toLower = c := by
  unfold Char.toLower
  refine dif_neg fun h => hc ?_
  have h2 : c.toNat ≤ 90 := UInt32.le_iff_toNat_le.mp h.2
  omega

theorem toLower_toLower (c : Char) : c.toLower.toLower = c.toLower := by
  by_cases hc : c.toNat < 128
  · exact forall_ascii (P := fun c => c.toLower.toLower = c.toLower) (by decide) hc
  · rw [toLower_of_not_ascii hc, toLower_of_not_ascii hc]

/-- Lowercasing neither makes nor removes a separator. -/
theorem isTokenChar_toLower (c : Char) : isTokenChar c.toLower = isTokenChar c := by
  by_cases hc : c.toNat < 128
  · exact forall_ascii (P := fun c => isTokenChar c.toLower = isTokenChar c) (by decide) hc
  · rw [toLower_of_not_ascii hc]

@[simp] theorem toList_canonicalToken (s : String) :
    (canonicalToken s).toList = (s.toList.filter isTokenChar).map Char.toLower := by
  simp [canonicalToken]

@[simp] theorem canonicalToken_idem (s : String) :
    canonicalToken (canonicalToken s) = canonicalToken s := by
  have hf : ((s.toList.filter isTokenChar).map Char.toLower).filter isTokenChar
      = (s.toList.filter isTokenChar).map Char.toLower := by
    rw [List.filter_eq_self]
    intro c hc
    obtain ⟨d, hd, rfl⟩ := List.mem_map.mp hc
    rw [isTokenChar_toLower]
    exact (List.mem_filter.mp hd).2
  rw [canonicalToken, toList_canonicalToken, hf, List.map_map, canonicalToken]
  congr 1
  exact List.map_congr_left fun c _ => toLower_toLower c

/-! ## Hexadecimal -/

/-- The two lowercase digits of each byte. -/
def hexChars (bytes : Bytes) : List Char :=
  bytes.flatMap fun b => [Nat.digitChar (b.toNat / 16), Nat.digitChar (b.toNat % 16)]

/-- Lowercase hex of a byte slice, without separators. -/
def hexEncode (bytes : Bytes) : String := String.ofList (hexChars bytes)

example : hexEncode [0x00, 0xff, 0x1a] = "00ff1a" := by decide

theorem hexChars_cons (b : UInt8) (bytes : Bytes) : hexChars (b :: bytes)
    = [Nat.digitChar (b.toNat / 16), Nat.digitChar (b.toNat % 16)] ++ hexChars bytes := rfl

theorem length_hexChars (bytes : Bytes) : (hexChars bytes).length = 2 * bytes.length := by
  induction bytes with
  | nil => rfl
  | cons b bytes ih =>
      rw [hexChars_cons, List.length_append, ih, List.length_cons]
      simp only [List.length_cons, List.length_nil]
      omega

/-- Bytes are told apart by their hex digits. -/
theorem hexChars_injective : Function.Injective hexChars := by
  have hdigit : ∀ m < 16, ∀ n < 16, Nat.digitChar m = Nat.digitChar n → m = n := by decide
  intro bytes
  induction bytes with
  | nil =>
      intro bytes' h
      cases bytes' with
      | nil => rfl
      | cons b' bytes' => cases h
  | cons b bytes ih =>
      intro bytes' h
      cases bytes' with
      | nil => cases h
      | cons b' bytes' =>
          rw [hexChars_cons, hexChars_cons] at h
          obtain ⟨hb, hrest⟩ := List.append_inj h rfl
          obtain ⟨hhigh, hlow⟩ : Nat.digitChar (b.toNat / 16) = Nat.digitChar (b'.toNat / 16) ∧
              Nat.digitChar (b.toNat % 16) = Nat.digitChar (b'.toNat % 16) := by
            simpa using hb
          have hlt := b.toNat_lt
          have hlt' := b'.toNat_lt
          have hhigh' := hdigit _ (by omega) _ (by omega) hhigh
          have hlow' := hdigit _ (Nat.mod_lt _ (by decide)) _ (Nat.mod_lt _ (by decide)) hlow
          have hbyte : b = b' := UInt8.toNat_inj.mp (by omega)
          rw [hbyte, ih hrest]

theorem hexEncode_injective : Function.Injective hexEncode :=
  fun _ _ h => hexChars_injective (String.ofList_injective h)

/-- A lowercase hexadecimal digit. -/
def IsHexDigit (c : Char) : Prop := ∃ n, n < 16 ∧ c = Nat.digitChar n

theorem hexChars_isHexDigit (bytes : Bytes) : ∀ c ∈ hexChars bytes, IsHexDigit c := by
  intro c hc
  simp only [hexChars, List.mem_flatMap, List.mem_cons, List.not_mem_nil, or_false] at hc
  obtain ⟨b, -, rfl | rfl⟩ := hc
  · exact ⟨b.toNat / 16, by have := b.toNat_lt; omega, rfl⟩
  · exact ⟨b.toNat % 16, Nat.mod_lt _ (by decide), rfl⟩

theorem toDigitsCore_isHexDigit (fuel n : Nat) (acc : List Char)
    (hacc : ∀ c ∈ acc, IsHexDigit c) : ∀ c ∈ Nat.toDigitsCore 16 fuel n acc, IsHexDigit c := by
  induction fuel generalizing n acc with
  | zero => exact hacc
  | succ fuel ih =>
      have hacc' : ∀ c ∈ Nat.digitChar (n % 16) :: acc, IsHexDigit c := by
        intro c hc
        rcases List.mem_cons.mp hc with rfl | hc
        · exact ⟨n % 16, Nat.mod_lt _ (by decide), rfl⟩
        · exact hacc c hc
      rw [Nat.toDigitsCore]
      split
      · exact hacc'
      · exact ih _ _ hacc'

theorem toDigits_isHexDigit (n : Nat) : ∀ c ∈ Nat.toDigits 16 n, IsHexDigit c :=
  toDigitsCore_isHexDigit _ _ _ (by simp)

theorem IsHexDigit.isTokenChar {c : Char} (h : IsHexDigit c) : isTokenChar c = true := by
  obtain ⟨n, hn, rfl⟩ := h
  exact (by decide : ∀ n, n < 16 → VgiSymbols.isTokenChar (Nat.digitChar n) = true) n hn

theorem IsHexDigit.toLower {c : Char} (h : IsHexDigit c) : c.toLower = c := by
  obtain ⟨n, hn, rfl⟩ := h
  exact (by decide : ∀ n, n < 16 → (Nat.digitChar n).toLower = Nat.digitChar n) n hn

theorem IsHexDigit.toLower_toUpper {c : Char} (h : IsHexDigit c) : c.toUpper.toLower = c := by
  obtain ⟨n, hn, rfl⟩ := h
  exact (by decide : ∀ n, n < 16 → (Nat.digitChar n).toUpper.toLower = Nat.digitChar n) n hn

/-- A string of hex digits is its own canonical token. -/
theorem canonicalToken_ofList {l : List Char} (h : ∀ c ∈ l, IsHexDigit c) :
    canonicalToken (String.ofList l) = String.ofList l := by
  rw [canonicalToken, String.toList_ofList,
    List.filter_eq_self.mpr fun c hc => (h c hc).isTokenChar]
  congr 1
  calc l.map Char.toLower = l.map id := List.map_congr_left fun c hc => (h c hc).toLower
    _ = l := List.map_id _

theorem canonicalToken_hexEncode (bytes : Bytes) :
    canonicalToken (hexEncode bytes) = hexEncode bytes :=
  canonicalToken_ofList (hexChars_isHexDigit bytes)

/-! ## Debug-ids -/

/-- Sixteen bytes: a UUID, or a GUID as stored in a file. -/
structure Uuid where
  bytes : Bytes
  length_eq : bytes.length = 16
  deriving DecidableEq

/-- The 32 lowercase hex digits of a UUID (`Uuid::simple`). -/
def Uuid.simple (u : Uuid) : String := hexEncode u.bytes

/-- A debug-id: a UUID and an appendix (the PDB age). -/
structure DebugId where
  uuid : Uuid
  appendix : UInt32
  deriving DecidableEq

/-- Reverse the bytes of the first three fields of a GUID (4 + 2 + 2 bytes): the little-endian
fields of the file become the network order of a UUID. -/
def swapGuid : Bytes → Bytes
  | a :: b :: c :: d :: e :: f :: g :: h :: rest => d :: c :: b :: a :: f :: e :: h :: g :: rest
  | short => short

theorem length_swapGuid (bytes : Bytes) : (swapGuid bytes).length = bytes.length := by
  unfold swapGuid
  split <;> rfl

namespace DebugId

/-- `DebugId::from_guid_age` on a full 16-byte GUID, where it does not fail. -/
def fromGuidAge (guid : Uuid) (age : UInt32) : DebugId :=
  ⟨⟨swapGuid guid.bytes, (length_swapGuid _).trans guid.length_eq⟩, age⟩

def fromParts (uuid : Uuid) (appendix : UInt32) : DebugId := ⟨uuid, appendix⟩

def fromUuid (uuid : Uuid) : DebugId := fromParts uuid 0

/-- The Breakpad form: the UUID in uppercase hex, then the appendix in lowercase hex without
padding. -/
def breakpad (d : DebugId) : String :=
  String.ofList ((hexChars d.uuid.bytes).map Char.toUpper ++ Nat.toDigits 16 d.appendix.toNat)

end DebugId

/-! ## Identities -/

/-- The normalized identity of a debug module. -/
structure Identity where
  format : Format
  arch : String
  debugId : DebugId
  rawBuildId : Option String
  codeId : Option String
  imageBase : UInt64
  deriving DecidableEq

/-- The elements of a list that differ in their key from the element kept before them. -/
def dedupAfter {α β : Type} [DecidableEq β] (key : α → β) (last : β) : List α → List α
  | [] => []
  | a :: l => if key a = last then dedupAfter key last l else a :: dedupAfter key (key a) l

/-- `Vec::dedup_by_key`: of neighbours with equal keys only the first stays. -/
def dedupByKey {α β : Type} [DecidableEq β] (key : α → β) : List α → List α
  | [] => []
  | a :: l => a :: dedupAfter key (key a) l

theorem mem_dedupAfter_id {last a : String} {l : List String} (h : a ≠ last) :
    a ∈ dedupAfter id last l ↔ a ∈ l := by
  induction l generalizing last with
  | nil => simp [dedupAfter]
  | cons b l ih =>
      rw [dedupAfter, id_eq]
      split
      case isTrue hb =>
          have hne : a ≠ b := fun hab => h (hab.trans hb)
          rw [ih h, List.mem_cons]
          simp [hne]
      case isFalse hb =>
          by_cases hab : a = b
          · simp [hab]
          · rw [List.mem_cons, List.mem_cons, ih hab]

/-- Removing repeated neighbours of a list of strings keeps its elements. -/
theorem mem_dedupByKey_id {a : String} {l : List String} : a ∈ dedupByKey id l ↔ a ∈ l := by
  cases l with
  | nil => simp [dedupByKey]
  | cons b l =>
      rw [dedupByKey, id_eq]
      by_cases hab : a = b
      · simp [hab]
      · rw [List.mem_cons, List.mem_cons, mem_dedupAfter_id hab]

namespace Identity

/-- The lowercase Breakpad debug-id: the key of the LRU and of the manifest. -/
def debugIdStr (i : Identity) : String :=
  String.ofList (i.debugId.breakpad.toList.map Char.toLower)

/-- Every token a module with this identity answers to. -/
def aliases (i : Identity) : List String :=
  let out := [canonicalToken i.debugIdStr, canonicalToken i.debugId.uuid.simple]
  let out := match i.rawBuildId with
    | some b => out ++ [canonicalToken b]
    | none => out
  dedupByKey id (out.insertionSort (· ≤ ·))

theorem debugIdStr_eq (i : Identity) :
    i.debugIdStr = String.ofList
      (hexChars i.debugId.uuid.bytes ++ Nat.toDigits 16 i.debugId.appendix.toNat) := by
  rw [debugIdStr, DebugId.breakpad, String.toList_ofList, List.map_append, List.map_map]
  congr 2
  · exact (List.map_congr_left fun c hc =>
      (hexChars_isHexDigit _ c hc).toLower_toUpper).trans (List.map_id _)
  · exact (List.map_congr_left fun c hc => (toDigits_isHexDigit _ c hc).toLower).trans
      (List.map_id _)

/-- The debug-id of a module is a canonical token. -/
@[simp] theorem canonicalToken_debugIdStr (i : Identity) :
    canonicalToken i.debugIdStr = i.debugIdStr := by
  rw [debugIdStr_eq]
  apply canonicalToken_ofList
  intro c hc
  rcases List.mem_append.mp hc with hc | hc
  · exact hexChars_isHexDigit _ c hc
  · exact toDigits_isHexDigit _ c hc

theorem mem_aliases {i : Identity} {t : String} :
    t ∈ i.aliases ↔ t = i.debugIdStr ∨ t = i.debugId.uuid.simple ∨
      ∃ b, i.rawBuildId = some b ∧ t = canonicalToken b := by
  have hs : canonicalToken i.debugId.uuid.simple = i.debugId.uuid.simple :=
    canonicalToken_hexEncode _
  unfold aliases
  rw [mem_dedupByKey_id, List.mem_insertionSort, canonicalToken_debugIdStr, hs]
  cases i.rawBuildId <;> simp

theorem debugIdStr_mem_aliases (i : Identity) : i.debugIdStr ∈ i.aliases :=
  mem_aliases.mpr (Or.inl rfl)

/-- A debug-id is longer than a bare UUID, by the digits of the appendix. -/
theorem debugIdStr_ne_simple (i : Identity) (u : Uuid) : i.debugIdStr ≠ u.simple := by
  intro heq
  have hlen := congrArg (fun s => s.toList.length) heq
  have hdigits : 0 < (Nat.toDigits 16 i.debugId.appendix.toNat).length :=
    List.length_pos_of_ne_nil Nat.toDigits_ne_nil
  simp only [debugIdStr_eq, Uuid.simple, hexEncode, String.toList_ofList, List.length_append,
    length_hexChars, i.debugId.uuid.length_eq, u.length_eq] at hlen
  omega

/-- Every alias of a module is a canonical token. -/
theorem canonicalToken_of_mem_aliases {i : Identity} {t : String} (h : t ∈ i.aliases) :
    canonicalToken t = t := by
  rcases mem_aliases.mp h with rfl | rfl | ⟨b, -, rfl⟩
  · exact canonicalToken_debugIdStr i
  · exact canonicalToken_hexEncode _
  · exact canonicalToken_idem b

end Identity

end VgiSymbols
