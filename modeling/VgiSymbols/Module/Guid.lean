import VgiSymbols.Core.Module

set_option autoImplicit false

/-! # Image and PDB of one build

A PE image and its PDB carry the same GUID and age. Three byte orders meet in their keys: the
files store the fields of the GUID little-endian, a UUID is written in network order, and the raw
build-id of an image is the hex of the stored bytes. The debug-ids agree all the same
(`debugId_eq`), but the PDB's raw build-id is the hex of its UUID, so that the image has an alias
that the PDB lacks, unless the two orders read the same (`sameKeys_iff`).
-/

namespace VgiSymbols

open Unwind

/-! ## The byte orders of a GUID -/

/-- The fields of a GUID. -/
structure GuidFields where
  data1 : UInt32
  data2 : UInt16
  data3 : UInt16
  data4 : Bytes
  length_eq : data4.length = 8

/-- The number with the given bytes, the least significant first. -/
def ofBytesLE : Bytes → Nat
  | [] => 0
  | b :: bytes => b.toNat + 256 * ofBytesLE bytes

/-- The `n` low bytes of a number, the most significant first. -/
def toBytesBE : Nat → Nat → Bytes
  | 0, _ => []
  | n + 1, x => toBytesBE n (x / 256) ++ [UInt8.ofNat x]

theorem length_toBytesBE (n x : Nat) : (toBytesBE n x).length = n := by
  induction n generalizing x with
  | zero => rfl
  | succ n ih => rw [toBytesBE, List.length_append, ih, List.length_singleton]

theorem ofBytesLE_lt (bytes : Bytes) : ofBytesLE bytes < 2 ^ (8 * bytes.length) := by
  induction bytes with
  | nil => exact Nat.one_pos
  | cons b bytes ih =>
      have hb := b.toNat_lt
      rw [ofBytesLE, List.length_cons, Nat.mul_succ, Nat.pow_add]
      omega

/-- Decoding in one order and encoding in the other reverses the bytes. -/
theorem toBytesBE_ofBytesLE (bytes : Bytes) :
    toBytesBE bytes.length (ofBytesLE bytes) = bytes.reverse := by
  induction bytes with
  | nil => rfl
  | cons b bytes ih =>
      have hb := b.toNat_lt
      have hdiv : ofBytesLE (b :: bytes) / 256 = ofBytesLE bytes := by
        rw [ofBytesLE]
        omega
      have hlow : UInt8.ofNat (ofBytesLE (b :: bytes)) = b := by
        apply UInt8.toNat_inj.mp
        rw [UInt8.toNat_ofNat', ofBytesLE]
        omega
      rw [List.length_cons, toBytesBE, hdiv, hlow, ih, List.reverse_cons]

/-- The fields of a GUID as stored in a file. -/
def Uuid.fields (stored : Uuid) : GuidFields where
  data1 := UInt32.ofNat (ofBytesLE (stored.bytes.take 4))
  data2 := UInt16.ofNat (ofBytesLE ((stored.bytes.drop 4).take 2))
  data3 := UInt16.ofNat (ofBytesLE ((stored.bytes.drop 6).take 2))
  data4 := stored.bytes.drop 8
  length_eq := by rw [List.length_drop, stored.length_eq]

/-- `Uuid::from_fields`: the fields in network order. -/
def Uuid.fromFields (f : GuidFields) : Uuid where
  bytes := toBytesBE 4 f.data1.toNat ++ toBytesBE 2 f.data2.toNat ++ toBytesBE 2 f.data3.toNat
    ++ f.data4
  length_eq := by simp [length_toBytesBE, f.length_eq]

theorem Uuid.eq_of_bytes {u v : Uuid} (h : u.bytes = v.bytes) : u = v := by
  cases u
  cases v
  cases h
  rfl

/-- The UUID of a stored GUID has its first three fields reversed. -/
theorem Uuid.bytes_fromFields (stored : Uuid) :
    (Uuid.fromFields stored.fields).bytes = swapGuid stored.bytes := by
  have hfield : ∀ {bytes : Bytes} {n : Nat} {x : Nat}, bytes.length = n →
      x = ofBytesLE bytes % 2 ^ (8 * n) → toBytesBE n x = bytes.reverse := by
    rintro bytes n x rfl rfl
    rw [Nat.mod_eq_of_lt (ofBytesLE_lt bytes), toBytesBE_ofBytesLE]
  obtain ⟨bytes, hlen⟩ := stored
  match bytes, hlen with
  | a :: b :: c :: d :: e :: f :: g :: h :: rest, hlen =>
      have h₁ : toBytesBE 4 (UInt32.ofNat (ofBytesLE [a, b, c, d])).toNat = [a, b, c, d].reverse :=
        hfield rfl UInt32.toNat_ofNat'
      have h₂ : toBytesBE 2 (UInt16.ofNat (ofBytesLE [e, f])).toNat = [e, f].reverse :=
        hfield rfl UInt16.toNat_ofNat'
      have h₃ : toBytesBE 2 (UInt16.ofNat (ofBytesLE [g, h])).toNat = [g, h].reverse :=
        hfield rfl UInt16.toNat_ofNat'
      show toBytesBE 4 (UInt32.ofNat (ofBytesLE [a, b, c, d])).toNat
          ++ toBytesBE 2 (UInt16.ofNat (ofBytesLE [e, f])).toNat
          ++ toBytesBE 2 (UInt16.ofNat (ofBytesLE [g, h])).toNat ++ rest = _
      rw [h₁, h₂, h₃]
      rfl

/-! ## The two identities -/

/-- The file is a PE image whose CodeView record holds the GUID, as stored, and the age. -/
def ImageHolds (rd : Readers) (data : Bytes) (guid : Uuid) (age : UInt32) : Prop :=
  ∃ kind obj, rd.fileKind data = .returned (.ok kind) ∧ containerFormat kind = .ok .pe ∧
    rd.parseObject data = .returned (.ok obj) ∧ obj.pdbInfo = .returned (.ok (some ⟨guid, age⟩))

/-- The file is a PDB whose information stream holds the GUID, told as the UUID of its fields, and
the age. -/
def PdbHolds (rd : Readers) (data : Bytes) (guid : Uuid) (age : UInt32) : Prop :=
  ∃ pdb, rd.openPdb data = .returned (.ok pdb) ∧
    pdb.pdbInformation = .returned (.ok ⟨Uuid.fromFields guid.fields, age⟩)

variable {rd : Readers} {image pdb : Bytes} {guid : Uuid} {age : UInt32} {i j : Identity}

theorem ImageHolds.identity (h : ImageHolds rd image guid age)
    (hi : (identityFromObject rd image).run = .returned (.ok i)) :
    i.debugId = DebugId.fromGuidAge guid age ∧ i.rawBuildId = some (hexEncode guid.bytes) := by
  obtain ⟨kind, obj, hkind, hformat, hobj, hcv⟩ := h
  obtain ⟨kind', hkind', hi⟩ := run_bind_eq_ok.mp hi
  obtain ⟨format', hformat', hi⟩ := run_bind_eq_ok.mp hi
  obtain ⟨obj', hobj', hi⟩ := run_bind_eq_ok.mp hi
  obtain ⟨arch, -, hi⟩ := run_bind_eq_ok.mp hi
  obtain ⟨base, -, hi⟩ := run_bind_eq_ok.mp hi
  obtain ⟨ids, hids, hi⟩ := run_bind_eq_ok.mp hi
  rw [run_mapErr_eq_ok, hkind] at hkind'
  cases hkind'
  have hpe : Except.ok format' = containerFormat kind := (Unwind.returned.inj hformat').symm
  rw [hformat] at hpe
  cases hpe
  rw [run_mapErr_eq_ok, hobj] at hobj'
  cases hobj'
  obtain ⟨cv, hcv', hids⟩ := run_bind_eq_ok.mp hids
  rw [hcv] at hcv'
  cases hcv'
  cases hids
  cases hi
  exact ⟨rfl, rfl⟩

theorem PdbHolds.identity (h : PdbHolds rd pdb guid age)
    (hj : (pdbIdentity rd pdb).run = .returned (.ok j)) :
    j.debugId = DebugId.fromParts (Uuid.fromFields guid.fields) age ∧
      j.rawBuildId = some (hexEncode (Uuid.fromFields guid.fields).bytes) := by
  obtain ⟨p, hp, hinfo⟩ := h
  obtain ⟨p', hp', hj⟩ := run_bind_eq_ok.mp hj
  rw [openPdb, run_mapErr_eq_ok, hp] at hp'
  cases hp'
  obtain ⟨info, hinfo', hj⟩ := run_bind_eq_ok.mp hj
  rw [run_mapErr_eq_ok, hinfo] at hinfo'
  cases hinfo'
  obtain ⟨machine, -, hj⟩ := run_bind_eq_ok.mp hj
  cases hj
  exact ⟨rfl, rfl⟩

/-- Both derivations of a PDB's identity. -/
def PdbIdentity (rd : Readers) (data : Bytes) (j : Identity) : Prop :=
  (pdbIdentity rd data).run = .returned (.ok j) ∨
    ∃ name m, (PdbModule.parse rd data name).run = .returned (.ok m) ∧ m.identity = j

theorem PdbIdentity.run (h : PdbIdentity rd pdb j) :
    (pdbIdentity rd pdb).run = .returned (.ok j) := by
  rcases h with h | ⟨name, m, h, rfl⟩
  · exact h
  · exact (PdbModule.parse_eq_ok.mp h).identity_eq

/-! ## The keys -/

/-- The two modules have the same debug-id and answer to the same tokens. -/
structure SameKeys (i j : Identity) : Prop where
  debugId : i.debugId = j.debugId
  aliases : ∀ t, t ∈ i.aliases ↔ t ∈ j.aliases

/-- Network order on both sides: the debug-ids agree. -/
theorem debugId_eq (guid : Uuid) (age : UInt32) :
    DebugId.fromGuidAge guid age = DebugId.fromParts (Uuid.fromFields guid.fields) age := by
  have huuid : (DebugId.fromGuidAge guid age).uuid = Uuid.fromFields guid.fields :=
    Uuid.eq_of_bytes guid.bytes_fromFields.symm
  exact congrArg (DebugId.mk · age) huuid

/-- **Exactly when an image and its PDB share their keys**: when the stored GUID reads the same in
both byte orders. -/
theorem sameKeys_iff (rd : Readers) (image pdb : Bytes) {guid : Uuid} {age : UInt32}
    {i j : Identity} (himage : ImageHolds rd image guid age) (hpdb : PdbHolds rd pdb guid age)
    (hi : (identityFromObject rd image).run = .returned (.ok i)) (hj : PdbIdentity rd pdb j) :
    SameKeys i j ↔ swapGuid guid.bytes = guid.bytes := by
  obtain ⟨hid, hraw⟩ := himage.identity hi
  obtain ⟨hid', hraw'⟩ := hpdb.identity hj.run
  have hsame : i.debugId = j.debugId := by rw [hid, hid', debugId_eq]
  have hstr : i.debugIdStr = j.debugIdStr := by
    rw [Identity.debugIdStr, Identity.debugIdStr, hsame]
  have huuid : j.debugId.uuid.bytes = swapGuid guid.bytes := by
    rw [hid']
    exact guid.bytes_fromFields
  have hswap : (Uuid.fromFields guid.fields).bytes = swapGuid guid.bytes := guid.bytes_fromFields
  constructor
  · intro h
    -- The image answers to the hex of the stored bytes, so the PDB has to.
    have hmem : hexEncode guid.bytes ∈ j.aliases :=
      (h.aliases _).mp (Identity.mem_aliases.mpr
        (Or.inr (Or.inr ⟨_, hraw, (canonicalToken_hexEncode _).symm⟩)))
    rcases Identity.mem_aliases.mp hmem with heq | heq | ⟨b, hb, heq⟩
    · exact absurd heq.symm (j.debugIdStr_ne_simple guid)
    · rw [← huuid]
      exact (hexEncode_injective heq).symm
    · rw [hraw'] at hb
      cases hb
      rw [canonicalToken_hexEncode, hswap] at heq
      exact (hexEncode_injective heq).symm
  · intro h
    refine ⟨hsame, fun t => ?_⟩
    rw [Identity.mem_aliases, Identity.mem_aliases, hstr, hsame, hraw, hraw', hswap, h]

/-! ## Stand-ins -/

namespace StandIn

/-- The first bytes of an image. -/
def imageMagic : Bytes := [0x4d, 0x5a]

/-- A file that begins as an image is the image, and one that begins as a PDB is the PDB of the
build with the given GUID and age. -/
def windowsReaders (guid : Uuid) (age : UInt32) : Readers :=
  { readers with
    fileKind := fun data =>
      .returned (if imageMagic.isPrefixOf data then .ok .pe64 else .error "Unknown file magic")
    parseObject := fun data =>
      .returned (if imageMagic.isPrefixOf data then
        .ok { object 1 [] with pdbInfo := .returned (.ok (some ⟨guid, age⟩)) }
      else .error "Unknown file magic")
    openPdb := fun data =>
      .returned (if isPdb data then
        .ok
          { pdbInformation := .returned (.ok ⟨Uuid.fromFields guid.fields, age⟩)
            machineType := .returned (some .amd64)
            contextData := .returned (.error "no streams") }
      else .error "not a PDB") }

/-- A GUID that reads the same in both byte orders. -/
def symmetricGuid : Uuid := ⟨List.replicate 16 0x11, rfl⟩

/-- The bytes 0 to 15. -/
def countingGuid : Uuid := ⟨(List.range 16).map UInt8.ofNat, rfl⟩

end StandIn

/-- An image and a PDB with the GUID `1111..`. -/
theorem sameKeys_symmetricGuid :
    SameKeys
      ⟨.pe, "x86_64", DebugId.fromGuidAge StandIn.symmetricGuid 1,
        some (hexEncode StandIn.symmetricGuid.bytes), none, 0⟩
      ⟨.pdb, "x86_64", DebugId.fromParts (Uuid.fromFields StandIn.symmetricGuid.fields) 1,
        some (hexEncode (Uuid.fromFields StandIn.symmetricGuid.fields).bytes), none, 0⟩ :=
  (sameKeys_iff (StandIn.windowsReaders StandIn.symmetricGuid 1) StandIn.imageMagic pdbMagic
    ⟨.pe64, _, rfl, rfl, rfl, rfl⟩ ⟨_, rfl, rfl⟩ rfl (Or.inl rfl)).mpr (by decide)

/-- The image with the GUID `000102..` answers to the hex of its bytes, the PDB does not. -/
theorem not_sameKeys_countingGuid :
    ¬ ∀ (rd : Readers) (image pdb : Bytes) (guid : Uuid) (age : UInt32) (i j : Identity),
      ImageHolds rd image guid age → PdbHolds rd pdb guid age →
        (identityFromObject rd image).run = .returned (.ok i) → PdbIdentity rd pdb j →
          SameKeys i j := by
  intro h
  have h₁ := h (StandIn.windowsReaders StandIn.countingGuid 1) StandIn.imageMagic pdbMagic
    StandIn.countingGuid 1 _ _ ⟨.pe64, _, rfl, rfl, rfl, rfl⟩ ⟨_, rfl, rfl⟩ rfl (Or.inl rfl)
  have hmem := (h₁.aliases (hexEncode StandIn.countingGuid.bytes)).mp
  revert hmem
  decide +kernel

end VgiSymbols
