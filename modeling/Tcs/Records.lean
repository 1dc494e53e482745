/-
# Public records and their modes

The other half of `lib/launch.c`, and the test context of `lib/boot.c`. An
identity is published on its own (`publicEncode`, `publicDecode`) or in the
record of a launch. Both records begin with a name, and the mode in the last
byte of the header; a record is accepted in the mode that its key belongs to,
which the code finds by comparing hexadecimal texts. The context of the first
test builds has a header of its own and no mode (`bootDecodeTest`).

A format is an encoder and a decoder for both modes (`RecordFormat`); what is
proved of the two formats is one statement (`RecordFormat.Exact`), which
follows from what encoder and decoder accept (`RecordFormat.Spec`).

Key definitions: `publicEncode`, `publicDecode`, `bootDecodeTest`,
`testKeys`, `keyMode`, `RecordFormat`, `RecordFormat.Exact`.
Key theorems: `identityValid_iff`, `header_iff`, `publicDecode_ok_iff`,
`launchDecode_ok_iff`, `RecordFormat.Spec.exact`, `records_exact`.
-/
import Tcs.Operator
import Tcs.Fwcfg

namespace Tcs

/-! ### The formats -/

/-- `TCS_PUBLIC_BYTES`. -/
@[simp] abbrev publicBytes : ℕ := 80
/-- `TCS_BOOT_BYTES`. -/
@[simp] abbrev bootBytes : ℕ := 112

/-- `public_prefix`: "TCS-PUB" and the version. -/
def publicPrefix : List UInt8 :=
  [0x54, 0x43, 0x53, 0x2d, 0x50, 0x55, 0x42, 1, 0, 0, 0, 0, 0, 0, 0, 0]

/-- The zeroed identity. -/
def Identity.zero : Identity := ⟨Vector.replicate 32 0, Vector.replicate 32 0⟩

/-- The bytes of a published identity. -/
def Identity.record (identity : Identity) (mode : LaunchMode) : List UInt8 :=
  publicPrefix.set 15 mode.byte ++ (identity.realm.toList ++ identity.publicKey.toList)

/-- `tcs_public_encode`: whether it succeeded, and the record it writes. -/
def publicEncode (identity : Identity) (mode : LaunchMode) : Bool × List UInt8 :=
  if !identityValid identity mode then (false, List.replicate publicBytes 0)
  else (true, identity.record mode)

/-- `tcs_public_decode`: whether it succeeded, and the identity it returns. -/
def publicDecode (bytes : List UInt8) (mode : LaunchMode) : Bool × Identity :=
  if bytes.length ≠ publicBytes ∨ !header bytes publicPrefix mode then (false, .zero)
  else
    let identity : Identity := ⟨Bytes.field bytes 16 32, Bytes.field bytes 48 32⟩
    if !identityValid identity mode then (false, .zero) else (true, identity)

/-- The prefix of a test context: "TCS-BOOT", the version and the kind. -/
def bootPrefix : List UInt8 :=
  [0x54, 0x43, 0x53, 0x2d, 0x42, 0x4f, 0x4f, 0x54, 1, 1, 0, 0, 0, 0, 0, 0]

/-- `struct tcs_boot_context`. -/
structure BootContext where
  realm : Vector UInt8 32
  boot : Vector UInt8 32
  publicKey : Vector UInt8 32
  deriving DecidableEq

/-- The zeroed context. -/
def BootContext.zero : BootContext :=
  ⟨Vector.replicate 32 0, Vector.replicate 32 0, Vector.replicate 32 0⟩

/-- `tcs_boot_decode_test`: the status and the context it returns. -/
def bootDecodeTest (bytes : List UInt8) : BootStatus × BootContext :=
  if bytes.length ≠ bootBytes then (.length, .zero)
  else if Bytes.slice bytes 0 16 ≠ bootPrefix then (.format, .zero)
  else if [16, 48, 80].any fun start => !nonzero (Bytes.field bytes start 32) then (.format, .zero)
  else (.ok, ⟨Bytes.field bytes 16 32, Bytes.field bytes 48 32, Bytes.field bytes 80 32⟩)

/-! ### Keys and modes -/

/-- The public keys of tests 1 to 3 of RFC 8032; the first is that of the grant. -/
def testKeys : List (Vector UInt8 32) :=
  [grantKey,
    ⟨[0x3d, 0x40, 0x17, 0xc3, 0xe8, 0x43, 0x89, 0x5a, 0x92, 0xb7, 0x0a, 0xa7, 0x4d, 0x1b, 0x7e, 0xbc,
      0x9c, 0x98, 0x2c, 0xcf, 0x2e, 0xc4, 0x96, 0x8c, 0xc0, 0xcd, 0x55, 0xf1, 0x2a, 0xf4, 0x66,
      0x0c].toArray, rfl⟩,
    ⟨[0xfc, 0x51, 0xcd, 0x8e, 0x62, 0x18, 0xa1, 0xa3, 0x8d, 0xa4, 0x7e, 0xd0, 0x02, 0x30, 0xf0, 0x58,
      0x08, 0x16, 0xed, 0x13, 0xba, 0x33, 0x03, 0xac, 0x5d, 0xeb, 0x91, 0x15, 0x48, 0x90, 0x80,
      0x25].toArray, rfl⟩]

/-- The mode that a key belongs to. -/
def keyMode (key : Vector UInt8 32) : LaunchMode := if key ∈ testKeys then .fixture else .operator

theorem fixtures_testKeys : fixtures = testKeys.map fun key => hexText key.toList := by
  decide +kernel

theorem hexDigit_injective {a b : UInt8} (ha : a < 16) (hb : b < 16)
    (h : hexDigit a = hexDigit b) : a = b := by
  have hn := hexNibble_hexDigit ha
  rw [h, hexNibble_hexDigit hb] at hn
  exact (Option.some.inj hn).symm

theorem hexText_injective : ∀ a b : List UInt8, hexText a = hexText b → a = b
  | [], [], _ => rfl
  | [], _ :: _, h => by simp [hexText] at h
  | _ :: _, [], h => by simp [hexText] at h
  | x :: a, y :: b, h => by
    simp only [hexText, List.flatMap_cons, List.cons_append, List.nil_append, List.cons.injEq] at h
    obtain ⟨hhigh, hlow, hrest⟩ := h
    obtain ⟨hx, hx'⟩ := byte_halves_lt x
    obtain ⟨hy, hy'⟩ := byte_halves_lt y
    have h1 := hexDigit_injective hx hy hhigh
    have h2 := hexDigit_injective hx' hy' hlow
    rw [← byte_halves x, ← byte_halves y, h1, h2, hexText_injective a b hrest]

/-- The comparison of texts is a comparison of keys. -/
theorem fixture_iff (key : Vector UInt8 32) :
    (fixtures.any fun text => text = hexText key.toList) = true ↔ key ∈ testKeys := by
  rw [List.any_eq_true, fixtures_testKeys]
  constructor
  · rintro ⟨text, hmem, heq⟩
    obtain ⟨k, hk, rfl⟩ := List.mem_map.mp hmem
    have hlist := hexText_injective _ _ (of_decide_eq_true heq)
    rwa [← Vector.toList_inj.mp hlist]
  · intro hmem
    exact ⟨_, List.mem_map.mpr ⟨key, hmem, rfl⟩, decide_eq_true rfl⟩

/-- **Identities.** One with both fields is valid in the mode of its key, and in no other. -/
theorem identityValid_iff {identity : Identity} {mode : LaunchMode} :
    identityValid identity mode = true ↔
      nonzero identity.realm = true ∧ nonzero identity.publicKey = true ∧
        mode = keyMode identity.publicKey := by
  have hfixture := fixture_iff identity.publicKey
  unfold identityValid keyMode
  by_cases hn : !nonzero identity.realm ∨ !nonzero identity.publicKey
  · rw [if_pos hn]
    refine iff_of_false (by decide) ?_
    rintro ⟨h1, h2, -⟩
    simp [h1, h2] at hn
  rw [if_neg hn]
  simp only [not_or, Bool.not_eq_true', Bool.not_eq_false] at hn
  rw [and_iff_right hn.1, and_iff_right hn.2]
  dsimp only
  by_cases hk : identity.publicKey ∈ testKeys
  · rw [hfixture.mpr hk, if_pos hk]
    by_cases hm : mode = .fixture
    · simp [hm]
    · simp [hm]
  · rw [Bool.eq_false_iff.mpr (mt hfixture.mp hk), if_neg hk]
    by_cases hm : mode = .fixture
    · simp [hm]
    · simp [hm]

theorem modeByte_injective {m m' : LaunchMode} (h : m = .operator ∨ m = .fixture)
    (h' : m' = .operator ∨ m' = .fixture) (heq : m.byte = m'.byte) : m = m' := by
  rcases h with rfl | rfl <;> rcases h' with rfl | rfl
  · rfl
  · exact absurd heq (by decide)
  · exact absurd heq (by decide)
  · rfl

theorem keyMode_cases (key : Vector UInt8 32) : keyMode key = .operator ∨ keyMode key = .fixture := by
  unfold keyMode
  split_ifs
  · exact Or.inr rfl
  · exact Or.inl rfl

/-! ### Headers -/

/-- **Headers.** The first sixteen bytes are the prefix, with the mode in the last of them. -/
theorem header_iff {bytes expected : List UInt8} {mode : LaunchMode} (hb : 16 ≤ bytes.length)
    (he : expected.length = 16) :
    header bytes expected mode = true ↔
      (mode = .operator ∨ mode = .fixture) ∧ Bytes.slice bytes 0 16 = expected.set 15 mode.byte := by
  have hslice : Bytes.slice bytes 0 16 = Bytes.slice bytes 0 15 ++ [bytes.getD 15 0] := by
    rw [Bytes.slice_add bytes 0 15 1]
    congr 1
    rw [Bytes.slice, List.drop_eq_getElem_cons (by omega), List.take_succ_cons, List.take_zero,
      List.getD_eq_getElem _ _ (by omega)]
  have hset : expected.set 15 mode.byte = Bytes.slice expected 0 15 ++ [mode.byte] := by
    rw [List.set_eq_take_append_cons_drop, if_pos (by omega), List.drop_eq_nil_of_le (by omega)]
    rfl
  have hsize : (Bytes.slice bytes 0 15).length = (Bytes.slice expected 0 15).length := by
    simp only [Bytes.slice, List.length_take, List.length_drop]
    omega
  unfold header
  by_cases hm : mode ≠ .operator ∧ mode ≠ .fixture
  · rw [if_pos hm]
    exact iff_of_false (by decide) fun h => h.1.elim hm.1 hm.2
  rw [if_neg hm, hslice, hset, and_iff_right (by tauto)]
  by_cases hp : Bytes.slice bytes 0 15 ≠ Bytes.slice expected 0 15
  · rw [if_pos hp]
    exact iff_of_false (by decide) fun h => hp (List.append_inj h hsize).1
  rw [if_neg hp, decide_eq_true_iff]
  constructor
  · intro h
    rw [not_not.mp hp, h]
  · intro h
    exact (List.cons.inj (List.append_inj h hsize).2).1

/-! ### What the decoders accept -/

theorem identityValid_keyMode {identity : Identity} {mode : LaunchMode}
    (h : identityValid identity mode = true) : mode = .operator ∨ mode = .fixture := by
  rw [(identityValid_iff.mp h).2.2]
  exact keyMode_cases _

@[simp] theorem Identity.length_record (identity : Identity) (mode : LaunchMode) :
    (identity.record mode).length = publicBytes := by
  simp [Identity.record, publicPrefix]

theorem Identity.record_fields (identity : Identity) (mode : LaunchMode) :
    Bytes.slice (identity.record mode) 0 16 = publicPrefix.set 15 mode.byte ∧
      Bytes.field (identity.record mode) 16 32 = identity.realm ∧
      Bytes.field (identity.record mode) 48 32 = identity.publicKey := by
  refine ⟨Bytes.slice_left (by simp [publicPrefix]), Bytes.field_append (by simp [publicPrefix]), ?_⟩
  unfold Identity.record
  rw [← List.append_assoc, ← List.append_nil identity.publicKey.toList]
  exact Bytes.field_append (by simp [publicPrefix])

/-- Bytes with a header are the record of what is read from them. -/
theorem Identity.record_of_header {bytes : List UInt8} {mode : LaunchMode}
    (hlen : bytes.length = publicBytes)
    (hhead : Bytes.slice bytes 0 16 = publicPrefix.set 15 mode.byte) :
    Identity.record ⟨Bytes.field bytes 16 32, Bytes.field bytes 48 32⟩ mode = bytes := by
  have hsize : bytes.length = 16 + (32 + 32) := hlen
  calc Identity.record ⟨Bytes.field bytes 16 32, Bytes.field bytes 48 32⟩ mode
      = Bytes.slice bytes 0 16 ++ (Bytes.slice bytes 16 32 ++ Bytes.slice bytes 48 32) := by
        unfold Identity.record
        rw [hhead, Bytes.toList_field (by omega), Bytes.toList_field (by omega)]
    _ = Bytes.slice bytes 0 (16 + (32 + 32)) := by rw [Bytes.slice_add, Bytes.slice_add]
    _ = bytes := Bytes.slice_all hsize

/-- **Published identities.** The decoder accepts the records of valid identities and no others. -/
theorem publicDecode_ok_iff {bytes : List UInt8} {mode : LaunchMode} {identity : Identity} :
    publicDecode bytes mode = (true, identity) ↔
      identityValid identity mode = true ∧ bytes = identity.record mode := by
  unfold publicDecode
  constructor
  · intro h
    by_cases hguard : bytes.length ≠ publicBytes ∨ !header bytes publicPrefix mode
    · rw [if_pos hguard] at h
      exact absurd (congrArg Prod.fst h) Bool.false_ne_true
    rw [if_neg hguard] at h
    simp only [not_or, not_not, Bool.not_eq_true', Bool.not_eq_false] at hguard
    obtain ⟨hlen, hhead⟩ := hguard
    have hsize : 16 ≤ bytes.length := by
      rw [hlen]
      decide
    dsimp only at h
    by_cases hvalid : (!identityValid ⟨Bytes.field bytes 16 32, Bytes.field bytes 48 32⟩ mode) = true
    · rw [if_pos hvalid] at h
      exact absurd (congrArg Prod.fst h) Bool.false_ne_true
    · rw [if_neg hvalid] at h
      obtain ⟨-, rfl⟩ := Prod.mk.inj h
      exact ⟨by simpa using hvalid,
        (Identity.record_of_header hlen ((header_iff hsize rfl).mp hhead).2).symm⟩
  · rintro ⟨hvalid, rfl⟩
    obtain ⟨hslice, hrealm, hkey⟩ := identity.record_fields mode
    have hhead : header (identity.record mode) publicPrefix mode = true :=
      (header_iff (by simp) rfl).mpr ⟨identityValid_keyMode hvalid, hslice⟩
    rw [if_neg (by simp [hhead])]
    dsimp only
    rw [hrealm, hkey, if_neg (by simp [hvalid])]

theorem Launch.record_of_header {bytes : List UInt8} {mode : LaunchMode}
    (hlen : bytes.length = launchBytes)
    (hhead : Bytes.slice bytes 0 16 = launchPrefix.set 15 mode.byte) :
    Launch.record ⟨⟨Bytes.field bytes 16 32, Bytes.field bytes 80 32⟩, Bytes.field bytes 48 32⟩ mode =
      bytes := by
  have hsize : bytes.length = 16 + (32 + (32 + 32)) := hlen
  calc Launch.record ⟨⟨Bytes.field bytes 16 32, Bytes.field bytes 80 32⟩, Bytes.field bytes 48 32⟩ mode
      = Bytes.slice bytes 0 16 ++
          (Bytes.slice bytes 16 32 ++ (Bytes.slice bytes 48 32 ++ Bytes.slice bytes 80 32)) := by
        unfold Launch.record
        rw [hhead, Bytes.toList_field (by omega), Bytes.toList_field (by omega),
          Bytes.toList_field (by omega)]
    _ = Bytes.slice bytes 0 (16 + (32 + (32 + 32))) := by
        rw [Bytes.slice_add, Bytes.slice_add, Bytes.slice_add]
    _ = bytes := Bytes.slice_all hsize

/-- **Launch records.** The decoder accepts the records of valid launches and no others. -/
theorem launchDecode_ok_iff {bytes : List UInt8} {mode : LaunchMode} {launch : Launch} :
    launchDecode bytes mode = (true, launch) ↔
      (identityValid launch.identity mode = true ∧ nonzero launch.boot = true) ∧
        bytes = launch.record mode := by
  constructor
  · intro h
    unfold launchDecode at h
    by_cases hguard : bytes.length ≠ launchBytes ∨ !header bytes launchPrefix mode
    · rw [if_pos hguard] at h
      exact absurd (congrArg Prod.fst h) Bool.false_ne_true
    rw [if_neg hguard] at h
    simp only [not_or, not_not, Bool.not_eq_true', Bool.not_eq_false] at hguard
    obtain ⟨hlen, hhead⟩ := hguard
    have hsize : 16 ≤ bytes.length := by
      rw [hlen]
      decide
    dsimp only at h
    by_cases hvalid : !identityValid ⟨Bytes.field bytes 16 32, Bytes.field bytes 80 32⟩ mode ∨
        !nonzero (Bytes.field bytes 48 32)
    · rw [if_pos hvalid] at h
      exact absurd (congrArg Prod.fst h) Bool.false_ne_true
    rw [if_neg hvalid] at h
    obtain ⟨-, rfl⟩ := Prod.mk.inj h
    simp only [not_or, Bool.not_eq_true', Bool.not_eq_false] at hvalid
    exact ⟨hvalid, (Launch.record_of_header hlen ((header_iff hsize rfl).mp hhead).2).symm⟩
  · rintro ⟨hvalid, rfl⟩
    exact launchDecode_record (launchEncode_ok_iff.mpr hvalid)

/-! ### Formats -/

/-- A format for records of the type `ρ`: encoder and decoder, the size and the zeroed record that
they leave when they refuse, the key of a record and its place in the bytes, and whether all fields
of a record are there. -/
structure RecordFormat (ρ : Type*) where
  encode : ρ → LaunchMode → Bool × List UInt8
  decode : List UInt8 → LaunchMode → Bool × ρ
  size : ℕ
  zero : ρ
  key : ρ → Vector UInt8 32
  keyPlace : ℕ
  full : ρ → Bool

/-- The format of a published identity. -/
def publicFormat : RecordFormat Identity where
  encode := publicEncode
  decode := publicDecode
  size := publicBytes
  zero := .zero
  key identity := identity.publicKey
  keyPlace := 48
  full identity := nonzero identity.realm && nonzero identity.publicKey

/-- The format of a launch. -/
def launchFormat : RecordFormat Launch where
  encode := launchEncode
  decode := launchDecode
  size := launchBytes
  zero := .zero
  key launch := launch.identity.publicKey
  keyPlace := 80
  full launch :=
    nonzero launch.identity.realm && nonzero launch.identity.publicKey && nonzero launch.boot

namespace RecordFormat

variable {ρ : Type*}

/-- A format whose encoder accepts the full records in the mode of their key, and whose decoder
accepts what the encoder writes; `record` tells the bytes, with the mode in byte 15. -/
structure Spec (f : RecordFormat ρ) (record : ρ → LaunchMode → List UInt8) : Prop where
  encode : ∀ r m, f.encode r m =
    if f.full r = true ∧ m = keyMode (f.key r) then (true, record r m)
    else (false, List.replicate f.size 0)
  decode : ∀ b m r, f.decode b m = (true, r) ↔
    (f.full r = true ∧ m = keyMode (f.key r)) ∧ b = record r m
  refuse : ∀ b m, (f.decode b m).1 = false → (f.decode b m).2 = f.zero
  mode : ∀ r m, (record r m).getD 15 0 = m.byte
  key : ∀ r m, Bytes.field (record r m) f.keyPlace 32 = f.key r

/-- What is claimed of a format. -/
structure Exact (f : RecordFormat ρ) : Prop where
  roundTrip : ∀ r m b, f.encode r m = (true, b) → f.decode b m = (true, r)
  canonical : ∀ r m b, f.decode b m = (true, r) → f.encode r m = (true, b)
  oneMode : ∀ b m m', (f.decode b m).1 = true → (f.decode b m').1 = true → m = m'
  encodeMode : ∀ r m, (f.encode r m).1 = true → m = keyMode (f.key r)
  decodeMode : ∀ b m, (f.decode b m).1 = true → m = keyMode (Bytes.field b f.keyPlace 32)
  accepts : ∀ r, f.full r = true → (f.encode r (keyMode (f.key r))).1 = true
  encodeZero : ∀ r m, (f.encode r m).1 = false → (f.encode r m).2 = List.replicate f.size 0
  decodeZero : ∀ b m, (f.decode b m).1 = false → (f.decode b m).2 = f.zero

theorem Spec.encode_ok_iff {f : RecordFormat ρ} {record : ρ → LaunchMode → List UInt8}
    (h : f.Spec record) {r : ρ} {m : LaunchMode} {b : List UInt8} :
    f.encode r m = (true, b) ↔ (f.full r = true ∧ m = keyMode (f.key r)) ∧ b = record r m := by
  rw [h.encode]
  by_cases hr : f.full r = true ∧ m = keyMode (f.key r)
  · rw [if_pos hr, and_iff_right hr, Prod.mk.injEq, and_iff_right rfl]
    exact eq_comm
  · rw [if_neg hr]
    exact iff_of_false (fun heq => Bool.false_ne_true (congrArg Prod.fst heq)) fun h => hr h.1

theorem Spec.decode_fst {f : RecordFormat ρ} {record : ρ → LaunchMode → List UInt8}
    (h : f.Spec record) {b : List UInt8} {m : LaunchMode} (hok : (f.decode b m).1 = true) :
    ∃ r, (f.full r = true ∧ m = keyMode (f.key r)) ∧ b = record r m :=
  ⟨_, (h.decode b m _).mp (Prod.ext hok rfl)⟩

/-- **A format with a specification is exact.** -/
theorem Spec.exact {f : RecordFormat ρ} {record : ρ → LaunchMode → List UInt8} (h : f.Spec record) :
    f.Exact where
  roundTrip r m b hb := (h.decode b m r).mpr (h.encode_ok_iff.mp hb)
  canonical r m b hb := h.encode_ok_iff.mpr ((h.decode b m r).mp hb)
  oneMode b m m' hm hm' := by
    obtain ⟨r, ⟨-, hkey⟩, rfl⟩ := h.decode_fst hm
    obtain ⟨r', ⟨-, hkey'⟩, heq⟩ := h.decode_fst hm'
    refine modeByte_injective (hkey ▸ keyMode_cases _) (hkey' ▸ keyMode_cases _) ?_
    calc m.byte = (record r m).getD 15 0 := (h.mode r m).symm
      _ = (record r' m').getD 15 0 := by rw [heq]
      _ = m'.byte := h.mode r' m'
  encodeMode r m hok := (h.encode_ok_iff.mp (Prod.ext hok rfl)).1.2
  decodeMode b m hok := by
    obtain ⟨r, ⟨-, hkey⟩, rfl⟩ := h.decode_fst hok
    rw [h.key]
    exact hkey
  accepts r hr := by
    rw [h.encode, if_pos ⟨hr, rfl⟩]
  encodeZero r m hno := by
    rw [h.encode] at hno ⊢
    by_cases hr : f.full r = true ∧ m = keyMode (f.key r)
    · rw [if_pos hr] at hno
      cases hno
    · rw [if_neg hr]
  decodeZero := h.refuse

end RecordFormat

/-- The bytes of a record whose first sixteen are a header end the header with the mode. -/
theorem mode_of_header {bytes expected : List UInt8} {mode : LaunchMode} (he : expected.length = 16)
    (h : Bytes.slice bytes 0 16 = expected.set 15 mode.byte) : bytes.getD 15 0 = mode.byte := by
  have hbyte : (Bytes.slice bytes 0 16).getD 15 0 = bytes.getD 15 0 := by
    rw [Bytes.slice, List.drop_zero, List.getD_eq_getElem?_getD, List.getElem?_take_of_lt (by decide),
      List.getD_eq_getElem?_getD]
  rw [← hbyte, h, List.getD_eq_getElem?_getD, List.getElem?_set_self (by omega)]
  rfl

theorem publicFormat_valid {identity : Identity} {mode : LaunchMode} :
    publicFormat.full identity = true ∧ mode = keyMode (publicFormat.key identity) ↔
      identityValid identity mode = true := by
  rw [identityValid_iff, ← and_assoc]
  exact and_congr_left' Bool.and_eq_true_iff

theorem publicFormat_spec : publicFormat.Spec Identity.record where
  encode identity mode := by
    show publicEncode identity mode = _
    unfold publicEncode
    by_cases h : identityValid identity mode = true
    · rw [if_neg (by simp [h]), if_pos (publicFormat_valid.mpr h)]
    · rw [if_pos (by simpa using h), if_neg (mt publicFormat_valid.mp h)]
      rfl
  decode b mode identity := by
    rw [publicFormat_valid]
    exact publicDecode_ok_iff
  refuse b mode h := by
    change (publicDecode b mode).1 = false at h
    show (publicDecode b mode).2 = .zero
    unfold publicDecode at h ⊢
    dsimp only at h ⊢
    split_ifs at h ⊢
    · rfl
    · rfl
  mode identity mode := mode_of_header rfl (identity.record_fields mode).1
  key identity mode := (identity.record_fields mode).2.2

theorem launchFormat_valid {launch : Launch} {mode : LaunchMode} :
    launchFormat.full launch = true ∧ mode = keyMode (launchFormat.key launch) ↔
      identityValid launch.identity mode = true ∧ nonzero launch.boot = true := by
  have hfull : launchFormat.full launch = true ↔
      (nonzero launch.identity.realm = true ∧ nonzero launch.identity.publicKey = true) ∧
        nonzero launch.boot = true := by
    rw [← Bool.and_eq_true, ← Bool.and_eq_true]
    rfl
  rw [identityValid_iff, hfull]
  constructor
  · rintro ⟨⟨⟨h1, h2⟩, h3⟩, h4⟩
    exact ⟨⟨h1, h2, h4⟩, h3⟩
  · rintro ⟨⟨h1, h2, h4⟩, h3⟩
    exact ⟨⟨⟨h1, h2⟩, h3⟩, h4⟩

theorem Launch.record_fields (launch : Launch) (mode : LaunchMode) :
    Bytes.slice (launch.record mode) 0 16 = launchPrefix.set 15 mode.byte ∧
      Bytes.field (launch.record mode) 80 32 = launch.identity.publicKey := by
  refine ⟨Bytes.slice_left (by simp [launchPrefix]), ?_⟩
  unfold Launch.record
  rw [← List.append_assoc, ← List.append_assoc, ← List.append_nil launch.identity.publicKey.toList]
  exact Bytes.field_append (by simp [launchPrefix])

theorem launchFormat_spec : launchFormat.Spec Launch.record where
  encode launch mode := by
    show launchEncode launch mode = _
    by_cases h : identityValid launch.identity mode = true ∧ nonzero launch.boot = true
    · rw [if_pos (launchFormat_valid.mpr h)]
      exact launchEncode_eq (launchEncode_ok_iff.mpr h)
    · rw [if_neg (mt launchFormat_valid.mp h)]
      refine if_pos ?_
      rw [not_and_or, Bool.not_eq_true, Bool.not_eq_true] at h
      simpa using h
  decode b mode launch := by
    rw [launchFormat_valid]
    exact launchDecode_ok_iff
  refuse b mode h := by
    change (launchDecode b mode).1 = false at h
    show (launchDecode b mode).2 = .zero
    unfold launchDecode at h ⊢
    dsimp only at h ⊢
    split_ifs at h ⊢
    · rfl
    · rfl
  mode launch mode := mode_of_header rfl (launch.record_fields mode).1
  key launch mode := (launch.record_fields mode).2

/-! ### Three decoders -/

theorem bootDecodeTest_ok {bytes : List UInt8} (h : (bootDecodeTest bytes).1 = .ok) :
    bytes.length = bootBytes ∧ Bytes.slice bytes 0 16 = bootPrefix := by
  unfold bootDecodeTest at h
  by_cases hlen : bytes.length ≠ bootBytes
  · rw [if_pos hlen] at h
    cases h
  rw [if_neg hlen] at h
  by_cases hprefix : Bytes.slice bytes 0 16 ≠ bootPrefix
  · rw [if_pos hprefix] at h
    cases h
  · exact ⟨not_not.mp hlen, not_not.mp hprefix⟩

theorem bootDecodeTest_refused {bytes : List UInt8} (h : (bootDecodeTest bytes).1 ≠ .ok) :
    (bootDecodeTest bytes).2 = .zero := by
  unfold bootDecodeTest at h ⊢
  split_ifs at h ⊢
  · rfl
  · rfl
  · rfl
  · exact absurd rfl h

/-- What two decoders accept differs in its length or in its name. -/
theorem publicDecode_length {bytes : List UInt8} {mode : LaunchMode}
    (h : (publicDecode bytes mode).1 = true) : bytes.length = publicBytes := by
  obtain ⟨identity, -, rfl⟩ := publicFormat_spec.decode_fst h
  exact identity.length_record mode

theorem launchDecode_header {bytes : List UInt8} {mode : LaunchMode}
    (h : (launchDecode bytes mode).1 = true) :
    bytes.length = launchBytes ∧ Bytes.slice bytes 0 16 = launchPrefix.set 15 mode.byte := by
  obtain ⟨launch, -, rfl⟩ := launchFormat_spec.decode_fst h
  exact ⟨launch.length_record mode, (launch.record_fields mode).1⟩

/-- **Records round-trip and modes are disjoint.** Both formats are exact; no string is accepted by
two of the three decoders, in any modes; and a test context that is refused is zeroed. -/
theorem records_exact :
    publicFormat.Exact ∧ launchFormat.Exact ∧
      (∀ bytes mode mode', (publicDecode bytes mode).1 = true →
        (launchDecode bytes mode').1 = false ∧ (bootDecodeTest bytes).1 ≠ .ok) ∧
      (∀ bytes mode, (launchDecode bytes mode).1 = true → (bootDecodeTest bytes).1 ≠ .ok) ∧
      ∀ bytes, (bootDecodeTest bytes).1 ≠ .ok → (bootDecodeTest bytes).2 = .zero := by
  refine ⟨publicFormat_spec.exact, launchFormat_spec.exact, fun bytes mode mode' h => ⟨?_, ?_⟩,
    fun bytes mode h hboot => ?_, fun bytes => bootDecodeTest_refused⟩
  · have hlen := publicDecode_length h
    rw [← Bool.not_eq_true]
    intro hlaunch
    exact absurd (hlen.symm.trans (launchDecode_header hlaunch).1) (by decide)
  · have hlen := publicDecode_length h
    intro hboot
    exact absurd (hlen.symm.trans (bootDecodeTest_ok hboot).1) (by decide)
  · have hname := (launchDecode_header h).2.symm.trans (bootDecodeTest_ok hboot).2
    have hbyte := congrArg (·.getD 4 0) hname
    exact absurd (show (0x4c : UInt8) = 0x42 from hbyte) (by decide)

end Tcs
