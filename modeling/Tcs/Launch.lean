/-
# The launch record

`lib/launch.c`: the public record that the host prepares for one launch of a
guest. It carries the realm and the public key of an identity and a fresh
boot identity; the mode is a constant of the build, in the last byte of the
header. Encoder and decoder make the same checks, so the decoder accepts
what the encoder wrote and returns it.

In the guest the record goes from the owner of the firmware interface
(`servers/launch_boot.c`) to the administrator (`servers/launch_admin.c`) in
message registers, and sets the administrator up.

The hexadecimal text of a key, which the check against the keys of the
fixture compares, is the text that the host writes (`hex` of
`tools/operator.c`).

Key definitions: `LaunchMode`, `Launch`, `identityValid`, `launchEncode`,
`launchDecode`, `hexText`, `launchBootProtected`, `launchAdminInit`.
Key theorems: `launchEncode_ok_iff`, `launchDecode_record`,
`launchAdminInit_record`.
-/
import Tcs.Ipc

namespace Tcs

open Ipc

/-- `enum tcs_launch_mode`. A value cast from outside the enumeration is `other`. -/
inductive LaunchMode
  | operator
  | fixture
  | other (n : ℕ)
  deriving DecidableEq, Repr

/-- The mode as it is cast to a byte. -/
def LaunchMode.byte : LaunchMode → UInt8
  | .operator => 0
  | .fixture => 1
  | .other n => UInt8.ofNat (2 + n)

/-- `struct tcs_identity`. -/
structure Identity where
  realm : Vector UInt8 32
  publicKey : Vector UInt8 32
  deriving DecidableEq

/-- `struct tcs_launch`. -/
structure Launch where
  identity : Identity
  boot : Vector UInt8 32
  deriving DecidableEq

/-- The zeroed record. -/
def Launch.zero : Launch :=
  ⟨⟨Vector.replicate 32 0, Vector.replicate 32 0⟩, Vector.replicate 32 0⟩

/-- `TCS_LAUNCH_BYTES`. -/
@[simp] abbrev launchBytes : ℕ := 112

/-- `launch_prefix`: "TCS-LAUNCH" and the version. -/
def launchPrefix : List UInt8 :=
  [0x54, 0x43, 0x53, 0x2d, 0x4c, 0x41, 0x55, 0x4e, 0x43, 0x48, 1, 0, 0, 0, 0, 0]

/-- A hexadecimal digit. -/
def hexDigit (n : UInt8) : Char := "0123456789abcdef".toList.getD n.toNat '0'

/-- `hex`. -/
def hexText (bytes : List UInt8) : List Char :=
  bytes.flatMap fun b : UInt8 => [hexDigit (b >>> 4), hexDigit (b &&& 15)]

/-- `fixtures`: the keys of the public test vectors. -/
def fixtures : List (List Char) :=
  ["d75a980182b10ab7d54bfed3c964073a0ee172f3daa62325af021a68f707511a".toList,
    "3d4017c3e843895a92b70aa74d1b7ebc9c982ccf2ec4968cc0cd55f12af4660c".toList,
    "fc51cd8e6218a1a38da47ed00230f0580816ed13ba3303ac5deb911548908025".toList]

/-- `header`. -/
def header (bytes expected : List UInt8) (mode : LaunchMode) : Bool :=
  if mode ≠ .operator ∧ mode ≠ .fixture then false
  else if Bytes.slice bytes 0 15 ≠ Bytes.slice expected 0 15 then false
  else bytes.getD 15 0 = mode.byte

/-- `identity_valid`. -/
def identityValid (identity : Identity) (mode : LaunchMode) : Bool :=
  if !nonzero identity.realm ∨ !nonzero identity.publicKey then false
  else
    let fixture := fixtures.any fun text => text = hexText identity.publicKey.toList
    if mode = .fixture then fixture else mode = .operator ∧ !fixture

/-- The bytes of a record. -/
def Launch.record (launch : Launch) (mode : LaunchMode) : List UInt8 :=
  launchPrefix.set 15 mode.byte ++ (launch.identity.realm.toList ++ (launch.boot.toList ++
    launch.identity.publicKey.toList))

/-- `tcs_launch_encode`: whether it succeeded, and the record it writes. -/
def launchEncode (launch : Launch) (mode : LaunchMode) : Bool × List UInt8 :=
  if !identityValid launch.identity mode ∨ !nonzero launch.boot then
    (false, List.replicate launchBytes 0)
  else (true, launch.record mode)

/-- `tcs_launch_decode`: whether it succeeded, and the record it returns. -/
def launchDecode (bytes : List UInt8) (mode : LaunchMode) : Bool × Launch :=
  if bytes.length ≠ launchBytes ∨ !header bytes launchPrefix mode then (false, .zero)
  else
    let launch : Launch :=
      ⟨⟨Bytes.field bytes 16 32, Bytes.field bytes 80 32⟩, Bytes.field bytes 48 32⟩
    if !identityValid launch.identity mode ∨ !nonzero launch.boot then (false, .zero)
    else (true, launch)

/-! ### The guest -/

namespace Label

@[simp] abbrev launchContext : UInt64 := 0x401
@[simp] abbrev launchData : UInt64 := 0x480

end Label

/-- The statics of `servers/launch_boot.c`. -/
structure LaunchBoot where
  bytes : List UInt8
  ready : Bool

/-- `init` of `servers/launch_boot.c`, when the firmware has handed out `bytes`. -/
def launchBootInit (mode : LaunchMode) (bytes : List UInt8) : LaunchBoot :=
  ⟨bytes, (launchDecode bytes mode).1⟩

/-- `protected` of `servers/launch_boot.c`. -/
def launchBootProtected (mr : Registers) (s : LaunchBoot) (ch : ℕ) (msg : Message) : Message :=
  if !s.ready ∨ ch ≠ 0 then tcsReply mr ⟨Status.denied, 0⟩
  else if msg.label ≠ Label.launchContext ∨ msg.count ≠ 0 then tcsReply mr ⟨Status.badMessage, 0⟩
  else ⟨Label.launchData, s.bytes.length / 8, wordsFromBytes mr s.bytes⟩

/-- What `servers/launch_admin.c` asks for. -/
def launchRequest (mr : Registers) : Message := ⟨Label.launchContext, 0, mr⟩

/-- `init` of `servers/launch_admin.c`: the administrator it leaves, after the reply. -/
def launchAdminInit (mode : LaunchMode) (reply : Message) : Admin :=
  if reply.label ≠ Label.launchData ∨ reply.count ≠ launchBytes / 8 then .zero
  else
    let (ok, launch) := launchDecode (bytesFromWords reply.mr launchBytes) mode
    if !ok then .zero
    else (adminInit .zero launch.identity.publicKey launch.identity.realm launch.boot).2

/-! ### The round trip -/

theorem identityValid_nonzero {identity : Identity} {mode : LaunchMode}
    (h : identityValid identity mode = true) :
    nonzero identity.realm = true ∧ nonzero identity.publicKey = true := by
  unfold identityValid at h
  by_cases hn : !nonzero identity.realm ∨ !nonzero identity.publicKey
  · rw [if_pos hn] at h
    cases h
  · simpa using hn

theorem identityValid_mode {identity : Identity} {mode : LaunchMode}
    (h : identityValid identity mode = true) : mode = .operator ∨ mode = .fixture := by
  cases mode with
  | operator => exact Or.inl rfl
  | fixture => exact Or.inr rfl
  | other n =>
    unfold identityValid at h
    split at h
    · cases h
    · simp at h

/-- What the encoder accepts. -/
theorem launchEncode_ok_iff {launch : Launch} {mode : LaunchMode} :
    (launchEncode launch mode).1 = true ↔
      identityValid launch.identity mode = true ∧ nonzero launch.boot = true := by
  unfold launchEncode
  by_cases h : !identityValid launch.identity mode ∨ !nonzero launch.boot
  · rw [if_pos h]
    simp only [Bool.not_eq_true'] at h
    rcases h with h | h <;> simp [h]
  · rw [if_neg h]
    simpa using h

theorem launchEncode_eq {launch : Launch} {mode : LaunchMode}
    (h : (launchEncode launch mode).1 = true) :
    launchEncode launch mode = (true, launch.record mode) := by
  obtain ⟨h1, h2⟩ := launchEncode_ok_iff.mp h
  unfold launchEncode
  rw [if_neg (by simp [h1, h2])]

@[simp] theorem Launch.length_record (launch : Launch) (mode : LaunchMode) :
    (launch.record mode).length = launchBytes := by
  simp [Launch.record, launchPrefix]

theorem Launch.header_record (launch : Launch) {mode : LaunchMode}
    (h : mode = .operator ∨ mode = .fixture) :
    header (launch.record mode) launchPrefix mode = true := by
  have hmode : ¬ (mode ≠ .operator ∧ mode ≠ .fixture) := by tauto
  unfold header
  rw [if_neg hmode, if_neg (by simp [Bytes.slice, Launch.record, launchPrefix])]
  simp [Launch.record, launchPrefix]

/-- **The launch record.** What the encoder accepts is what the decoder returns. -/
theorem launchDecode_record {launch : Launch} {mode : LaunchMode}
    (h : (launchEncode launch mode).1 = true) :
    launchDecode (launch.record mode) mode = (true, launch) := by
  obtain ⟨h1, h2⟩ := launchEncode_ok_iff.mp h
  have hrealm : Bytes.field (launch.record mode) 16 32 = launch.identity.realm :=
    Bytes.field_append (by simp [launchPrefix])
  have hboot : Bytes.field (launch.record mode) 48 32 = launch.boot := by
    unfold Launch.record
    rw [← List.append_assoc]
    exact Bytes.field_append (by simp [launchPrefix])
  have hkey : Bytes.field (launch.record mode) 80 32 = launch.identity.publicKey := by
    unfold Launch.record
    rw [← List.append_assoc, ← List.append_assoc, ← List.append_nil launch.identity.publicKey.toList]
    exact Bytes.field_append (by simp [launchPrefix])
  have hhead := launch.header_record (identityValid_mode h1)
  unfold launchDecode
  rw [if_neg (by simp [hhead]), hrealm, hboot, hkey]
  dsimp only
  rw [if_neg (by simp [h1, h2])]

/-- The administrator of a launch, before its first packet. -/
def Launch.admin (launch : Launch) : Admin :=
  ⟨launch.identity.publicKey, launch.identity.realm, launch.boot, 1, 0, true, false⟩

/-- The record sets the administrator up. -/
theorem launchAdminInit_record {launch : Launch} {mode : LaunchMode}
    (h : (launchEncode launch mode).1 = true) (mr₁ mr₂ : Registers) (noise : Noise) :
    launchAdminInit mode ((launchBootProtected mr₁ (launchBootInit mode (launch.record mode)) 0
      ((launchRequest mr₂).deliver noise.callee)).deliver noise.caller) = launch.admin := by
  obtain ⟨h1, h2⟩ := launchEncode_ok_iff.mp h
  obtain ⟨hr, hk⟩ := identityValid_nonzero h1
  have hd := launchDecode_record h
  have hlen : (launch.record mode).length = 8 * 14 := launch.length_record mode
  have hreply : launchBootProtected mr₁ (launchBootInit mode (launch.record mode)) 0
      ((launchRequest mr₂).deliver noise.callee) =
        ⟨Label.launchData, 14, wordsFromBytes mr₁ (launch.record mode)⟩ := by
    unfold launchBootProtected launchBootInit
    rw [hd, if_neg (by simp), if_neg (by simp [launchRequest])]
    simp only [hlen]
  unfold launchAdminInit
  rw [hreply, if_neg (by simp), bytesFromWords_deliver mr₁ hlen, hd]
  simp [adminInit, hk, hr, h2, Admin.zero, Launch.admin]

end Tcs
