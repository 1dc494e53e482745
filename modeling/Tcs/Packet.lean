/-
# The signed packet

The 128 bytes that an operator signs, read in both directions.
`tcs_admin_encode` writes them and `tcs_admin_admit` reads them back field by
field; each field has its own offset on either side. What is admitted is what
the encoder writes for the command that is handed out, what the encoder
writes is admitted, and one message has one reading, so a signature binds
one command for one realm and one boot.

An instance keeps the realm and the boot that it was set up with, which are
not zero (`ContextOk`): the encoder does not refuse them.

Key definitions: `Idle`, `ContextOk`.
Key theorems: `message_of_packet`, `adminMessage_injective`,
`contextOk_run`, `packet_canonical`.
-/
import Tcs.Admission

namespace Tcs

/-! ### A packet is a message and a signature -/

/-- **The signed bytes of a packet** are the message of the command that is read from it. -/
theorem message_of_packet {realm boot : Vector UInt8 32} {p : List UInt8} (hl : p.length = 192)
    (hd : Bytes.slice p 0 16 = adminDomain) (hr : Bytes.slice p 16 32 = realm.toList)
    (hb : Bytes.slice p 48 32 = boot.toList) :
    adminMessage realm boot (packetCommand p) = p.take 128 := by
  have hword : ∀ offset, offset + 8 ≤ 192 →
      Bytes.store64 (Bytes.load64 (p.drop offset)) = Bytes.slice p offset 8 :=
    fun offset h => Bytes.store64_slice (by omega)
  unfold adminMessage packetCommand
  rw [← hd, ← hr, ← hb, hword 80 (by omega), hword 88 (by omega), hword 96 (by omega),
    hword 104 (by omega), hword 112 (by omega), hword 120 (by omega)]
  calc Bytes.slice p 0 16 ++ (Bytes.slice p 16 32 ++ (Bytes.slice p 48 32 ++ (Bytes.slice p 80 8 ++
        (Bytes.slice p 88 8 ++ (Bytes.slice p 96 8 ++ (Bytes.slice p 104 8 ++
          (Bytes.slice p 112 8 ++ Bytes.slice p 120 8)))))))
      = Bytes.slice p 0 (16 + (32 + (32 + (8 + (8 + (8 + (8 + (8 + 8)))))))) := by
        simp only [Bytes.slice_add]
    _ = p.take 128 := rfl

/-- **A message has one reading.** -/
theorem adminMessage_injective {realm realm' boot boot' : Vector UInt8 32} {c c' : AdminCommand}
    (hc : c.request.generation = 0) (hc' : c'.request.generation = 0)
    (h : adminMessage realm boot c = adminMessage realm' boot' c') :
    realm = realm' ∧ boot = boot' ∧ c = c' := by
  have hcommand : packetCommand (adminMessage realm boot c ++ []) =
      packetCommand (adminMessage realm' boot' c' ++ []) := by rw [h]
  rw [packetCommand_message realm boot hc, packetCommand_message realm' boot' hc'] at hcommand
  unfold adminMessage at h
  obtain ⟨-, h⟩ := List.append_inj h rfl
  obtain ⟨hr, h⟩ := List.append_inj h (by simp)
  obtain ⟨hb, -⟩ := List.append_inj h (by simp)
  exact ⟨Vector.toList_inj.mp hr, Vector.toList_inj.mp hb, hcommand⟩

theorem adminEncode_true_iff {realm boot : Vector UInt8 32} {c : AdminCommand} {m : List UInt8} :
    adminEncode realm boot c = (true, m) ↔
      (nonzero realm = true ∧ nonzero boot = true ∧ Executable c) ∧ m = adminMessage realm boot c := by
  constructor
  · intro h
    unfold adminEncode at h
    split_ifs at h with hc
    · cases h
    · simp only [not_or, Bool.not_eq_true', Bool.not_eq_false] at hc
      cases h
      exact ⟨⟨hc.1, hc.2.1, (adminValid_iff c).mp hc.2.2⟩, rfl⟩
  · rintro ⟨⟨hr, hb, hc⟩, rfl⟩
    exact adminEncode_eq hr hb hc

/-! ### The context of an instance -/

/-- An instance that is set up has a realm and a boot identity. -/
def ContextOk (a : Admin) : Prop :=
  a.initialized = true → nonzero a.realm = true ∧ nonzero a.boot = true

/-- An instance that can admit: set up, with nothing pending and with a sequence left. -/
structure Idle (a : Admin) : Prop where
  initialized : a.initialized = true
  notPending : a.pendingSequence = 0
  notExhausted : a.exhausted = false

section

variable {check : List UInt8 → List UInt8 → List UInt8 → Bool}

theorem contextOk_step {a : Admin} (h : ContextOk a) (x : GateCall) :
    ContextOk (gateCall check a x).1 := by
  cases x with
  | init key realm boot =>
    simp only [gateCall, adminInit]
    split_ifs with hc
    · exact h
    · simp only [not_or, Bool.not_eq_true', Bool.not_eq_false] at hc
      exact fun _ => ⟨hc.2.2.1, hc.2.2.2⟩
  | submit packet =>
    simp only [gateCall]
    by_cases ha : Admits check a packet
    · rw [ha.accepted]
      intro hi
      rw [Admin.consumed_realm, Admin.consumed_boot]
      exact h ha.initialized
    · obtain ⟨status, -, -, heq⟩ := adminAdmit_of_not_admits ha
      rw [heq]
      exact h
  | complete sequence =>
    simp only [gateCall, adminComplete]
    split_ifs
    · exact h
    · exact h
    · exact h

theorem contextOk_run (calls : List GateCall) :
    ContextOk (Run.final (gateCall check) Admin.zero calls) :=
  Run.final_induct (P := ContextOk) (fun h => absurd h (by decide))
    (fun _ x h => contextOk_step h x) calls

theorem Idle.admits {a : Admin} (h : Idle a) {c : AdminCommand} (hc : Executable c)
    (hq : a.nextSequence = c.sequence) {signature : List UInt8} (hl : signature.length = 64)
    (hs : check signature a.publicKey.toList (adminMessage a.realm a.boot c) = true) :
    adminAdmit check a (adminMessage a.realm a.boot c ++ signature) = (.accepted, c, a.consumed) := by
  have hcommand := packetCommand_message a.realm a.boot hc.generation signature
  have ha : Admits check a (adminMessage a.realm a.boot c ++ signature) :=
    ⟨h.initialized, h.notPending, h.notExhausted, signed_message hc hl hs, by rw [hcommand, hq]⟩
  rw [ha.accepted, hcommand]

end

/-! ### The format -/

/-- **The packet format is canonical and unambiguous**: what an instance admits starts with the
encoding of the command it hands out, for its realm and its boot; every encoding with a signature
that the verifier accepts is admitted when it is next, and hands out its command; and an encoding
names its realm, its boot and its command. -/
theorem packet_canonical (check : List UInt8 → List UInt8 → List UInt8 → Bool) :
    (∀ (calls : List GateCall) (p : List UInt8) (c : AdminCommand) (a' : Admin),
      let a := Run.final (gateCall check) Admin.zero calls
      adminAdmit check a p = (.accepted, c, a') →
        adminEncode a.realm a.boot c = (true, p.take 128)) ∧
    (∀ (a : Admin) (c : AdminCommand) (m signature : List UInt8),
      adminEncode a.realm a.boot c = (true, m) → Idle a → a.nextSequence = c.sequence →
        signature.length = 64 → check signature a.publicKey.toList m = true →
        adminAdmit check a (m ++ signature) = (.accepted, c, a.consumed)) ∧
    ∀ (realm realm' boot boot' : Vector UInt8 32) (c c' : AdminCommand) (m : List UInt8),
      adminEncode realm boot c = (true, m) → adminEncode realm' boot' c' = (true, m) →
        realm = realm' ∧ boot = boot' ∧ c = c' := by
  refine ⟨?_, ?_, ?_⟩
  · intro calls p c a' a h
    have hadmits : Admits check a p := adminAdmit_accepted_iff.mp (by rw [h])
    have hout := hadmits.accepted
    rw [h] at hout
    obtain ⟨hr, hb⟩ := (contextOk_run calls :
      ContextOk (Run.final (gateCall check) Admin.zero calls)) hadmits.initialized
    obtain ⟨hl, hd, hx, hrealm, hboot, -⟩ := hadmits.signed
    obtain rfl : c = packetCommand p := congrArg (fun out => out.2.1) hout
    rw [adminEncode_true_iff]
    exact ⟨⟨hr, hb, hx⟩, (message_of_packet hl hd hrealm hboot).symm⟩
  · intro a c m signature hm hi hq hl hs
    obtain ⟨⟨-, -, hx⟩, rfl⟩ := adminEncode_true_iff.mp hm
    exact hi.admits hx hq hl hs
  · intro realm realm' boot boot' c c' m hm hm'
    obtain ⟨⟨-, -, hx⟩, rfl⟩ := adminEncode_true_iff.mp hm
    obtain ⟨⟨-, -, hx'⟩, heq⟩ := adminEncode_true_iff.mp hm'
    exact adminMessage_injective hx.generation hx'.generation heq

/-- The command of the grant. -/
def grantCommand : AdminCommand := ⟨1, 0, ⟨Op.grant, 0, tcsObject, tcsRead, 0⟩⟩

/-- The signed grant is accepted by the instance that is set up for it; its message is the encoding
of its command, and of nothing else. -/
theorem grantPacket_canonical :
    adminAdmit grantCheck grantAdmin grantPacket = (.accepted, grantCommand, grantAdmin.consumed) ∧
      adminEncode grantAdmin.realm grantAdmin.boot grantCommand = (true, grantPacket.take 128) ∧
      ∀ realm boot c, adminEncode realm boot c = (true, grantPacket.take 128) →
        realm = grantAdmin.realm ∧ boot = grantAdmin.boot ∧ c = grantCommand := by
  have hm : adminEncode grantAdmin.realm grantAdmin.boot grantCommand =
      (true, grantPacket.take 128) := by decide +kernel
  have haccepts : adminAdmit grantCheck grantAdmin (grantPacket.take 128 ++ grantPacket.drop 128) =
      (.accepted, grantCommand, grantAdmin.consumed) :=
    (packet_canonical grantCheck).2.1 grantAdmin grantCommand _ _ hm ⟨rfl, rfl, rfl⟩ rfl rfl
      (by decide +kernel)
  rw [List.take_append_drop] at haccepts
  have hinit : Run.final (gateCall grantCheck) Admin.zero
      [.init grantKey grantAdmin.realm grantAdmin.boot] = grantAdmin := by
    show (adminInit Admin.zero grantKey grantAdmin.realm grantAdmin.boot).2 = grantAdmin
    unfold adminInit
    rw [if_neg (by decide +kernel)]
    rfl
  have hencode := (packet_canonical grantCheck).1 [.init grantKey grantAdmin.realm grantAdmin.boot]
    grantPacket grantCommand grantAdmin.consumed
  rw [hinit] at hencode
  exact ⟨haccepts, hencode haccepts, fun realm boot c h =>
    (packet_canonical grantCheck).2.2 realm _ boot _ c _ _ h hm⟩

end Tcs
