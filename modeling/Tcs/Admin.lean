/-
# The administrator's admission gate

`lib/admin.c`. An administrator is set up once with a key, a realm and a
boot identity, and from then on admits signed packets: a packet is accepted
when it carries the domain, the administrator's realm and boot, the next
sequence and a signature under its key. Admission consumes the sequence and
leaves the command pending; nothing is admitted before `adminComplete`
clears it.

The Ed25519 verifier is a parameter, `check`, the answer of
`crypto_ed25519_check` on the signature, the key and the signed message. The
null tests on pointers are left out: every caller passes an address.

Key definitions: `Admin`, `adminInit`, `adminAdmit`, `adminComplete`,
`Signed`.
Key theorems: `Admits.accepted`, `adminAdmit_accepted_iff`, `adminComplete_eq`.
-/
import Tcs.Receipt
import Tcs.Lib.Bytes

namespace Tcs

/-- `enum tcs_admin_status`. -/
inductive AdminStatus
  | accepted
  | notReady
  | badPacket
  | badContext
  | badSignature
  | replay
  | busy
  | exhausted
  | badCompletion
  deriving DecidableEq, Repr

/-- The value of the enumerator. -/
def AdminStatus.word : AdminStatus → UInt64
  | .accepted => 0
  | .notReady => 1
  | .badPacket => 2
  | .badContext => 3
  | .badSignature => 4
  | .replay => 5
  | .busy => 6
  | .exhausted => 7
  | .badCompletion => 8

/-- `struct tcs_admin`. -/
structure Admin where
  publicKey : Vector UInt8 32
  realm : Vector UInt8 32
  boot : Vector UInt8 32
  nextSequence : UInt64
  pendingSequence : UInt64
  initialized : Bool
  exhausted : Bool

/-- The zeroed administrator. -/
def Admin.zero : Admin :=
  ⟨Vector.replicate 32 0, Vector.replicate 32 0, Vector.replicate 32 0, 0, 0, false, false⟩

/-- The zeroed command. -/
def AdminCommand.zero : AdminCommand := ⟨0, 0, ⟨0, 0, 0, 0, 0⟩⟩

/-- `domain`: "TCS-ADMIN-" and the version. -/
def adminDomain : List UInt8 :=
  [0x54, 0x43, 0x53, 0x2d, 0x41, 0x44, 0x4d, 0x49, 0x4e, 0x2d, 1, 0, 0, 0, 0, 0]

/-- `nonzero`. -/
def nonzero (bytes : Vector UInt8 32) : Bool := bytes.toList.foldl (· ||| ·) 0 ≠ 0

/-- `valid`. -/
def adminValid (c : AdminCommand) : Bool :=
  let r := c.request
  if c.sequence = 0 ∨ r.subject ≥ subjectCount ∨ r.generation ≠ 0 then false
  else if r.op = Op.grant then r.object = tcsObject ∧ r.rights = tcsRead
  else (r.op = Op.revoke ∨ r.op = Op.quarantine ∨ r.op = Op.restore) ∧ r.object = 0 ∧ r.rights = 0

/-- `tcs_admin_init`: whether it succeeded, and the administrator it leaves. -/
def adminInit (a : Admin) (key realm boot : Vector UInt8 32) : Bool × Admin :=
  if a.initialized ∨ !nonzero key ∨ !nonzero realm ∨ !nonzero boot then (false, a)
  else (true, { Admin.zero with
    publicKey := key, realm := realm, boot := boot, nextSequence := 1, initialized := true })

theorem adminInit_zero (key realm boot : Vector UInt8 32) :
    (adminInit Admin.zero key realm boot).2 = Admin.zero ∨
      (adminInit Admin.zero key realm boot).2 = ⟨key, realm, boot, 1, 0, true, false⟩ := by
  unfold adminInit
  split_ifs
  · exact Or.inl rfl
  · exact Or.inr rfl

/-- The bytes of a signed message. -/
def adminMessage (realm boot : Vector UInt8 32) (c : AdminCommand) : List UInt8 :=
  adminDomain ++ (realm.toList ++ (boot.toList ++ (Bytes.store64 c.sequence ++
    (Bytes.store64 c.request.op ++ (Bytes.store64 c.request.subject ++
      (Bytes.store64 c.request.object ++ (Bytes.store64 c.request.rights ++
        Bytes.store64 c.expectedGeneration)))))))

/-- `tcs_admin_encode`: whether it succeeded, and the message it writes. -/
def adminEncode (realm boot : Vector UInt8 32) (c : AdminCommand) : Bool × List UInt8 :=
  if !nonzero realm ∨ !nonzero boot ∨ !adminValid c then (false, List.replicate 128 0)
  else (true, adminMessage realm boot c)

/-- The command that `tcs_admin_admit` reads from a packet. -/
def packetCommand (packet : List UInt8) : AdminCommand :=
  ⟨Bytes.load64 (packet.drop 80), Bytes.load64 (packet.drop 120),
    ⟨Bytes.load64 (packet.drop 88), Bytes.load64 (packet.drop 96), Bytes.load64 (packet.drop 104),
      Bytes.load64 (packet.drop 112), 0⟩⟩

section

variable (check : List UInt8 → List UInt8 → List UInt8 → Bool)

/-- `tcs_admin_admit`: the status, the command it hands out and the administrator it leaves. -/
def adminAdmit (a : Admin) (packet : List UInt8) : AdminStatus × AdminCommand × Admin :=
  if !a.initialized then (.notReady, .zero, a)
  else if a.pendingSequence ≠ 0 then (.busy, .zero, a)
  else if a.exhausted then (.exhausted, .zero, a)
  else if packet.length ≠ 192 ∨ Bytes.slice packet 0 16 ≠ adminDomain then (.badPacket, .zero, a)
  else
    let c := packetCommand packet
    if !adminValid c then (.badPacket, .zero, a)
    else if Bytes.slice packet 16 32 ≠ a.realm.toList ∨ Bytes.slice packet 48 32 ≠ a.boot.toList then
      (.badContext, .zero, a)
    else if c.sequence ≠ a.nextSequence then (.replay, .zero, a)
    else if !check (Bytes.slice packet 128 64) a.publicKey.toList (Bytes.slice packet 0 128) then
      (.badSignature, .zero, a)
    else
      let a := { a with pendingSequence := c.sequence }
      let a :=
        if c.sequence = Word.max then { a with exhausted := true }
        else { a with nextSequence := a.nextSequence + 1 }
      (.accepted, c, a)

/-- `tcs_admin_complete`. -/
def adminComplete (a : Admin) (sequence : UInt64) : AdminStatus × Admin :=
  if !a.initialized then (.notReady, a)
  else if sequence = 0 ∨ a.pendingSequence ≠ sequence then (.badCompletion, a)
  else (.accepted, { a with pendingSequence := 0 })

/-! ### What is admitted -/

/-- A packet for `realm` and `boot` with a signature under `key`. -/
structure Signed (key realm boot : Vector UInt8 32) (packet : List UInt8) : Prop where
  length : packet.length = 192
  domain : Bytes.slice packet 0 16 = adminDomain
  command : Executable (packetCommand packet)
  realm : Bytes.slice packet 16 32 = realm.toList
  boot : Bytes.slice packet 48 32 = boot.toList
  signature : check (Bytes.slice packet 128 64) key.toList (Bytes.slice packet 0 128) = true

/-- The administrator admits the packet: it is idle, and the packet is signed for it and next. -/
structure Admits (a : Admin) (packet : List UInt8) : Prop where
  initialized : a.initialized = true
  idle : a.pendingSequence = 0
  notExhausted : a.exhausted = false
  signed : Signed check a.publicKey a.realm a.boot packet
  next : (packetCommand packet).sequence = a.nextSequence

end

/-- The administrator after it has consumed its next sequence. -/
def Admin.consumed (a : Admin) : Admin :=
  if a.nextSequence = Word.max then
    { a with pendingSequence := a.nextSequence, exhausted := true }
  else { a with pendingSequence := a.nextSequence, nextSequence := a.nextSequence + 1 }

@[simp] theorem Admin.consumed_initialized (a : Admin) : a.consumed.initialized = a.initialized := by
  unfold Admin.consumed
  split <;> rfl

@[simp] theorem Admin.consumed_publicKey (a : Admin) : a.consumed.publicKey = a.publicKey := by
  unfold Admin.consumed
  split <;> rfl

@[simp] theorem Admin.consumed_realm (a : Admin) : a.consumed.realm = a.realm := by
  unfold Admin.consumed
  split <;> rfl

@[simp] theorem Admin.consumed_boot (a : Admin) : a.consumed.boot = a.boot := by
  unfold Admin.consumed
  split <;> rfl

@[simp] theorem Admin.consumed_pending (a : Admin) : a.consumed.pendingSequence = a.nextSequence := by
  unfold Admin.consumed
  split <;> rfl

theorem Admin.issued_consumed {a : Admin} {n : ℕ} (he : a.exhausted = false)
    (h : Word.Issued a.nextSequence a.exhausted n) :
    Word.Issued a.consumed.nextSequence a.consumed.exhausted (n + 1) := by
  rw [he] at h
  unfold Admin.consumed
  split_ifs with hm
  · show Word.Issued a.nextSequence true (n + 1)
    rw [hm] at h ⊢
    exact h.stop
  · show Word.Issued (a.nextSequence + 1) a.exhausted (n + 1)
    rw [he]
    exact h.succ hm

/-- The administrator's validator is the one of the receipts. -/
theorem adminValid_iff (c : AdminCommand) : adminValid c = true ↔ Executable c :=
  adminExecutionValid_iff c

variable {check : List UInt8 → List UInt8 → List UInt8 → Bool} {a : Admin} {packet : List UInt8}

/-- An admitted packet consumes the sequence and hands out its command. -/
theorem Admits.accepted (h : Admits check a packet) :
    adminAdmit check a packet = (.accepted, packetCommand packet, a.consumed) := by
  obtain ⟨h1, h2, h3, ⟨h4, h5, h6, h7, h8, h9⟩, h10⟩ := h
  have hv := (adminValid_iff _).mpr h6
  unfold adminAdmit Admin.consumed
  simp only [h1, h2, h3, h4, h5, h7, h8, h9, h10, hv, Bool.not_true, Bool.false_eq_true, if_false,
    ne_eq, not_true_eq_false, or_self]

theorem adminAdmit_of_not_admits (h : ¬ Admits check a packet) :
    ∃ status, status ≠ .accepted ∧ status ≠ .badCompletion ∧
      adminAdmit check a packet = (status, .zero, a) := by
  unfold adminAdmit
  by_cases h1 : a.initialized = true
  swap
  · exact ⟨.notReady, by decide, by decide, if_pos (by simpa using h1)⟩
  rw [if_neg (by simpa using h1)]
  by_cases h2 : a.pendingSequence = 0
  swap
  · exact ⟨.busy, by decide, by decide, if_pos h2⟩
  rw [if_neg (not_not.mpr h2)]
  by_cases h3 : a.exhausted = true
  · exact ⟨.exhausted, by decide, by decide, if_pos h3⟩
  rw [if_neg h3]
  by_cases h4 : packet.length ≠ 192 ∨ Bytes.slice packet 0 16 ≠ adminDomain
  · exact ⟨.badPacket, by decide, by decide, if_pos h4⟩
  rw [if_neg h4]
  dsimp only
  by_cases h5 : adminValid (packetCommand packet) = true
  swap
  · exact ⟨.badPacket, by decide, by decide, if_pos (by simpa using h5)⟩
  rw [if_neg (by simpa using h5)]
  by_cases h6 : Bytes.slice packet 16 32 ≠ a.realm.toList ∨ Bytes.slice packet 48 32 ≠ a.boot.toList
  · exact ⟨.badContext, by decide, by decide, if_pos h6⟩
  rw [if_neg h6]
  by_cases h7 : (packetCommand packet).sequence = a.nextSequence
  swap
  · exact ⟨.replay, by decide, by decide, if_pos h7⟩
  rw [if_neg (not_not.mpr h7)]
  by_cases h8 : check (Bytes.slice packet 128 64) a.publicKey.toList (Bytes.slice packet 0 128) = true
  swap
  · exact ⟨.badSignature, by decide, by decide, if_pos (by simpa using h8)⟩
  simp only [not_or, not_not] at h4 h6
  exact absurd ⟨h1, h2, by simpa using h3, ⟨h4.1, h4.2, (adminValid_iff _).mp h5, h6.1, h6.2, h8⟩, h7⟩ h

/-- **Admission.** The status tells whether the packet was admitted. -/
theorem adminAdmit_accepted_iff :
    (adminAdmit check a packet).1 = .accepted ↔ Admits check a packet := by
  constructor
  · intro h
    by_contra hn
    obtain ⟨status, h1, -, h2⟩ := adminAdmit_of_not_admits hn
    rw [h2] at h
    exact h1 h
  · intro h
    rw [h.accepted]

/-! ### Messages -/

@[simp] theorem length_adminMessage (realm boot : Vector UInt8 32) (c : AdminCommand) :
    (adminMessage realm boot c).length = 128 := by
  simp [adminMessage, adminDomain]

theorem adminEncode_eq {realm boot : Vector UInt8 32} {c : AdminCommand}
    (hr : nonzero realm = true) (hb : nonzero boot = true) (hc : Executable c) :
    adminEncode realm boot c = (true, adminMessage realm boot c) := by
  have hv := (adminValid_iff c).mpr hc
  unfold adminEncode
  rw [if_neg (by simp [hr, hb, hv])]

theorem packetCommand_message (realm boot : Vector UInt8 32) {c : AdminCommand}
    (hc : c.request.generation = 0) (signature : List UInt8) :
    packetCommand (adminMessage realm boot c ++ signature) = c := by
  obtain ⟨q, g, op, s, o, r, gen⟩ := c
  simp only at hc
  subst hc
  have hp : (adminDomain ++ realm.toList ++ boot.toList).length = 80 := by simp [adminDomain]
  have hm : adminMessage realm boot ⟨q, g, ⟨op, s, o, r, 0⟩⟩ ++ signature =
      adminDomain ++ realm.toList ++ boot.toList ++
        ([q, op, s, o, r, g].flatMap Bytes.store64 ++ signature) := by
    simp [adminMessage]
  have hw := Bytes.load64_words (q := signature) hp [q, op, s, o, r, g]
  rw [hm]
  unfold packetCommand
  rw [hw 0 (by simp), hw 1 (by simp), hw 2 (by simp), hw 3 (by simp), hw 4 (by simp), hw 5 (by simp)]
  rfl

theorem signed_message {key realm boot : Vector UInt8 32} {c : AdminCommand} (hc : Executable c)
    {signature : List UInt8} (hl : signature.length = 64)
    (hs : check signature key.toList (adminMessage realm boot c) = true) :
    Signed check key realm boot (adminMessage realm boot c ++ signature) := by
  have hlen := length_adminMessage realm boot c
  have hmsg : Bytes.slice (adminMessage realm boot c ++ signature) 0 128 = adminMessage realm boot c :=
    Bytes.slice_left hlen
  have hsig : Bytes.slice (adminMessage realm boot c ++ signature) 128 64 = signature :=
    Bytes.slice_right hlen hl
  refine ⟨?_, ?_, ?_, ?_, ?_, ?_⟩
  · rw [List.length_append, hlen, hl]
  · unfold adminMessage
    rw [List.append_assoc]
    exact Bytes.slice_left rfl
  · rw [packetCommand_message realm boot hc.generation]
    exact hc
  · unfold adminMessage
    rw [List.append_assoc, List.append_assoc]
    exact Bytes.slice_append rfl Vector.length_toList
  · unfold adminMessage
    rw [List.append_assoc, List.append_assoc, List.append_assoc, ← List.append_assoc adminDomain]
    exact Bytes.slice_append (by simp [adminDomain]) Vector.length_toList
  · rw [hsig, hmsg]
    exact hs

/-- The completion of the pending command makes the administrator idle. -/
theorem adminComplete_eq (hi : a.initialized = true) {q : UInt64} (hq : q ≠ 0)
    (hp : a.pendingSequence = q) : adminComplete a q = (.accepted, { a with pendingSequence := 0 }) := by
  unfold adminComplete
  rw [if_neg (by simpa using hi), if_neg]
  simp [hq, hp]

end Tcs
