/-
# The operator's tool, and the way of a command into the guest

`tools/operator.c`: the host parses a command, encodes it for the identity
and the boot of a launch, and signs the encoding. A packet goes to the guest
as hexadecimal text on the serial line, and from the terminal to the
administrator in message registers; the record of the launch has gone to the
administrator before.

**The round trip** (`host_to_guest_round_trip`): every command that the tool
accepts is the command that the guest admits. Each leg is a lemma: what is
parsed is valid (`Operator.commandParse_executable`), the message is signed
for the launch (`signed_message`), the text is decoded (`feed_hexText`), the
registers carry the bytes (`bytesFromWords_deliver`).

The files are left out: what a file holds is an argument. Ed25519 and
BLAKE2b are parameters; of the first it is assumed that the verifier accepts
what the signer produced for the same key.

Key definitions: `Operator.number`, `Operator.commandParse`,
`Operator.prepare`, `Operator.signed`.
Key theorems: `Operator.commandParse_executable`, `feed_hexText`,
`host_to_guest_round_trip`.
-/
import Tcs.Launch
import Tcs.LineInput
import Tcs.Admission

namespace Tcs

open Ipc

namespace Operator

/-- `number`. -/
def number (text : List Char) : Option UInt64 :=
  if text = [] ∨ (text.head? = some '0' ∧ text.length ≠ 1) then none
  else if text.length > 20 then none
  else text.foldlM digitStep 0

/-- The request of an operation's name; its subject is not set yet. -/
def operation (name : List Char) : Option Request :=
  if name = "grant".toList then some ⟨Op.grant, 0, tcsObject, tcsRead, 0⟩
  else if name = "revoke".toList then some ⟨Op.revoke, 0, 0, 0, 0⟩
  else if name = "quarantine".toList then some ⟨Op.quarantine, 0, 0, 0, 0⟩
  else if name = "restore".toList then some ⟨Op.restore, 0, 0, 0, 0⟩
  else none

/-- `args`, the four words of a command. -/
structure Args where
  op : List Char
  subject : List Char
  sequence : List Char
  generation : List Char

/-- `command_parse`. -/
def commandParse (args : Args) : Option AdminCommand :=
  (operation args.op).bind fun request =>
    ((number args.subject).filter (· < subjectCount)).bind fun subject =>
      ((number args.sequence).filter (· ≠ 0)).bind fun sequence =>
        (number args.generation).map fun generation =>
          ⟨sequence, generation, { request with subject := subject }⟩

/-- `review`: "TCS-REVIEW" and the version. -/
def reviewPrefix : List UInt8 :=
  [0x54, 0x43, 0x53, 0x2d, 0x52, 0x45, 0x56, 0x49, 0x45, 0x57, 1, 0, 0, 0, 0, 0]

/-- `prepare`, with the identity and the context that it reads: the launch, the message and the
text to approve. -/
def prepare (blake2b : List UInt8 → List UInt8) (mode : LaunchMode) (identity : Identity)
    (context : List UInt8) (c : AdminCommand) : Option (Launch × List UInt8 × List Char) :=
  let (ok, launch) := launchDecode context mode
  let (encoded, message) := adminEncode identity.realm launch.boot c
  if !ok ∨ identity.realm ≠ launch.identity.realm ∨
      identity.publicKey ≠ launch.identity.publicKey ∨ !encoded then none
  else
    let review := reviewPrefix.set 15 mode.byte ++ identity.publicKey.toList ++ message
    some (launch, message, hexText (blake2b review))

/-- The packet that `review_or_sign` writes: the message with its signature, which is checked. -/
def signed (sign : List UInt8 → Vector UInt8 64)
    (check : List UInt8 → List UInt8 → List UInt8 → Bool) (launch : Launch)
    (message : List UInt8) : Option (List UInt8) :=
  let signature := (sign message).toList
  if !check signature launch.identity.publicKey.toList message then none
  else some (message ++ signature)

/-- What is parsed is valid. -/
theorem commandParse_executable {args : Args} {c : AdminCommand}
    (h : commandParse args = some c) : Executable c := by
  unfold commandParse at h
  obtain ⟨request, hrequest, h⟩ := Option.bind_eq_some_iff.mp h
  obtain ⟨subject, hsubject, h⟩ := Option.bind_eq_some_iff.mp h
  obtain ⟨sequence, hsequence, h⟩ := Option.bind_eq_some_iff.mp h
  obtain ⟨generation, -, rfl⟩ := Option.map_eq_some_iff.mp h
  have h1 : subject < subjectCount := by simpa using (Option.filter_eq_some_iff.mp hsubject).2
  have h2 : sequence ≠ 0 := by simpa using (Option.filter_eq_some_iff.mp hsequence).2
  rw [← adminValid_iff]
  unfold operation at hrequest
  unfold adminValid
  split_ifs at hrequest <;> (obtain rfl := Option.some.inj hrequest) <;> simp_all

end Operator

/-! ### The text of a packet -/

theorem hexNibble_hexDigit {n : UInt8} (h : n < 16) : hexNibble (charByte (hexDigit n)) = some n := by
  have key : ∀ k < 16, hexNibble (charByte (hexDigit (UInt8.ofNat k))) = some (UInt8.ofNat k) := by
    decide +kernel
  simpa using key n.toNat (UInt8.lt_iff_toNat_lt.mp h)

theorem byte_halves_lt (b : UInt8) : b >>> 4 < 16 ∧ b &&& 15 < 16 := by
  have hb := b.toNat_lt
  constructor
  · rw [UInt8.lt_iff_toNat_lt, UInt8.toNat_shiftRight]
    show b.toNat >>> 4 < 16
    rw [Nat.shiftRight_eq_div_pow]
    omega
  · rw [UInt8.lt_iff_toNat_lt, UInt8.toNat_and]
    exact Nat.and_lt_two_pow _ (show 15 < 2 ^ 4 by decide)

/-- The text of bytes that fit is decoded, and ends nothing. -/
theorem feed_hexText : ∀ (rest : List UInt8) {s : SignedInput} {bytes : List UInt8},
    Decoded s bytes → bytes.length + rest.length ≤ adminPacketBytes →
    Decoded (Run.final signedFeedStep s ((hexText rest).map charByte)) (bytes ++ rest) ∧
      (Run.trace signedFeedStep s ((hexText rest).map charByte)).map (·.output) =
        List.replicate (2 * rest.length) .none := by
  intro rest
  induction rest with
  | nil =>
    intro s bytes h hl
    rw [List.append_nil]
    exact ⟨h, rfl⟩
  | cons b rest ih =>
    intro s bytes h hl
    rw [List.length_cons] at hl
    have htext : (hexText (b :: rest)).map charByte =
        charByte (hexDigit (b >>> 4)) :: charByte (hexDigit (b &&& 15)) ::
          (hexText rest).map charByte := rfl
    obtain ⟨h1, h2, h3⟩ := h.byte (by omega) (hexNibble_hexDigit (byte_halves_lt b).1)
      (hexNibble_hexDigit (byte_halves_lt b).2)
    obtain ⟨h4, h5⟩ := ih h3 (by rw [List.length_append, List.length_singleton]; omega)
    rw [List.append_assoc, List.singleton_append] at h4
    rw [htext]
    refine ⟨h4, ?_⟩
    simp only [Run.trace, List.map_cons, Run.entry_output]
    rw [show 2 * (b :: rest).length = 2 * rest.length + 1 + 1 from by rw [List.length_cons]; omega,
      List.replicate_succ, List.replicate_succ]
    exact congrArg₂ List.cons h1 (congrArg₂ List.cons h2 h5)

theorem feed_packet {packet : List UInt8} (hl : packet.length = adminPacketBytes) (previousCr : Bool)
    {enter : UInt8} (he : enter = returnByte ∨ enter = lineFeedByte) :
    (Run.final signedFeedStep (signedBegin previousCr)
        ((hexText packet).map charByte ++ [enter])).packet.toList = packet ∧
      (Run.trace signedFeedStep (signedBegin previousCr)
        ((hexText packet).map charByte ++ [enter])).map (·.output) =
          List.replicate (2 * adminPacketBytes) .none ++ [.ready] := by
  obtain ⟨h1, h2⟩ := feed_hexText packet (decoded_begin previousCr)
    (by rw [List.length_nil, hl, Nat.zero_add])
  obtain ⟨h3, h4⟩ := h1.enter (by rw [List.nil_append, hl]) he
  rw [List.nil_append] at h4
  rw [Run.final_snoc, Run.trace_snoc, List.map_append, h2, hl]
  exact ⟨h4, congrArg (fun e => _ ++ [e]) h3⟩

/-- The bytes of a packet that the administrator receives from the terminal. -/
theorem packet_submitted {packet : List UInt8} (hl : packet.length = adminPacketBytes)
    (mr noise : Registers) :
    bytesFromWords ((⟨Label.adminSubmit, adminPacketWords, wordsFromBytes mr packet⟩ :
      Message).deliver noise).mr adminPacketBytes = packet :=
  bytesFromWords_deliver mr (show packet.length = 8 * 24 from hl) _ noise

/-! ### The round trip -/

/-- **Host to guest.** For a launch that the encoder accepts and a command that the tool parses:

* the encoder of messages accepts the command, and the tool prepares and signs its message;
* the record of the launch sets up the administrator of that launch;
* the text of the signed packet, with Enter, completes a packet of the terminal and nothing
  before it does, and the packet's public fields are the command;
* the packet reaches the administrator, which hands out the command, once the command's number
  is next, with nothing pending. -/
theorem host_to_guest_round_trip {check : List UInt8 → List UInt8 → List UInt8 → Bool}
    {sign : List UInt8 → Vector UInt8 64} {mode : LaunchMode} {launch : Launch}
    {args : Operator.Args} {c : AdminCommand}
    (hlaunch : (launchEncode launch mode).1 = true)
    (hparse : Operator.commandParse args = some c)
    (hsign : ∀ message, (adminEncode launch.identity.realm launch.boot c).2 = message →
      check (sign message).toList launch.identity.publicKey.toList message = true) :
    ∃ message packet,
      adminEncode launch.identity.realm launch.boot c = (true, message) ∧
      (∀ blake2b, ∃ approval, Operator.prepare blake2b mode launch.identity
        (launchEncode launch mode).2 c = some (launch, message, approval)) ∧
      Operator.signed sign check launch message = some packet ∧
      packet.length = adminPacketBytes ∧
      (∀ mr₁ mr₂ (noise : Noise), launchAdminInit mode ((launchBootProtected mr₁
        (launchBootInit mode (launchEncode launch mode).2) 0
          ((launchRequest mr₂).deliver noise.callee)).deliver noise.caller) = launch.admin) ∧
      ∀ (previousCr : Bool) (enter : UInt8), enter = returnByte ∨ enter = lineFeedByte →
        let typed := (hexText packet).map charByte ++ [enter]
        let input := Run.final signedFeedStep (signedBegin previousCr) typed
        (Run.trace signedFeedStep (signedBegin previousCr) typed).map (·.output) =
            List.replicate 384 .none ++ [.ready] ∧
          signedCommand input.packet.toList = c ∧
          ∀ mr noise, adminAdmit check { launch.admin with nextSequence := c.sequence }
            (bytesFromWords ((⟨Label.adminSubmit, adminPacketWords,
              wordsFromBytes mr input.packet.toList⟩ : Message).deliver noise).mr adminPacketBytes) =
              (.accepted, c, ({ launch.admin with nextSequence := c.sequence } : Admin).consumed) := by
  obtain ⟨hvalid, hboot⟩ := launchEncode_ok_iff.mp hlaunch
  obtain ⟨hrealm, -⟩ := identityValid_nonzero hvalid
  have hc := Operator.commandParse_executable hparse
  have hencode := adminEncode_eq hrealm hboot hc
  have hdecode := launchDecode_record hlaunch
  rw [launchEncode_eq hlaunch]
  rw [hencode] at hsign
  generalize hm : adminMessage launch.identity.realm launch.boot c = message at hencode hsign
  have hsign := hsign message rfl
  have hpacket : Signed check launch.identity.publicKey launch.identity.realm launch.boot
      (message ++ (sign message).toList) := by
    rw [← hm]
    exact signed_message hc Vector.length_toList (by rw [hm]; exact hsign)
  have hcommand : packetCommand (message ++ (sign message).toList) = c := by
    rw [← hm]
    exact packetCommand_message _ _ hc.generation _
  refine ⟨message, message ++ (sign message).toList, hencode, ?_, ?_, hpacket.length,
    launchAdminInit_record hlaunch, ?_⟩
  · intro blake2b
    unfold Operator.prepare
    rw [hdecode]
    simp only [hencode]
    rw [if_neg (by simp)]
    exact ⟨_, rfl⟩
  · unfold Operator.signed
    simp only [hsign, Bool.not_true, Bool.false_eq_true, if_false]
  · intro previousCr enter henter
    obtain ⟨hinput, hevents⟩ := feed_packet hpacket.length previousCr henter
    have hadmits : Admits check { launch.admin with nextSequence := c.sequence }
        (message ++ (sign message).toList) :=
      ⟨rfl, rfl, rfl, hpacket, congrArg AdminCommand.sequence hcommand⟩
    dsimp only
    rw [hinput]
    refine ⟨hevents, hcommand, ?_⟩
    intro mr noise
    rw [packet_submitted hpacket.length, hadmits.accepted, hcommand]

/-- A launch of the fixture. -/
def grantLaunch : Launch := ⟨⟨Vector.replicate 32 1, grantKey⟩, Vector.replicate 32 2⟩

/-- The command line of the grant. -/
def grantArgs : Operator.Args := ⟨"grant".toList, "0".toList, "1".toList, "0".toList⟩

/-- A signer that knows one signature, the one that Ed25519 produces for the grant. -/
def grantSign (_ : List UInt8) : Vector UInt8 64 := Vector.ofFn fun i => grantPacket.getD (128 + i) 0

/-- The grant is parsed, signed, typed and admitted. -/
theorem host_to_guest_round_trip_grant :
    (launchEncode grantLaunch .fixture).1 = true ∧
      ∃ c packet, Operator.commandParse grantArgs = some c ∧
        Operator.signed grantSign grantCheck grantLaunch
          (adminEncode grantLaunch.identity.realm grantLaunch.boot c).2 = some packet ∧
        signedCommand (Run.final signedFeedStep (signedBegin true)
          ((hexText packet).map charByte ++ [lineFeedByte])).packet.toList = c := by
  have hlaunch : (launchEncode grantLaunch .fixture).1 = true := by decide +kernel
  have hparse : Operator.commandParse grantArgs = some ⟨1, 0, ⟨Op.grant, 0, tcsObject, tcsRead, 0⟩⟩ := by
    rfl
  have hsign : grantCheck (grantSign (adminEncode grantLaunch.identity.realm grantLaunch.boot
      ⟨1, 0, ⟨Op.grant, 0, tcsObject, tcsRead, 0⟩⟩).2).toList grantLaunch.identity.publicKey.toList
      (adminEncode grantLaunch.identity.realm grantLaunch.boot
        ⟨1, 0, ⟨Op.grant, 0, tcsObject, tcsRead, 0⟩⟩).2 = true := by
    decide +kernel
  obtain ⟨message, packet, hencode, -, hsigned, -, -, htyped⟩ :=
    host_to_guest_round_trip hlaunch hparse (by rintro _ rfl; exact hsign)
  refine ⟨hlaunch, _, packet, hparse, ?_, (htyped true lineFeedByte (Or.inr rfl)).2.1⟩
  rw [hencode]
  exact hsigned

end Tcs
