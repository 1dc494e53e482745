/-
# Reviewing and signing with the operator's tool

The rest of `review_or_sign` in `tools/operator.c`. The tool reads the
identity and the context of a session, parses the command, and hashes the
mode, the public key and the message to sign (`Operator.prepare`). A review
prints the fields and the digest as the approval; signing wants the same
digest, then opens the private seed, and writes the signed message to a new
file of the session.

The files are arguments: what is in a file that is there, private and
readable. BLAKE2b and Ed25519 are arguments as well (`Operator.Crypto`). Of a
write it is told how far it came (`Operator.Write`).

**Binding** (`approval_binds`): with BLAKE2b injective on the buffers that are
hashed, a request that was signed under an approval carries the message that
was reviewed, from the same command, identity and boot. All that is needed is
that the two buffers that were reviewed do not collide
(`prepared_eq_or_collide`); the digest covers the fields since buffer and
message determine them (`reviewBuffer_injective`, `adminMessage_injective`).

Key definitions: `Operator.Invocation.prepared`, `Operator.keyRead`,
`Operator.Invocation.request`, `Operator.reviewText`,
`Operator.reviewOrSign`.
Key theorems: `prepare_iff`, `prepared_reads`, `requests_of_written`,
`prepared_eq_or_collide`, `approval_or_collide`, `approval_binds`.
-/
import Tcs.Packet
import Tcs.Records
import Tcs.Terminal

namespace Tcs
namespace Operator

/-! ### The tool -/

/-- Monocypher, as far as the tool uses it. -/
structure Crypto where
  /-- `crypto_blake2b`, with a digest of 32 bytes. -/
  blake2b : List UInt8 → List UInt8
  /-- `crypto_ed25519_key_pair`: the secret and the public key of a seed. -/
  keyPair : Vector UInt8 32 → Vector UInt8 64 × Vector UInt8 32
  /-- `crypto_ed25519_sign`. -/
  sign : Vector UInt8 64 → List UInt8 → Vector UInt8 64
  /-- `crypto_ed25519_check`. -/
  check : List UInt8 → List UInt8 → List UInt8 → Bool

/-- The files of an identity: `identity.pub` and `identity.key`. -/
structure IdentityDir where
  pub : Option (List UInt8)
  key : Option (List UInt8)

/-- What a command of the tool is given: the identity, the file `launch.context` of the session,
if the session is a private directory, and the words of the command. -/
structure Invocation where
  identity : IdentityDir
  session : Option (Option (List UInt8))
  args : Args

/-- `read_file`: the file must have the size. -/
def readFile (file : Option (List UInt8)) (length : ℕ) : Option (List UInt8) :=
  file.filter fun bytes => bytes.length = length

/-- `identity_read`. -/
def identityRead (mode : LaunchMode) (dir : IdentityDir) : Option Identity :=
  (readFile dir.pub publicBytes).bind fun bytes =>
    if !(publicDecode bytes mode).1 then none else some (publicDecode bytes mode).2

/-- `key_prefix`: "TCS-KEY" and the version. -/
def keyPrefix : List UInt8 :=
  [0x54, 0x43, 0x53, 0x2d, 0x4b, 0x45, 0x59, 1, 0, 0, 0, 0, 0, 0, 0, 0]

/-- The seed in the record of a private key. -/
def seedOf (record : List UInt8) : Vector UInt8 32 := Bytes.field record 48 32

/-- `key_read`: the secret that the seed derives. -/
def keyRead (crypto : Crypto) (mode : LaunchMode) (dir : IdentityDir) (identity : Identity) :
    Option (Vector UInt8 64) :=
  (readFile dir.key 80).bind fun record =>
    if record.getD 15 0 ≠ mode.byte ∨ Bytes.slice record 0 15 ≠ Bytes.slice keyPrefix 0 15 ∨
        Bytes.field record 16 32 ≠ identity.realm then none
    else if (crypto.keyPair (seedOf record)).2 ≠ identity.publicKey then none
    else some (crypto.keyPair (seedOf record)).1

/-- What `review_or_sign` knows before it looks at the approval. -/
structure Prepared where
  command : AdminCommand
  launch : Launch
  message : List UInt8
  approval : List Char

/-- `command_parse`, and the reads of `prepare`. -/
def Invocation.prepared (inv : Invocation) (crypto : Crypto) (mode : LaunchMode) : Option Prepared :=
  (commandParse inv.args).bind fun c =>
    inv.session.bind fun file =>
      (identityRead mode inv.identity).bind fun identity =>
        (readFile file launchBytes).bind fun context =>
          (prepare crypto.blake2b mode identity context c).map fun (launch, message, approval) =>
            ⟨c, launch, message, approval⟩

/-- The lines that a review prints. -/
def reviewText (mode : LaunchMode) (op : List Char) (p : Prepared) : List (List Char) :=
  ["mode=".toList ++ (if mode = .fixture then "PUBLIC TEST FIXTURE".toList
      else "EXPERIMENTAL OPERATOR".toList),
    "realm=".toList ++ hexText p.launch.identity.realm.toList,
    "public_key=".toList ++ hexText p.launch.identity.publicKey.toList,
    "boot=".toList ++ hexText p.launch.boot.toList,
    "operation=".toList ++ op ++ " subject=".toList ++ decimalText p.command.request.subject ++
      " sequence=".toList ++ decimalText p.command.sequence ++
      " expected_generation=".toList ++ decimalText p.command.expectedGeneration ++
      " object=".toList ++ decimalText p.command.request.object ++
      " rights=".toList ++ decimalText p.command.request.rights,
    "approval=".toList ++ p.approval]

/-- The file of a request. -/
def requestName (sequence : UInt64) : List Char :=
  "request-".toList ++ decimalText sequence ++ ".bin".toList

/-- How far `write_new` comes: the file cannot be created, something fails after some bytes, or all
is written and synchronized. -/
inductive Write
  | refused
  | cut (length : ℕ)
  | complete

/-- `write_new`: whether it succeeded, and the bytes of the file that it created. -/
def writeNew (write : Write) (bytes : List UInt8) : Bool × Option (List UInt8) :=
  match write with
  | .refused => (false, none)
  | .cut length => (false, some (bytes.take length))
  | .complete => (true, some bytes)

/-- What a command leaves: whether it succeeded, the lines that it printed, and the file that it
created. -/
structure Outcome where
  ok : Bool
  printed : List (List Char)
  written : Option (List Char × List UInt8)

/-- A refusal. -/
def Outcome.refused : Outcome := ⟨false, [], none⟩

/-- The request that `review_or_sign` writes when it is given an approval: its number and the signed
packet. -/
def Invocation.request (inv : Invocation) (crypto : Crypto) (mode : LaunchMode)
    (approval : List Char) : Option (UInt64 × List UInt8) :=
  (inv.prepared crypto mode).bind fun p =>
    if approval ≠ p.approval then none
    else
      (keyRead crypto mode inv.identity p.launch.identity).bind fun secret =>
        (signed (crypto.sign secret) crypto.check p.launch p.message).bind fun packet =>
          if (requestName p.command.sequence).length ≥ 64 then none
          else some (p.command.sequence, packet)

/-- `review_or_sign`; a review has no approval. -/
def reviewOrSign (crypto : Crypto) (mode : LaunchMode) (inv : Invocation)
    (approval : Option (List Char)) (write : Write) : Outcome :=
  match approval with
  | none =>
    match inv.prepared crypto mode with
    | none => .refused
    | some p => ⟨true, reviewText mode inv.args.op p, none⟩
  | some text =>
    match inv.request crypto mode text with
    | none => .refused
    | some (sequence, packet) =>
      let name := requestName sequence
      let (ok, bytes) := writeNew write packet
      ⟨ok, if ok then ["Signed ".toList ++ name ++
        "; not submitted or executed. No automatic retry.".toList] else [],
        bytes.map fun bytes => (name, bytes)⟩

/-! ### What is prepared -/

/-- The buffer that is hashed. -/
def reviewBuffer (mode : LaunchMode) (key : Vector UInt8 32) (message : List UInt8) : List UInt8 :=
  reviewPrefix.set 15 mode.byte ++ key.toList ++ message

theorem length_reviewBuffer {mode : LaunchMode} {key : Vector UInt8 32} {message : List UInt8}
    (h : message.length = 128) : (reviewBuffer mode key message).length = 176 := by
  unfold reviewBuffer
  rw [List.length_append, List.length_append, List.length_set, Vector.length_toList, h]
  rfl

theorem reviewBuffer_injective {mode : LaunchMode} {key key' : Vector UInt8 32}
    {message message' : List UInt8} (h : message.length = message'.length)
    (heq : reviewBuffer mode key message = reviewBuffer mode key' message') :
    key = key' ∧ message = message' := by
  obtain ⟨hhead, hmessage⟩ := List.append_inj' heq h
  exact ⟨Vector.toList_inj.mp (List.append_cancel_left hhead), hmessage⟩

/-- **Preparing.** The context is a launch of the identity, the message is the encoding of the
command for it, and the text to approve is the digest of mode, key and message. -/
theorem prepare_iff {blake2b : List UInt8 → List UInt8} {mode : LaunchMode} {identity : Identity}
    {context : List UInt8} {c : AdminCommand} {launch : Launch} {message : List UInt8}
    {approval : List Char} :
    prepare blake2b mode identity context c = some (launch, message, approval) ↔
      launchDecode context mode = (true, launch) ∧ launch.identity = identity ∧
        adminEncode identity.realm launch.boot c = (true, message) ∧
        approval = hexText (blake2b (reviewBuffer mode identity.publicKey message)) := by
  unfold prepare
  rcases hdecode : launchDecode context mode with ⟨ok, launch'⟩
  rcases hencode : adminEncode identity.realm launch'.boot c with ⟨encoded, message'⟩
  simp only [hencode]
  constructor
  · intro h
    by_cases hguard : !ok ∨ identity.realm ≠ launch'.identity.realm ∨
        identity.publicKey ≠ launch'.identity.publicKey ∨ !encoded
    · rw [if_pos hguard] at h
      exact absurd h.symm (Option.some_ne_none _)
    rw [if_neg hguard] at h
    simp only [not_or, not_not, Bool.not_eq_true', Bool.not_eq_false] at hguard
    obtain ⟨rfl, hrealm, hkey, rfl⟩ := hguard
    obtain ⟨rfl, hrest⟩ := Prod.mk.inj (Option.some.inj h)
    obtain ⟨rfl, rfl⟩ := Prod.mk.inj hrest
    refine ⟨rfl, ?_, hencode, rfl⟩
    calc launch'.identity = ⟨launch'.identity.realm, launch'.identity.publicKey⟩ := rfl
      _ = identity := by rw [← hrealm, ← hkey]
  · rintro ⟨hl, rfl, hm, rfl⟩
    obtain ⟨rfl, rfl⟩ := Prod.mk.inj hl
    obtain ⟨rfl, rfl⟩ := Prod.mk.inj (hencode.symm.trans hm)
    rw [if_neg (by simp)]
    rfl

/-- What is known of the files and of the command once a review is prepared. -/
structure Reads (crypto : Crypto) (mode : LaunchMode) (inv : Invocation) (p : Prepared) : Prop where
  command : commandParse inv.args = some p.command
  identity : identityRead mode inv.identity = some p.launch.identity
  context : ∃ context, inv.session = some (some context) ∧
    launchDecode context mode = (true, p.launch)
  message : p.message = adminMessage p.launch.identity.realm p.launch.boot p.command
  approval : p.approval =
    hexText (crypto.blake2b (reviewBuffer mode p.launch.identity.publicKey p.message))

theorem prepared_reads {crypto : Crypto} {mode : LaunchMode} {inv : Invocation} {p : Prepared}
    (h : inv.prepared crypto mode = some p) : Reads crypto mode inv p := by
  obtain ⟨c, hc, h⟩ := Option.bind_eq_some_iff.mp h
  obtain ⟨file, hfile, h⟩ := Option.bind_eq_some_iff.mp h
  obtain ⟨identity, hidentity, h⟩ := Option.bind_eq_some_iff.mp h
  obtain ⟨context, hcontext, h⟩ := Option.bind_eq_some_iff.mp h
  obtain ⟨⟨launch, message, approval⟩, hprepare, rfl⟩ := Option.map_eq_some_iff.mp h
  obtain ⟨hdecode, rfl, hencode, happroval⟩ := prepare_iff.mp hprepare
  obtain ⟨rfl, -⟩ := Option.filter_eq_some_iff.mp hcontext
  exact ⟨hc, hidentity, ⟨context, hfile, hdecode⟩, (adminEncode_true_iff.mp hencode).2, happroval⟩

/-! ### What is printed and written -/

/-- The lines before the approval do not begin as it does. -/
theorem head_reviewText {mode : LaunchMode} {op : List Char} {p : Prepared} :
    ∀ line ∈ (reviewText mode op p).take 5, line.head? ≠ some 'a' := by
  simp only [reviewText, List.take_succ_cons, List.take_zero, List.forall_mem_cons, List.append_assoc]
  refine ⟨?_, ?_, ?_, ?_, ?_, fun line h => absurd h List.not_mem_nil⟩
  · exact fun h => absurd (show some 'm' = some 'a' from h) (by decide)
  · exact fun h => absurd (show some 'r' = some 'a' from h) (by decide)
  · exact fun h => absurd (show some 'p' = some 'a' from h) (by decide)
  · exact fun h => absurd (show some 'b' = some 'a' from h) (by decide)
  · exact fun h => absurd (show some 'o' = some 'a' from h) (by decide)

/-- The approval is the last line of a review, and no other line looks like it. -/
theorem approval_mem_reviewText {mode : LaunchMode} {op h : List Char} {p : Prepared}
    (hmem : "approval=".toList ++ h ∈ reviewText mode op p) : h = p.approval := by
  have hlines : reviewText mode op p = (reviewText mode op p).take 5 ++
      ["approval=".toList ++ p.approval] := rfl
  rw [hlines, List.mem_append, List.mem_singleton] at hmem
  rcases hmem with hmem | hmem
  · exact absurd rfl (head_reviewText _ hmem)
  · exact List.append_cancel_left hmem

theorem approval_printed {crypto : Crypto} {mode : LaunchMode} {inv : Invocation} {write : Write}
    {h : List Char}
    (hmem : "approval=".toList ++ h ∈ (reviewOrSign crypto mode inv none write).printed) :
    ∃ p, inv.prepared crypto mode = some p ∧ p.approval = h := by
  unfold reviewOrSign at hmem
  rcases hp : inv.prepared crypto mode with _ | p
  · rw [hp] at hmem
    exact absurd hmem List.not_mem_nil
  · rw [hp] at hmem
    exact ⟨p, rfl, (approval_mem_reviewText hmem).symm⟩

/-- What the tool has checked when it has a request to write: the approval is the text that it
prepared, the seed derives the key of the identity, and the signature of the message is good. -/
structure Requests (crypto : Crypto) (mode : LaunchMode) (inv : Invocation) (approval : List Char)
    (packet : List UInt8) (p : Prepared) : Prop where
  prepared : inv.prepared crypto mode = some p
  approval : approval = p.approval
  key : ∃ secret, keyRead crypto mode inv.identity p.launch.identity = some secret ∧
    signed (crypto.sign secret) crypto.check p.launch p.message = some packet

theorem request_requests {crypto : Crypto} {mode : LaunchMode} {inv : Invocation}
    {approval : List Char} {sequence : UInt64} {packet : List UInt8}
    (h : inv.request crypto mode approval = some (sequence, packet)) :
    ∃ p, Requests crypto mode inv approval packet p ∧ p.command.sequence = sequence := by
  obtain ⟨p, hp, h⟩ := Option.bind_eq_some_iff.mp h
  by_cases htext : approval ≠ p.approval
  · rw [if_pos htext] at h
    exact absurd h.symm (Option.some_ne_none _)
  rw [if_neg htext] at h
  obtain ⟨secret, hkey, h⟩ := Option.bind_eq_some_iff.mp h
  obtain ⟨packet', hsigned, h⟩ := Option.bind_eq_some_iff.mp h
  by_cases hname : (requestName p.command.sequence).length ≥ 64
  · rw [if_pos hname] at h
    exact absurd h.symm (Option.some_ne_none _)
  rw [if_neg hname] at h
  obtain ⟨hsequence, rfl⟩ := Prod.mk.inj (Option.some.inj h)
  exact ⟨p, ⟨hp, not_not.mp htext, ⟨secret, hkey, hsigned⟩⟩, hsequence⟩

/-- A sign that creates a file has a request to write to it. -/
theorem requests_of_written {crypto : Crypto} {mode : LaunchMode} {inv : Invocation} {write : Write}
    {h name : List Char} {bytes : List UInt8}
    (hw : (reviewOrSign crypto mode inv (some h) write).written = some (name, bytes)) :
    ∃ p packet, Requests crypto mode inv h packet p ∧ name = requestName p.command.sequence ∧
      (writeNew write packet).2 = some bytes ∧
      (reviewOrSign crypto mode inv (some h) write).ok = (writeNew write packet).1 := by
  unfold reviewOrSign at hw ⊢
  dsimp only at hw ⊢
  rcases hr : inv.request crypto mode h with _ | ⟨sequence, packet⟩
  · rw [hr] at hw
    exact absurd hw.symm (Option.some_ne_none _)
  rw [hr] at hw
  obtain ⟨bytes', hbytes, hpair⟩ := Option.map_eq_some_iff.mp hw
  obtain ⟨rfl, rfl⟩ := Prod.mk.inj hpair
  obtain ⟨p, hrequests, rfl⟩ := request_requests hr
  exact ⟨p, packet, hrequests, rfl, hbytes, rfl⟩

theorem written_of_no_request {crypto : Crypto} {mode : LaunchMode} {inv : Invocation}
    {write : Write} {h : List Char} (hno : ∀ p packet, ¬ Requests crypto mode inv h packet p) :
    (reviewOrSign crypto mode inv (some h) write).written = none := by
  rcases hw : (reviewOrSign crypto mode inv (some h) write).written with _ | ⟨name, bytes⟩
  · rfl
  · obtain ⟨p, packet, hrequests, -⟩ := requests_of_written hw
    exact absurd hrequests (hno p packet)

theorem keyRead_seed {crypto : Crypto} {mode : LaunchMode} {dir : IdentityDir} {identity : Identity}
    {secret : Vector UInt8 64} (h : keyRead crypto mode dir identity = some secret) :
    ∃ record, readFile dir.key 80 = some record ∧
      (crypto.keyPair (seedOf record)).2 = identity.publicKey := by
  obtain ⟨record, hrecord, h⟩ := Option.bind_eq_some_iff.mp h
  refine ⟨record, hrecord, ?_⟩
  by_contra hne
  split_ifs at h

theorem signed_eq {sign : List UInt8 → Vector UInt8 64}
    {check : List UInt8 → List UInt8 → List UInt8 → Bool} {launch : Launch}
    {message packet : List UInt8} (h : signed sign check launch message = some packet) :
    packet = message ++ (sign message).toList := by
  unfold signed at h
  dsimp only at h
  split_ifs at h
  exact (Option.some.inj h).symm

theorem writeNew_prefix {write : Write} {packet bytes : List UInt8}
    (h : (writeNew write packet).2 = some bytes) :
    bytes <+: packet ∧ ((writeNew write packet).1 = true → bytes = packet) := by
  cases write with
  | refused => exact absurd h.symm (Option.some_ne_none _)
  | cut length =>
    obtain rfl := Option.some.inj h
    exact ⟨List.take_prefix _ _, fun hok => absurd hok Bool.false_ne_true⟩
  | complete =>
    obtain rfl := Option.some.inj h
    exact ⟨List.prefix_rfl, fun _ => rfl⟩

/-! ### Binding -/

/-- A collision of two buffers. -/
def Collide (hash : List UInt8 → List UInt8) (a b : List UInt8) : Prop :=
  a ≠ b ∧ a.length = 176 ∧ b.length = 176 ∧ hash a = hash b

/-- **Same approval, same review.** Two preparations with one approval are the same, unless their
buffers collide. -/
theorem prepared_eq_or_collide {crypto : Crypto} {mode : LaunchMode} {a b : Invocation}
    {p q : Prepared} (hp : a.prepared crypto mode = some p) (hq : b.prepared crypto mode = some q)
    (h : p.approval = q.approval) :
    p = q ∨ Collide crypto.blake2b (reviewBuffer mode p.launch.identity.publicKey p.message)
      (reviewBuffer mode q.launch.identity.publicKey q.message) := by
  have hp := prepared_reads hp
  have hq := prepared_reads hq
  have hpl : p.message.length = 128 := by rw [hp.message, length_adminMessage]
  have hql : q.message.length = 128 := by rw [hq.message, length_adminMessage]
  have hhash := hexText_injective _ _ (hp.approval.symm.trans (h.trans hq.approval))
  by_cases heq : reviewBuffer mode p.launch.identity.publicKey p.message =
      reviewBuffer mode q.launch.identity.publicKey q.message
  · left
    obtain ⟨hkey, hmessage⟩ := reviewBuffer_injective (hpl.trans hql.symm) heq
    obtain ⟨hrealm, hboot, hcommand⟩ := adminMessage_injective
      (commandParse_executable hp.command).generation
      (commandParse_executable hq.command).generation
      (hp.message.symm.trans (hmessage.trans hq.message))
    obtain ⟨c, ⟨⟨realm, key⟩, boot⟩, message, approval⟩ := p
    obtain ⟨c', ⟨⟨realm', key'⟩, boot'⟩, message', approval'⟩ := q
    simp only at hkey hmessage hrealm hboot hcommand h
    rw [hkey, hmessage, hrealm, hboot, hcommand, h]
  · right
    exact ⟨heq, length_reviewBuffer hpl, length_reviewBuffer hql, hhash⟩

/-- A request has an identity whose key the seed derives, and a context of that identity. -/
theorem Requests.identity {crypto : Crypto} {mode : LaunchMode} {inv : Invocation}
    {approval : List Char} {packet : List UInt8} {p : Prepared}
    (h : Requests crypto mode inv approval packet p) :
    (∃ record, readFile inv.identity.key 80 = some record ∧
      (crypto.keyPair (seedOf record)).2 = p.launch.identity.publicKey) ∧
    identityRead mode inv.identity = some p.launch.identity ∧
    ∃ context, inv.session = some (some context) ∧ launchDecode context mode = (true, p.launch) := by
  have hreads := prepared_reads h.prepared
  obtain ⟨secret, hkey, -⟩ := h.key
  exact ⟨keyRead_seed hkey, hreads.identity, hreads.context⟩

theorem Requests.message {crypto : Crypto} {mode : LaunchMode} {inv : Invocation}
    {approval : List Char} {packet : List UInt8} {p : Prepared}
    (h : Requests crypto mode inv approval packet p) :
    packet.length = 192 ∧ packet.take 128 = p.message := by
  obtain ⟨secret, -, hsigned⟩ := h.key
  have hlength : p.message.length = 128 := by
    rw [(prepared_reads h.prepared).message, length_adminMessage]
  rw [signed_eq hsigned]
  constructor
  · rw [List.length_append, Vector.length_toList, hlength]
  · exact List.take_left' hlength

/-- What a review printed as an approval and a sign was given, both have prepared, unless the digest
collides on the two reviews. -/
theorem approval_or_collide {crypto : Crypto} {mode : LaunchMode} {a b : Invocation} {h : List Char}
    {write write' : Write} {name : List Char} {bytes : List UInt8}
    (hprinted : "approval=".toList ++ h ∈ (reviewOrSign crypto mode a none write).printed)
    (hwritten : (reviewOrSign crypto mode b (some h) write').written = some (name, bytes)) :
    ∃ p q packet, Reads crypto mode a p ∧ Reads crypto mode b q ∧
      name = requestName q.command.sequence ∧ packet.length = 192 ∧ packet.take 128 = q.message ∧
      bytes <+: packet ∧ ((reviewOrSign crypto mode b (some h) write').ok = true → bytes = packet) ∧
      (p = q ∨ Collide crypto.blake2b (reviewBuffer mode p.launch.identity.publicKey p.message)
        (reviewBuffer mode q.launch.identity.publicKey q.message)) := by
  obtain ⟨p, hp, rfl⟩ := approval_printed hprinted
  obtain ⟨q, packet, hw, rfl, hbytes, hok⟩ := requests_of_written hwritten
  obtain ⟨hlength, hmessage⟩ := hw.message
  obtain ⟨hbegins, hwhole⟩ := writeNew_prefix hbytes
  refine ⟨p, q, packet, prepared_reads hp, prepared_reads hw.prepared, rfl, hlength, hmessage,
    hbegins, ?_, prepared_eq_or_collide hp hw.prepared hw.approval⟩
  rw [hok]
  exact hwhole

/-- **Approval binds what was reviewed.** For any Monocypher and any mode of the tool:

* with BLAKE2b injective on buffers of 176 bytes, let a review print an approval, and let a sign
  that is given this approval create a file. Then both prepared the same: command, identity, boot
  and message are equal, each as its own files and arguments say. The file is that of the
  command's number, and it begins the signed packet, whose first 128 bytes are the message; it is
  the whole packet if the sign succeeds;
* a sign creates no file if the seed does not derive the public key of the identity;
* a sign creates no file if the identity of the context is not the selected one;
* with no injectivity the same holds, unless BLAKE2b collides on the two buffers that were
  reviewed. -/
theorem approval_binds (crypto : Crypto) (mode : LaunchMode) :
    ((∀ x y : List UInt8, x.length = 176 → y.length = 176 →
        crypto.blake2b x = crypto.blake2b y → x = y) →
      ∀ (a b : Invocation) (h : List Char) (write write' : Write) (name : List Char)
        (bytes : List UInt8),
        "approval=".toList ++ h ∈ (reviewOrSign crypto mode a none write).printed →
        (reviewOrSign crypto mode b (some h) write').written = some (name, bytes) →
        ∃ p packet, Reads crypto mode a p ∧ Reads crypto mode b p ∧
          name = requestName p.command.sequence ∧ packet.length = 192 ∧
          packet.take 128 = p.message ∧ bytes <+: packet ∧
          ((reviewOrSign crypto mode b (some h) write').ok = true → bytes = packet)) ∧
    (∀ (inv : Invocation) (identity : Identity) (h : List Char) (write : Write),
      identityRead mode inv.identity = some identity →
      (∀ record, readFile inv.identity.key 80 = some record →
        (crypto.keyPair (seedOf record)).2 ≠ identity.publicKey) →
      (reviewOrSign crypto mode inv (some h) write).written = none) ∧
    (∀ (inv : Invocation) (identity : Identity) (context : List UInt8) (launch : Launch)
      (h : List Char) (write : Write),
      identityRead mode inv.identity = some identity → inv.session = some (some context) →
      launchDecode context mode = (true, launch) → launch.identity ≠ identity →
      (reviewOrSign crypto mode inv (some h) write).written = none) ∧
    ∀ (a b : Invocation) (h : List Char) (write write' : Write) (name : List Char)
      (bytes : List UInt8),
      "approval=".toList ++ h ∈ (reviewOrSign crypto mode a none write).printed →
      (reviewOrSign crypto mode b (some h) write').written = some (name, bytes) →
      ∃ p q packet, Reads crypto mode a p ∧ Reads crypto mode b q ∧
        name = requestName q.command.sequence ∧ packet.length = 192 ∧ packet.take 128 = q.message ∧
        bytes <+: packet ∧ ((reviewOrSign crypto mode b (some h) write').ok = true → bytes = packet) ∧
        (p = q ∨ Collide crypto.blake2b (reviewBuffer mode p.launch.identity.publicKey p.message)
          (reviewBuffer mode q.launch.identity.publicKey q.message)) := by
  refine ⟨?_, ?_, ?_, fun _ _ _ _ _ _ _ => approval_or_collide⟩
  · intro hinjective a b h write write' name bytes hprinted hwritten
    obtain ⟨p, q, packet, hp, hq, hname, hlength, hmessage, hbegins, hwhole, heq | hcollide⟩ :=
      approval_or_collide hprinted hwritten
    · obtain rfl := heq
      exact ⟨p, packet, hp, hq, hname, hlength, hmessage, hbegins, hwhole⟩
    · obtain ⟨hne, hx, hy, hhash⟩ := hcollide
      exact absurd (hinjective _ _ hx hy hhash) hne
  · intro inv identity h write hidentity hseed
    refine written_of_no_request fun p packet hrequests => ?_
    obtain ⟨⟨record, hrecord, hkey⟩, hread, -⟩ := hrequests.identity
    obtain rfl := Option.some.inj (hidentity.symm.trans hread)
    exact hseed record hrecord hkey
  · intro inv identity context launch h write hidentity hsession hdecode hne
    refine written_of_no_request fun p packet hrequests => ?_
    obtain ⟨-, hread, context', hsession', hdecode'⟩ := hrequests.identity
    obtain rfl := Option.some.inj (Option.some.inj (hsession.symm.trans hsession'))
    have hlaunch : launch = p.launch := (Prod.mk.inj (hdecode.symm.trans hdecode')).2
    exact hne (hlaunch ▸ Option.some.inj (hread.symm.trans hidentity))

/-- The seed of the grant's key. -/
def grantSeed : Vector UInt8 32 :=
  ⟨[0x9d, 0x61, 0xb1, 0x9d, 0xef, 0xfd, 0x5a, 0x60, 0xba, 0x84, 0x4a, 0xf4, 0x92, 0xec, 0x2c, 0xc4,
    0x44, 0x49, 0xc5, 0x69, 0x7b, 0x32, 0x69, 0x19, 0x70, 0x3b, 0xac, 0x03, 0x1c, 0xae, 0x7f, 0x60].toArray,
    rfl⟩

/-- The digest of the grant's review. -/
def grantDigest : List UInt8 :=
  [0x52, 0xf6, 0xa1, 0x43, 0x32, 0x97, 0xdd, 0xf4, 0xb5, 0x0e, 0xa4, 0x98, 0xb9, 0xc3, 0x22, 0xaa,
    0xec, 0x04, 0xb4, 0xe4, 0xde, 0xe1, 0x87, 0xf4, 0xfc, 0x0f, 0xb8, 0x23, 0x02, 0x5b, 0x00, 0x01]

/-- A Monocypher that knows the grant: it answers as the real one does on its buffer, its seed and
its message. -/
def grantCrypto : Crypto where
  blake2b x := if x = reviewBuffer .fixture grantKey (grantPacket.take 128) then grantDigest else x
  keyPair seed := ((Vector.ofFn fun i => (seed.toList ++ grantKey.toList).getD i 0),
    if seed = grantSeed then grantKey else seed)
  sign _ := grantSign
  check := grantCheck

/-- The grant, from the fixture's identity and a context of it. -/
def grantInvocation : Invocation where
  identity := ⟨some (grantLaunch.identity.record .fixture),
    some (keyPrefix.set 15 LaunchMode.fixture.byte ++ grantLaunch.identity.realm.toList ++
      grantSeed.toList)⟩
  session := some (some (grantLaunch.record .fixture))
  args := grantArgs

/-- The review of the grant prints the digest, and the sign that is given it writes the message of
the grant. -/
theorem approval_binds_grant :
    ∃ p packet, Reads grantCrypto .fixture grantInvocation p ∧
      packet.take 128 = p.message ∧
      (reviewOrSign grantCrypto .fixture grantInvocation (some (hexText grantDigest)) .complete).written =
        some (requestName 1, grantPacket) ∧ grantPacket <+: packet := by
  have hinjective : ∀ x y : List UInt8, x.length = 176 → y.length = 176 →
      grantCrypto.blake2b x = grantCrypto.blake2b y → x = y := by
    have hdigest : grantDigest.length = 32 := rfl
    intro x y hx hy h
    unfold grantCrypto at h
    dsimp only at h
    split_ifs at h with h1 h2 h2
    · rw [h1, h2]
    · rw [← h] at hy
      exact absurd (hdigest.symm.trans hy) (by decide)
    · rw [h] at hx
      exact absurd (hdigest.symm.trans hx) (by decide)
    · exact h
  have hprinted : "approval=".toList ++ hexText grantDigest ∈
      (reviewOrSign grantCrypto .fixture grantInvocation none .complete).printed := by
    decide +kernel
  have hwritten : (reviewOrSign grantCrypto .fixture grantInvocation (some (hexText grantDigest))
      .complete).written = some (requestName 1, grantPacket) := by
    decide +kernel
  obtain ⟨p, packet, hreads, -, -, -, hmessage, hbegins, -⟩ :=
    (approval_binds grantCrypto .fixture).1 hinjective _ _ _ _ _ _ _ hprinted hwritten
  exact ⟨p, packet, hreads, hmessage, hwritten, hbegins⟩

end Operator
end Tcs
