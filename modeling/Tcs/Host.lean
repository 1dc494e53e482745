/-
# The operator's host

What the commands of `tools/operator.c` leave behind, command after command:
`create` makes the directory of an identity, `context` the directory of a
session, `sign` adds a request to it and `launch` consumes it. Nothing is
overwritten, and a write can end anywhere.

So a directory only grows (`Grows`), and what is in it goes together
(`Coherent`): a public record that can be read has its private seed beside
it, a context names an identity of the host, a request that is whole is
signed for the context of its session and has the number of its name, and
what a launch has consumed is the context. `host_records` says so of every
run.

Processes that run at the same time are the subject of `OneShot.lean`. Entropy,
the answers of the operating system and Monocypher are arguments.

Key definitions: `Host`, `createIdentity`, `contextCreate`, `launchGuest`,
`hostStep`, `Coherent`.
Key theorems: `putNew_cases`, `hostStep_changes`, `coherent_step`,
`host_records`.
-/
import Tcs.Decimal
import Tcs.OneShot

namespace Tcs
namespace Operator

/-! ### Directories -/

/-- The directories of the host, under their paths. -/
abbrev Host (κ : Type*) := κ → Option (Files.Dir (List Char) UInt8)

/-- `identity.pub`. -/
def identityPub : List Char := "identity.pub".toList
/-- `identity.key`. -/
def identityKey : List Char := "identity.key".toList

/-- A directory without files. -/
def emptyDir : Files.Dir (List Char) UInt8 := fun _ => none

/-- The two files of an identity in a directory. -/
def identityDir (d : Files.Dir (List Char) UInt8) : IdentityDir := ⟨d identityPub, d identityKey⟩

/-- `write_new`, which creates no file that is there. -/
def putNew (d : Files.Dir (List Char) UInt8) (name : List Char) (bytes : List UInt8) (write : Write) :
    Bool × Files.Dir (List Char) UInt8 :=
  if d name ≠ none then (false, d)
  else
    match writeNew write bytes with
    | (ok, none) => (ok, d)
    | (ok, some file) => (ok, Function.update d name (some file))

/-- What `directory` comes to that creates its last component: nothing, a directory that it then
refuses, or one that is opened. -/
inductive Made
  | refused
  | unusable
  | opened

/-! ### The commands -/

/-- The record of a private key. -/
def keyRecord (mode : LaunchMode) (realm seed : Vector UInt8 32) : List UInt8 :=
  keyPrefix.set 15 mode.byte ++ (realm.toList ++ seed.toList)

/-- `create_identity`, with what `getentropy` gives: whether it succeeded, and the directory that it
has made. -/
def createIdentity (crypto : Crypto) (mode : LaunchMode) (random : Option (Vector UInt8 64))
    (made : Made) (writeKey writePub : Write) : Bool × Option (Files.Dir (List Char) UInt8) :=
  match random with
  | none => (false, none)
  | some random =>
    let realm : Vector UInt8 32 := Bytes.field random.toList 32 32
    let seed : Vector UInt8 32 := Bytes.field random.toList 0 32
    let identity : Identity := ⟨realm, (crypto.keyPair seed).2⟩
    let encoded := publicEncode identity mode
    if !encoded.1 then (false, none)
    else
      match made with
      | .refused => (false, none)
      | .unusable => (false, some emptyDir)
      | .opened =>
        let out := putNew emptyDir identityKey (keyRecord mode realm seed) writeKey
        if !out.1 then (false, some out.2)
        else
          let out := putNew out.2 identityPub encoded.2 writePub
          (out.1, some out.2)

/-- `context_create`, for the identity in this directory. -/
def contextCreate (mode : LaunchMode) (dir : IdentityDir) (random : Option (Vector UInt8 32))
    (made : Made) (write : Write) : Bool × Option (Files.Dir (List Char) UInt8) :=
  match identityRead mode dir, random with
  | some identity, some boot =>
    let encoded := launchEncode ⟨identity, boot⟩ mode
    if !encoded.1 then (false, none)
    else
      match made with
      | .refused => (false, none)
      | .unusable => (false, some emptyDir)
      | .opened =>
        let out := putNew emptyDir launchContext encoded.2 write
        (out.1, some out.2)
  | _, _ => (false, none)

/-- `review_or_sign` on the directory of a session. -/
def requestSession (crypto : Crypto) (mode : LaunchMode) (dir : IdentityDir)
    (session : Files.Dir (List Char) UInt8) (args : Args) (approval : Option (List Char))
    (write : Write) : Bool × Files.Dir (List Char) UInt8 :=
  let inv : Invocation := ⟨dir, some (session launchContext), args⟩
  match approval with
  | none => ((reviewOrSign crypto mode inv none write).ok, session)
  | some text =>
    match inv.request crypto mode text with
    | none => (false, session)
    | some (sequence, packet) => putNew session (requestName sequence) packet write

/-- `launch_guest` on the directory of a session, as far as `execv`; `rest` is whether the calls after
the two writes succeed. -/
def launchGuest (mode : LaunchMode) (args : LaunchArgs) (session : Files.Dir (List Char) UInt8)
    (writeUsed writeImage : Write) (rest : Bool) : Bool × Files.Dir (List Char) UInt8 :=
  match args.ready mode (session launchContext) with
  | none => (false, session)
  | some (context, size) =>
    let out := putNew session launchUsed context writeUsed
    if !out.1 then (false, out.2)
    else
      match args.imageRead with
      | none => (false, out.2)
      | some image =>
        if image.length ≠ size then (false, out.2)
        else
          let out := putNew out.2 launchImg image writeImage
          (out.1 && rest, out.2)

/-- A command line of the tool, with the paths of its directories and what becomes of its calls:
`opened` is whether the directories that it needs can be opened, and their files be read. -/
inductive HostCommand (κ : Type*)
  | create (path : κ) (random : Option (Vector UInt8 64)) (made : Made) (writeKey writePub : Write)
  | context (identity session : κ) (opened : Bool) (random : Option (Vector UInt8 32)) (made : Made)
    (write : Write)
  | request (identity session : κ) (opened : Bool) (args : Args) (approval : Option (List Char))
    (write : Write)
  | launch (identity session : κ) (opened : Bool) (image qemu : List UInt8) (imageSize : Option ℕ)
    (imageRead : Option (List UInt8)) (writeUsed writeImage : Write) (rest : Bool)

section

variable {κ : Type*} [DecidableEq κ]

/-- The host with a directory under a path. -/
def Host.set (h : Host κ) (path : κ) (d : Files.Dir (List Char) UInt8) : Host κ :=
  Function.update h path (some d)

@[simp] theorem Host.set_self (h : Host κ) (path : κ) (d : Files.Dir (List Char) UInt8) :
    h.set path d path = some d := Function.update_self _ _ _

theorem Host.set_ne (h : Host κ) {path other : κ} (d : Files.Dir (List Char) UInt8)
    (hne : other ≠ path) : h.set path d other = h other := Function.update_of_ne hne _ _

/-- The host after a command has made a directory, unless there was one. -/
def Host.make (h : Host κ) (path : κ) (out : Bool × Option (Files.Dir (List Char) UInt8)) :
    Host κ × Bool :=
  match h path, out.2 with
  | none, some d => (h.set path d, out.1)
  | _, _ => (h, false)

/-- One command. A directory that is not there cannot be opened. -/
def hostStep (crypto : Crypto) (mode : LaunchMode) (h : Host κ) : HostCommand κ → Host κ × Bool
  | .create path random made writeKey writePub =>
    h.make path (createIdentity crypto mode random made writeKey writePub)
  | .context identity session opened random made write =>
    match opened, h identity with
    | true, some d => h.make session (contextCreate mode (identityDir d) random made write)
    | _, _ => (h, false)
  | .request identity session opened args approval write =>
    match opened, h identity, h session with
    | true, some d, some s =>
      let out := requestSession crypto mode (identityDir d) s args approval write
      (h.set session out.2, out.1)
    | _, _, _ => (h, false)
  | .launch identity session opened image qemu imageSize imageRead writeUsed writeImage rest =>
    match h identity, h session with
    | some d, some s =>
      let args : LaunchArgs := ⟨identityDir d, opened, image, qemu, imageSize, imageRead⟩
      let out := launchGuest mode args s writeUsed writeImage rest
      (h.set session out.2, out.1)
    | _, _ => (h, false)

end

/-! ### Names and records -/

theorem head_requestName (sequence : UInt64) : (requestName sequence).head? = some 'r' := rfl

theorem requestName_injective : Function.Injective requestName := by
  intro a b h
  exact decimalText_injective (List.append_cancel_left (List.append_cancel_right h))

theorem requestName_ne (sequence : UInt64) : requestName sequence ≠ identityPub ∧
    requestName sequence ≠ identityKey ∧ requestName sequence ≠ launchContext ∧
      requestName sequence ≠ launchUsed ∧ requestName sequence ≠ launchImg := by
  have hne : ∀ name : List Char, name.head? ≠ some 'r' → requestName sequence ≠ name := by
    rintro name hname rfl
    exact hname (head_requestName sequence)
  exact ⟨hne _ (by decide), hne _ (by decide), hne _ (by decide), hne _ (by decide),
    hne _ (by decide)⟩

theorem identity_of_record {mode : LaunchMode} {identity identity' : Identity}
    (h : identity.record mode = identity'.record mode) : identity = identity' := by
  obtain ⟨hrealm, hkey⟩ := List.append_inj (List.append_cancel_left h)
    (by rw [Vector.length_toList, Vector.length_toList])
  obtain ⟨realm, key⟩ := identity
  obtain rfl := Vector.toList_inj.mp hrealm
  obtain rfl := Vector.toList_inj.mp hkey
  rfl

theorem launch_of_record {mode : LaunchMode} {launch launch' : Launch}
    (h : launch.record mode = launch'.record mode) : launch = launch' := by
  obtain ⟨hrealm, hrest⟩ := List.append_inj (List.append_cancel_left h)
    (by rw [Vector.length_toList, Vector.length_toList])
  obtain ⟨hboot, hkey⟩ := List.append_inj hrest (by rw [Vector.length_toList, Vector.length_toList])
  obtain ⟨⟨realm, key⟩, boot⟩ := launch
  obtain rfl := Vector.toList_inj.mp hrealm
  obtain rfl := Vector.toList_inj.mp hboot
  obtain rfl := Vector.toList_inj.mp hkey
  rfl

theorem identityRead_iff {mode : LaunchMode} {dir : IdentityDir} {identity : Identity} :
    identityRead mode dir = some identity ↔
      dir.pub = some (identity.record mode) ∧ identityValid identity mode = true := by
  unfold identityRead
  constructor
  · intro h
    obtain ⟨bytes, hbytes, h⟩ := Option.bind_eq_some_iff.mp h
    obtain ⟨hpub, -⟩ := Option.filter_eq_some_iff.mp hbytes
    rcases hdecode : publicDecode bytes mode with ⟨ok, identity'⟩
    rw [hdecode] at h
    cases ok with
    | false => exact absurd h.symm (Option.some_ne_none _)
    | true =>
      obtain rfl := Option.some.inj h
      obtain ⟨hvalid, rfl⟩ := publicDecode_ok_iff.mp hdecode
      exact ⟨hpub, hvalid⟩
  · rintro ⟨hpub, hvalid⟩
    refine Option.bind_eq_some_iff.mpr ⟨identity.record mode, ?_, ?_⟩
    · exact Option.filter_eq_some_iff.mpr ⟨hpub, by simp⟩
    · rw [publicDecode_ok_iff.mpr ⟨hvalid, rfl⟩]
      rfl

/-- The record of a private key is read, for the identity that its seed derives. -/
theorem keyRead_record (crypto : Crypto) (mode : LaunchMode) (realm seed : Vector UInt8 32)
    (pub : Option (List UInt8)) :
    keyRead crypto mode ⟨pub, some (keyRecord mode realm seed)⟩ ⟨realm, (crypto.keyPair seed).2⟩ =
      some (crypto.keyPair seed).1 := by
  have hlength : (keyRecord mode realm seed).length = 80 := by
    simp [keyRecord, keyPrefix]
  have hrealm : Bytes.field (keyRecord mode realm seed) 16 32 = realm :=
    Bytes.field_append (by simp [keyPrefix])
  have hseed : seedOf (keyRecord mode realm seed) = seed := by
    unfold seedOf keyRecord
    rw [← List.append_assoc, ← List.append_nil seed.toList]
    exact Bytes.field_append (by simp [keyPrefix])
  refine Option.bind_eq_some_iff.mpr ⟨keyRecord mode realm seed, ?_, ?_⟩
  · exact Option.filter_eq_some_iff.mpr ⟨rfl, by simp [hlength]⟩
  · rw [hrealm, hseed, if_neg, if_neg (fun hne => hne rfl)]
    rintro (h | h | h)
    · exact h rfl
    · exact h rfl
    · exact h rfl

/-- **Writing a file.** Nothing is done, or there was no file of the name and now there is one, with
what has been written of the bytes. -/
theorem putNew_cases (d : Files.Dir (List Char) UInt8) (name : List Char) (bytes : List UInt8)
    (write : Write) :
    putNew d name bytes write = (false, d) ∨
      d name = none ∧ ∃ file, file <+: bytes ∧
        ((putNew d name bytes write).1 = true → file = bytes) ∧
        (putNew d name bytes write).2 = Function.update d name (some file) := by
  unfold putNew
  by_cases hn : d name ≠ none
  · exact Or.inl (if_pos hn)
  rw [if_neg hn]
  cases write with
  | refused => exact Or.inl rfl
  | cut length =>
    exact Or.inr ⟨not_not.mp hn, _, List.take_prefix length bytes,
      fun h => absurd h Bool.false_ne_true, rfl⟩
  | complete => exact Or.inr ⟨not_not.mp hn, bytes, List.prefix_rfl, fun _ => rfl, rfl⟩

theorem extends_putNew (d : Files.Dir (List Char) UInt8) (name : List Char) (bytes : List UInt8)
    (write : Write) : Files.Extends d (putNew d name bytes write).2 := by
  rcases putNew_cases d name bytes write with heq | ⟨hn, file, -, -, heq⟩
  · rw [heq]
    exact Files.Extends.refl d
  · rw [heq]
    exact Files.extends_update hn _

/-! ### What is in a directory -/

/-- The launch whose record is the context of a session. -/
def SessionOf (mode : LaunchMode) (d : Files.Dir (List Char) UInt8) (launch : Launch) : Prop :=
  d launchContext = some (launch.record mode) ∧ (launchEncode launch mode).1 = true

/-- The packet is signed for the launch, and its command is that of the words, with the digest of its
message as the approval. -/
structure Approved (crypto : Crypto) (mode : LaunchMode) (launch : Launch) (packet : List UInt8)
    (args : Args) (approval : List Char) : Prop where
  signed : Signed crypto.check launch.identity.publicKey launch.identity.realm launch.boot packet
  command : commandParse args = some (packetCommand packet)
  approval : approval = hexText (crypto.blake2b
    (reviewBuffer mode launch.identity.publicKey (packet.take 128)))

/-- **What is in a directory goes together**, for the identities of the host and for what was asked
to be signed in it. -/
structure DirOk (crypto : Crypto) (mode : LaunchMode) (known : Identity → Prop)
    (asked : Args → List Char → Prop) (d : Files.Dir (List Char) UInt8) : Prop where
  /-- The private seed is beside a public record. -/
  identity : ∀ identity, identityRead mode (identityDir d) = some identity →
    ∃ secret, keyRead crypto mode (identityDir d) identity = some secret
  context : ∀ launch, SessionOf mode d launch → known launch.identity
  request : ∀ sequence packet, d (requestName sequence) = some packet →
    packet.length = adminPacketBytes → ∃ launch args approval, SessionOf mode d launch ∧
      Approved crypto mode launch packet args approval ∧ asked args approval ∧
        (packetCommand packet).sequence = sequence
  used : ∀ used, d launchUsed = some used →
    ∃ launch, SessionOf mode d launch ∧ used <+: launch.record mode

section

variable {crypto : Crypto} {mode : LaunchMode} {known known' : Identity → Prop}
  {asked asked' : Args → List Char → Prop} {d : Files.Dir (List Char) UInt8}

theorem DirOk.mono (h : DirOk crypto mode known asked d) (hknown : ∀ i, known i → known' i)
    (hasked : ∀ args approval, asked args approval → asked' args approval) :
    DirOk crypto mode known' asked' d where
  identity := h.identity
  context launch hl := hknown _ (h.context launch hl)
  request sequence packet hp hlen := by
    obtain ⟨launch, args, approval, hl, happroved, hmem, hseq⟩ := h.request sequence packet hp hlen
    exact ⟨launch, args, approval, hl, happroved, hasked _ _ hmem, hseq⟩
  used := h.used

/-- A directory of which no file is of the tool but those of an identity or a context. -/
theorem dirOk_new (hidentity : ∀ identity, identityRead mode (identityDir d) = some identity →
      ∃ secret, keyRead crypto mode (identityDir d) identity = some secret)
    (hcontext : ∀ launch, SessionOf mode d launch → known launch.identity)
    (hname : ∀ name, name ≠ identityPub → name ≠ identityKey → name ≠ launchContext →
      d name = none) : DirOk crypto mode known asked d where
  identity := hidentity
  context := hcontext
  request sequence packet hp _ := by
    obtain ⟨h1, h2, h3, -⟩ := requestName_ne sequence
    exact absurd (hp.symm.trans (hname _ h1 h2 h3)) (Option.some_ne_none _)
  used used hu :=
    absurd (hu.symm.trans (hname _ (by decide) (by decide) (by decide))) (Option.some_ne_none _)

theorem identityRead_absent (hpub : d identityPub = none) (identity : Identity) :
    identityRead mode (identityDir d) ≠ some identity :=
  fun h => Option.some_ne_none _ ((identityRead_iff.mp h).1.symm.trans hpub)

theorem sessionOf_absent (hcontext : d launchContext = none) (launch : Launch) :
    ¬ SessionOf mode d launch :=
  fun h => Option.some_ne_none _ (h.1.symm.trans hcontext)

theorem dirOk_empty : DirOk crypto mode known asked emptyDir :=
  dirOk_new (fun _ h => absurd h (identityRead_absent rfl _))
    (fun _ h => absurd h (sessionOf_absent rfl _)) fun _ _ _ _ => rfl

/-- A new file of a session: what it holds is asked for if it is a request, and is a beginning of the
context if it is what a launch consumes. -/
theorem DirOk.write (h : DirOk crypto mode known asked d) {name : List Char} {file : List UInt8}
    (hpub : name ≠ identityPub) (hkey : name ≠ identityKey) (hcontext : name ≠ launchContext)
    (hrequest : ∀ sequence, name = requestName sequence → file.length = adminPacketBytes →
      ∃ launch args approval, SessionOf mode d launch ∧
        Approved crypto mode launch file args approval ∧ asked args approval ∧
          (packetCommand file).sequence = sequence)
    (hused : name = launchUsed → ∃ launch, SessionOf mode d launch ∧ file <+: launch.record mode) :
    DirOk crypto mode known asked (Function.update d name (some file)) := by
  have hdir : identityDir (Function.update d name (some file)) = identityDir d := by
    unfold identityDir
    rw [Function.update_of_ne hpub.symm, Function.update_of_ne hkey.symm]
  have hsession : ∀ launch, SessionOf mode (Function.update d name (some file)) launch ↔
      SessionOf mode d launch := by
    intro launch
    unfold SessionOf
    rw [Function.update_of_ne hcontext.symm]
  refine ⟨?_, ?_, ?_, ?_⟩
  · rw [hdir]
    exact h.identity
  · intro launch hl
    exact h.context launch ((hsession launch).mp hl)
  · intro sequence packet hp hlen
    simp only [hsession]
    by_cases heq : requestName sequence = name
    · rw [heq, Function.update_self] at hp
      obtain rfl := Option.some.inj hp
      exact hrequest sequence heq.symm hlen
    · rw [Function.update_of_ne heq] at hp
      exact h.request sequence packet hp hlen
  · intro used hu
    simp only [hsession]
    by_cases heq : launchUsed = name
    · rw [heq, Function.update_self] at hu
      obtain rfl := Option.some.inj hu
      exact hused heq.symm
    · rw [Function.update_of_ne heq] at hu
      exact h.used used hu

/-! ### What a command leaves in a directory -/

theorem SessionOf.unique {launch launch' : Launch} (h : SessionOf mode d launch)
    (h' : SessionOf mode d launch') : launch = launch' :=
  launch_of_record (Option.some.inj (h.1.symm.trans h'.1))

/-- A directory with a private record, or a piece of one, and no public record. -/
theorem dirOk_key (file : List UInt8) :
    DirOk crypto mode known asked (Function.update emptyDir identityKey (some file)) := by
  refine dirOk_new ?_ ?_ ?_
  · intro identity h
    exact absurd h (identityRead_absent (Function.update_of_ne (by decide) _ _) identity)
  · intro launch h
    exact absurd h (sessionOf_absent (Function.update_of_ne (by decide) _ _) launch)
  · intro name _ hkey _
    exact Function.update_of_ne hkey _ _

/-- A directory with a private record, and a piece of the public one. -/
theorem dirOk_identity {realm seed : Vector UInt8 32} {file : List UInt8}
    (hfile : file <+: Identity.record ⟨realm, (crypto.keyPair seed).2⟩ mode) :
    DirOk crypto mode known asked (Function.update (Function.update emptyDir identityKey
      (some (keyRecord mode realm seed))) identityPub (some file)) := by
  have hdir : identityDir (Function.update (Function.update emptyDir identityKey
      (some (keyRecord mode realm seed))) identityPub (some file)) =
        ⟨some file, some (keyRecord mode realm seed)⟩ := by
    unfold identityDir
    rw [Function.update_self, Function.update_of_ne (by decide), Function.update_self]
  refine dirOk_new ?_ ?_ ?_
  · intro identity h
    rw [hdir] at h ⊢
    obtain rfl := Option.some.inj (identityRead_iff.mp h).1
    obtain rfl := identity_of_record (hfile.eq_of_length (by simp))
    exact ⟨_, keyRead_record crypto mode realm seed _⟩
  · intro launch h
    refine absurd h (sessionOf_absent ?_ launch)
    rw [Function.update_of_ne (by decide), Function.update_of_ne (by decide)]
    rfl
  · intro name hpub hkey _
    rw [Function.update_of_ne hpub, Function.update_of_ne hkey]
    rfl

/-- The directory of an identity: the public record is written only after the private one. -/
theorem createIdentity_ok {random : Option (Vector UInt8 64)} {made : Made} {writeKey writePub : Write}
    (h : (createIdentity crypto mode random made writeKey writePub).2 = some d) :
    DirOk crypto mode known asked d := by
  unfold createIdentity at h
  rcases random with _ | random
  · exact absurd h.symm (Option.some_ne_none _)
  dsimp only at h
  generalize (Bytes.field random.toList 32 32 : Vector UInt8 32) = realm at h
  generalize (Bytes.field random.toList 0 32 : Vector UInt8 32) = seed at h
  unfold publicEncode at h
  by_cases hvalid : (!identityValid ⟨realm, (crypto.keyPair seed).2⟩ mode) = true
  · rw [if_pos hvalid] at h
    exact absurd h.symm (Option.some_ne_none _)
  rw [if_neg hvalid] at h
  cases made with
  | refused => exact absurd h.symm (Option.some_ne_none _)
  | unusable =>
    obtain rfl := Option.some.inj h
    exact dirOk_empty
  | opened =>
    dsimp only at h
    rcases putNew_cases emptyDir identityKey (keyRecord mode realm seed) writeKey with
      heq | ⟨-, file, -, hwhole, heq⟩
    · rw [heq] at h
      obtain rfl := Option.some.inj h
      exact dirOk_empty
    rw [heq] at h
    by_cases hok : (!(putNew emptyDir identityKey (keyRecord mode realm seed) writeKey).1) = true
    · rw [if_pos hok] at h
      obtain rfl := Option.some.inj h
      exact dirOk_key file
    rw [if_neg hok, hwhole (by simpa using hok)] at h
    rcases putNew_cases (Function.update emptyDir identityKey (some (keyRecord mode realm seed)))
      identityPub (Identity.record ⟨realm, (crypto.keyPair seed).2⟩ mode) writePub with
      heq | ⟨-, file, hfile, -, heq⟩
    · rw [heq] at h
      obtain rfl := Option.some.inj h
      exact dirOk_key _
    · rw [heq] at h
      obtain rfl := Option.some.inj h
      exact dirOk_identity hfile

/-- A directory with a context, or a piece of one. -/
theorem dirOk_context {launch : Launch} {file : List UInt8} (hknown : known launch.identity)
    (hfile : file <+: launch.record mode) :
    DirOk crypto mode known asked (Function.update emptyDir launchContext (some file)) := by
  refine dirOk_new ?_ ?_ ?_
  · intro identity h
    exact absurd h (identityRead_absent (Function.update_of_ne (by decide) _ _) identity)
  · rintro other ⟨hcontext, -⟩
    rw [Function.update_self] at hcontext
    obtain rfl := Option.some.inj hcontext
    obtain rfl := launch_of_record (hfile.eq_of_length (by simp))
    exact hknown
  · intro name _ _ hname
    exact Function.update_of_ne hname _ _

/-- The directory of a session: its context names the identity that has been read. -/
theorem contextCreate_ok {dir : IdentityDir} {random : Option (Vector UInt8 32)} {made : Made}
    {write : Write} (hknown : ∀ identity, identityRead mode dir = some identity → known identity)
    (h : (contextCreate mode dir random made write).2 = some d) :
    DirOk crypto mode known asked d := by
  unfold contextCreate at h
  rcases hread : identityRead mode dir with _ | identity
  · rw [hread] at h
    exact absurd h.symm (Option.some_ne_none _)
  rcases random with _ | boot
  · rw [hread] at h
    exact absurd h.symm (Option.some_ne_none _)
  rw [hread] at h
  dsimp only at h
  by_cases hencode : (launchEncode ⟨identity, boot⟩ mode).1 = true
  swap
  · rw [if_pos (by simpa using hencode)] at h
    exact absurd h.symm (Option.some_ne_none _)
  rw [if_neg (by simpa using hencode), launchEncode_eq hencode] at h
  cases made with
  | refused => exact absurd h.symm (Option.some_ne_none _)
  | unusable =>
    obtain rfl := Option.some.inj h
    exact dirOk_empty
  | opened =>
    dsimp only at h
    rcases putNew_cases emptyDir launchContext (Launch.record ⟨identity, boot⟩ mode) write with
      heq | ⟨-, file, hfile, -, heq⟩
    · rw [heq] at h
      obtain rfl := Option.some.inj h
      exact dirOk_empty
    rw [heq] at h
    obtain rfl := Option.some.inj h
    exact dirOk_context (hknown _ hread) hfile

/-- A request that the tool has to write is signed for the launch of the session, with the approval of
the command line. -/
theorem request_approved {dir : IdentityDir} {args : Args} {approval : List Char} {sequence : UInt64}
    {packet : List UInt8} (h : (⟨dir, some (d launchContext), args⟩ : Invocation).request crypto mode
      approval = some (sequence, packet)) :
    ∃ launch, SessionOf mode d launch ∧ Approved crypto mode launch packet args approval ∧
      (packetCommand packet).sequence = sequence := by
  obtain ⟨p, hrequests, hsequence⟩ := request_requests h
  have hreads := prepared_reads hrequests.prepared
  obtain ⟨context, hcontext, hdecode⟩ := hreads.context
  obtain ⟨hvalid, rfl⟩ := launchDecode_ok_iff.mp hdecode
  have hc := commandParse_executable hreads.command
  obtain ⟨secret, -, hsigned⟩ := hrequests.key
  have hpacket := signed_eq hsigned
  have hcheck : crypto.check (crypto.sign secret p.message).toList
      p.launch.identity.publicKey.toList p.message = true := by
    by_contra hne
    unfold signed at hsigned
    dsimp only at hsigned
    rw [if_pos (by simpa using hne)] at hsigned
    exact absurd hsigned.symm (Option.some_ne_none _)
  rw [hreads.message] at hpacket hcheck
  have hcommand : packetCommand packet = p.command := by
    rw [hpacket]
    exact packetCommand_message _ _ hc.generation _
  refine ⟨p.launch, ⟨Option.some.inj hcontext, launchEncode_ok_iff.mpr hvalid⟩, ⟨?_, ?_, ?_⟩, ?_⟩
  · rw [hpacket]
    exact signed_message hc Vector.length_toList hcheck
  · rw [hcommand]
    exact hreads.command
  · rw [hrequests.approval, hreads.approval, hrequests.message.2]
  · rw [hcommand, hsequence]

theorem extends_requestSession {dir : IdentityDir} {args : Args} {approval : Option (List Char)}
    {write : Write} : Files.Extends d (requestSession crypto mode dir d args approval write).2 := by
  unfold requestSession
  cases approval with
  | none => exact Files.Extends.refl d
  | some text =>
    dsimp only
    rcases (⟨dir, some (d launchContext), args⟩ : Invocation).request crypto mode text with
      _ | ⟨sequence, packet⟩
    · exact Files.Extends.refl d
    · exact extends_putNew d _ _ _

/-- The directory of a session after a review or a signature. -/
theorem requestSession_ok {dir : IdentityDir} {args : Args} {approval : Option (List Char)}
    {write : Write} (h : DirOk crypto mode known asked d)
    (hasked : ∀ text, approval = some text → asked args text) :
    DirOk crypto mode known asked (requestSession crypto mode dir d args approval write).2 := by
  unfold requestSession
  cases approval with
  | none => exact h
  | some text =>
    dsimp only
    rcases hrequest : (⟨dir, some (d launchContext), args⟩ : Invocation).request crypto mode text with
      _ | ⟨sequence, packet⟩
    · exact h
    dsimp only
    rcases putNew_cases d (requestName sequence) packet write with heq | ⟨-, file, hfile, -, heq⟩
    · rw [heq]
      exact h
    rw [heq]
    obtain ⟨hpub, hkey, hcontext, hused, -⟩ := requestName_ne sequence
    refine h.write hpub hkey hcontext ?_ (fun heq => absurd heq hused)
    intro sequence' hname hlen
    obtain ⟨launch, hl, happroved, hsequence⟩ := request_approved hrequest
    obtain rfl := requestName_injective hname
    obtain rfl : file = packet := hfile.eq_of_length (hlen.trans happroved.signed.length.symm)
    exact ⟨launch, args, text, hl, happroved, hasked text rfl, hsequence⟩

/-- What a launch consumes is the context of the session. -/
theorem ready_session {args : LaunchArgs} {context : List UInt8} {size : ℕ}
    (h : args.ready mode (d launchContext) = some (context, size)) :
    ∃ launch, SessionOf mode d launch ∧ context = launch.record mode := by
  unfold LaunchArgs.ready at h
  by_cases hguard : !absoluteArgument args.image ∨ !absoluteArgument args.qemu ∨ !args.opened
  · rw [if_pos hguard] at h
    exact absurd h.symm (Option.some_ne_none _)
  rw [if_neg hguard] at h
  obtain ⟨identity, -, h⟩ := Option.bind_eq_some_iff.mp h
  obtain ⟨bytes, hbytes, h⟩ := Option.bind_eq_some_iff.mp h
  obtain ⟨hfile, -⟩ := Option.filter_eq_some_iff.mp hbytes
  rcases hdecode : launchDecode bytes mode with ⟨ok, launch⟩
  simp only [hdecode] at h
  by_cases hbad : !ok ∨ identity.realm ≠ launch.identity.realm ∨
      identity.publicKey ≠ launch.identity.publicKey
  · rw [if_pos hbad] at h
    exact absurd h.symm (Option.some_ne_none _)
  rw [if_neg hbad] at h
  obtain ⟨size', -, h⟩ := Option.bind_eq_some_iff.mp h
  split_ifs at h
  obtain ⟨rfl, -⟩ := Prod.mk.inj (Option.some.inj h)
  obtain ⟨rfl, -⟩ : ok = true ∧ _ := by simpa using hbad
  obtain ⟨hvalid, rfl⟩ := launchDecode_ok_iff.mp hdecode
  exact ⟨launch, ⟨hfile, launchEncode_ok_iff.mpr hvalid⟩, rfl⟩

theorem extends_launchGuest {args : LaunchArgs} {writeUsed writeImage : Write} {rest : Bool} :
    Files.Extends d (launchGuest mode args d writeUsed writeImage rest).2 := by
  unfold launchGuest
  rcases args.ready mode (d launchContext) with _ | ⟨context, size⟩
  · exact Files.Extends.refl d
  have hused := extends_putNew d launchUsed context writeUsed
  dsimp only
  split_ifs
  · exact hused
  rcases args.imageRead with _ | image
  · exact hused
  dsimp only
  split_ifs
  · exact hused
  · exact hused.trans (extends_putNew _ _ _ _)

/-- The directory of a session after a launch. -/
theorem launchGuest_ok {args : LaunchArgs} {writeUsed writeImage : Write} {rest : Bool}
    (h : DirOk crypto mode known asked d) :
    DirOk crypto mode known asked (launchGuest mode args d writeUsed writeImage rest).2 := by
  unfold launchGuest
  rcases hready : args.ready mode (d launchContext) with _ | ⟨context, size⟩
  · exact h
  obtain ⟨launch, hl, rfl⟩ := ready_session hready
  have hused : DirOk crypto mode known asked (putNew d launchUsed (launch.record mode) writeUsed).2 := by
    rcases putNew_cases d launchUsed (launch.record mode) writeUsed with heq | ⟨-, file, hfile, -, heq⟩
    · rw [heq]
      exact h
    · rw [heq]
      refine h.write (by decide) (by decide) (by decide) ?_ fun _ => ⟨launch, hl, hfile⟩
      intro sequence hname
      exact absurd hname.symm (requestName_ne sequence).2.2.2.1
  dsimp only
  split_ifs
  · exact hused
  rcases args.imageRead with _ | image
  · exact hused
  dsimp only
  split_ifs
  · exact hused
  rcases putNew_cases (putNew d launchUsed (launch.record mode) writeUsed).2 launchImg image writeImage
    with heq | ⟨-, file, -, -, heq⟩
  · rw [heq]
    exact hused
  · rw [heq]
    refine hused.write (by decide) (by decide) (by decide) ?_ fun hname => absurd hname (by decide)
    intro sequence hname
    exact absurd hname.symm (requestName_ne sequence).2.2.2.2

end

/-! ### Runs -/

section

variable {κ : Type*}

/-- An identity that can be read on the host. -/
def Knows (mode : LaunchMode) (h : Host κ) (identity : Identity) : Prop :=
  ∃ path d, h path = some d ∧ identityRead mode (identityDir d) = some identity

/-- A command line has asked for a signature in a session, with this approval. -/
def Asked (commands : List (HostCommand κ)) (session : κ) (args : Args) (approval : List Char) :
    Prop :=
  ∃ identity opened write,
    HostCommand.request identity session opened args (some approval) write ∈ commands

/-- **What is on the host goes together**, after these command lines. -/
def Coherent (crypto : Crypto) (mode : LaunchMode) (commands : List (HostCommand κ)) (h : Host κ) :
    Prop :=
  ∀ path d, h path = some d → DirOk crypto mode (Knows mode h) (Asked commands path) d

/-- No directory goes, and no file changes. -/
def Grows (h h' : Host κ) : Prop :=
  ∀ path d, h path = some d → ∃ d', h' path = some d' ∧ Files.Extends d d'

/-- The host without directories. -/
def Host.empty : Host κ := fun _ => none

variable {crypto : Crypto} {mode : LaunchMode} {h h' : Host κ}

theorem Grows.refl (h : Host κ) : Grows h h := fun _ d hd => ⟨d, hd, Files.Extends.refl d⟩

theorem Grows.trans {h'' : Host κ} (hg : Grows h h') (hg' : Grows h' h'') : Grows h h'' := by
  intro path d hd
  obtain ⟨d', hd', hext⟩ := hg path d hd
  obtain ⟨d'', hd'', hext'⟩ := hg' path d' hd'
  exact ⟨d'', hd'', hext.trans hext'⟩

theorem Grows.knows (hg : Grows h h') {identity : Identity} (hk : Knows mode h identity) :
    Knows mode h' identity := by
  obtain ⟨path, d, hd, hread⟩ := hk
  obtain ⟨d', hd', hext⟩ := hg path d hd
  obtain ⟨hpub, hvalid⟩ := identityRead_iff.mp hread
  exact ⟨path, d', hd', identityRead_iff.mpr ⟨hext _ _ hpub, hvalid⟩⟩

variable [DecidableEq κ]

theorem grows_set {path : κ} {d' : Files.Dir (List Char) UInt8}
    (hd' : ∀ d, h path = some d → Files.Extends d d') : Grows h (h.set path d') := by
  intro other d hd
  by_cases heq : other = path
  · subst heq
    exact ⟨d', h.set_self other d', hd' d hd⟩
  · exact ⟨d, (h.set_ne d' heq).trans hd, Files.Extends.refl d⟩

/-- What a command can do: it leaves the host as it is, or one directory is new, or has more in it,
and what was in order in it still is. -/
def Changes (crypto : Crypto) (mode : LaunchMode) (h : Host κ) (c : HostCommand κ) (h' : Host κ) :
    Prop :=
  h' = h ∨ ∃ path d', h' = h.set path d' ∧ (∀ d, h path = some d → Files.Extends d d') ∧
    ∀ commands, (∀ d, h path = some d → DirOk crypto mode (Knows mode h) (Asked commands path) d) →
      DirOk crypto mode (Knows mode h) (Asked (commands ++ [c]) path) d'

theorem changes_make {c : HostCommand κ} {path : κ}
    {out : Bool × Option (Files.Dir (List Char) UInt8)}
    (hout : ∀ d' (asked : Args → List Char → Prop), out.2 = some d' →
      DirOk crypto mode (Knows mode h) asked d') :
    Changes crypto mode h c (h.make path out).1 := by
  unfold Host.make
  rcases hpath : h path with _ | d
  · rcases hd : out.2 with _ | d'
    · exact Or.inl rfl
    · refine Or.inr ⟨path, d', rfl, fun d heq => ?_, fun commands _ => hout d' _ hd⟩
      exact absurd (hpath.symm.trans heq).symm (Option.some_ne_none _)
  · exact Or.inl rfl

theorem changes_set {c : HostCommand κ} {path : κ} {d d' : Files.Dir (List Char) UInt8}
    (hd : h path = some d) (hext : Files.Extends d d')
    (hok : ∀ commands, DirOk crypto mode (Knows mode h) (Asked (commands ++ [c]) path) d →
      DirOk crypto mode (Knows mode h) (Asked (commands ++ [c]) path) d') :
    Changes crypto mode h c (h.set path d') := by
  refine Or.inr ⟨path, d', rfl, fun other hother => ?_, fun commands hbefore => hok commands ?_⟩
  · obtain rfl := Option.some.inj (hd.symm.trans hother)
    exact hext
  · refine (hbefore d hd).mono (fun _ hi => hi) ?_
    rintro args approval ⟨i, o, w, hmem⟩
    exact ⟨i, o, w, List.mem_append_left _ hmem⟩

/-- **What a command does.** -/
theorem hostStep_changes (crypto : Crypto) (mode : LaunchMode) (h : Host κ) (c : HostCommand κ) :
    Changes crypto mode h c (hostStep crypto mode h c).1 := by
  cases c with
  | create path random made writeKey writePub =>
    exact changes_make fun d' asked hd => createIdentity_ok hd
  | context identity session opened random made write =>
    dsimp only [hostStep]
    cases opened with
    | false => exact Or.inl rfl
    | true =>
      rcases hidentity : h identity with _ | d
      · exact Or.inl rfl
      · exact changes_make fun d' asked hd =>
          contextCreate_ok (fun i hi => ⟨identity, d, hidentity, hi⟩) hd
  | request identity session opened args approval write =>
    dsimp only [hostStep]
    cases opened with
    | false => exact Or.inl rfl
    | true =>
      rcases hidentity : h identity with _ | d
      · exact Or.inl rfl
      rcases hsession : h session with _ | s
      · exact Or.inl rfl
      refine changes_set hsession extends_requestSession fun commands hok => ?_
      refine requestSession_ok hok ?_
      rintro text rfl
      exact ⟨identity, true, write, List.mem_append_right _ (List.mem_singleton_self _)⟩
  | launch identity session opened image qemu imageSize imageRead writeUsed writeImage rest =>
    dsimp only [hostStep]
    rcases hidentity : h identity with _ | d
    · exact Or.inl rfl
    rcases hsession : h session with _ | s
    · exact Or.inl rfl
    exact changes_set hsession extends_launchGuest fun commands hok => launchGuest_ok hok

theorem hostStep_grows (c : HostCommand κ) : Grows h (hostStep crypto mode h c).1 := by
  rcases hostStep_changes crypto mode h c with heq | ⟨path, d', heq, hext, -⟩
  · rw [heq]
    exact Grows.refl h
  · rw [heq]
    exact grows_set hext

/-- A command keeps the order of the host. -/
theorem coherent_step {commands : List (HostCommand κ)} (hc : Coherent crypto mode commands h)
    (c : HostCommand κ) : Coherent crypto mode (commands ++ [c]) (hostStep crypto mode h c).1 := by
  have hgrows : Grows h (hostStep crypto mode h c).1 := hostStep_grows c
  have hasked : ∀ path args approval, Asked commands path args approval →
      Asked (commands ++ [c]) path args approval := by
    rintro path args approval ⟨i, o, w, hmem⟩
    exact ⟨i, o, w, List.mem_append_left _ hmem⟩
  intro path d hd
  rcases hostStep_changes crypto mode h c with heq | ⟨changed, d', heq, -, hok⟩
  · rw [heq] at hd
    exact (hc path d hd).mono (fun _ => hgrows.knows) (hasked path)
  · rw [heq] at hd
    by_cases hpath : path = changed
    · subst hpath
      obtain rfl := Option.some.inj ((h.set_self path d').symm.trans hd)
      exact (hok commands (hc path)).mono (fun _ => hgrows.knows) (fun _ _ ha => ha)
    · rw [h.set_ne d' hpath] at hd
      exact (hc path d hd).mono (fun _ => hgrows.knows) (hasked path)

theorem coherent_run (commands : List (HostCommand κ)) :
    Coherent crypto mode commands (Run.final (hostStep crypto mode) .empty commands) := by
  induction commands using List.reverseRecOn with
  | nil => exact fun path d hd => absurd hd.symm (Option.some_ne_none _)
  | append_singleton commands c ih =>
    rw [Run.final_snoc]
    exact coherent_step ih c

theorem grows_run (commands : List (HostCommand κ)) :
    Grows h (Run.final (hostStep crypto mode) h commands) :=
  Run.final_induct (Grows.refl h) (fun _ c hg => hg.trans (hostStep_grows c)) commands

/-- **The operator's records.** Whatever commands are given, in any order and however each of them
ends, nothing that is written on the host changes later, and what is there goes together:

* an identity that can be read has the seed of its key beside it;
* the context of a session names an identity of the host;
* a request that is whole is signed for the launch of its session and has the number of its name; its
  command stood on a command line that asked for the signature, with the digest that a review of
  this command prints;
* what a launch has consumed is the context of the session, or the beginning of it. -/
theorem host_records (crypto : Crypto) (mode : LaunchMode) (commands later : List (HostCommand κ)) :
    Coherent crypto mode commands (Run.final (hostStep crypto mode) .empty commands) ∧
      Grows (Run.final (hostStep crypto mode) .empty commands)
        (Run.final (hostStep crypto mode) .empty (commands ++ later)) := by
  refine ⟨coherent_run commands, ?_⟩
  rw [Run.final_append]
  exact grows_run later

end

end Operator
end Tcs
