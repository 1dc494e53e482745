/-
# The terminal's output

Everything that `servers/terminal.c` prints goes through one buffer of 256
bytes, which `flush` offers to the driver in pieces, and the driver takes
from each as much as it likes. Here the driver, the client and the
administrator answer anything that they are allowed to, and the run is
recorded: the bytes that the driver took, the texts that were appended, and
with each call of a command what had been taken and appended by then.

A turn appends only where the buffer is empty, since a step of the loop goes
on to its body only after a flush that was complete. So it is enough that
the text of one turn fits (`length_handleText`, `length_echoText`); the texts
are those of `finish_packet`, `execute` and `service`, with numbers of up to
twenty digits. A handler prints nothing before its call (`handle_asks`), so
at the call there is what there was when its turn began.

Key definitions: `Terminal.Prints`, `turnText`, `Transcript`,
`transcriptStep`, `Console.Buffered`, `TranscriptOk`.
Key theorems: `handle_prints`, `received_data`, `length_handleText`,
`length_echoText`, `flush_keeps`, `handle_asks`, `resumed_prints`,
`transcriptOk_turn`, `terminal_output_exact`.
-/
import Tcs.InputLoss
import Tcs.Wakeup

namespace Tcs

open Ipc

/-! ### Texts -/

/-- The names that a build can have, from `build_profile.h` and `launch_profile.h`. -/
structure Profile.Built (profile : Profile) : Prop where
  profileName : profile.profileName ∈
    ["host-test".toList, "release-kernel".toList, "debug-kernel".toList]
  launchName : profile.signed = true →
    profile.launchName ∈ ["experimental-operator".toList, "PUBLIC-FIXTURE-ONLY".toList]

/-- The banner. -/
def bannerText (profile : Profile) : List Char :=
  if profile.signed then
    "TCS SIGNED TERMINAL READY (".toList ++ profile.profileName ++ ", ".toList ++
      profile.launchName ++ ")\r\n".toList ++ promptText
  else "TCS TERMINAL READY (".toList ++ profile.profileName ++ ", read-only)\r\n".toList ++ promptText

/-- The line of a snapshot. -/
def statusText (s : Snapshot) : List Char :=
  (if s.status = Status.ok then
    "SELF state=".toList ++
    (if s.state = State.word .active then "active".toList
      else if s.state = State.word .quarantined then "quarantined".toList
      else "restricted".toList) ++
    " generation=".toList ++ decimalText s.generation ++
    " object=".toList ++ decimalText s.object ++
    " rights=".toList ++ decimalText s.rights
  else "STATUS UNAVAILABLE status=".toList ++ decimalText s.status) ++ "\r\n".toList

/-- The line of the result of a read. -/
def readText (r : Result) : List Char :=
  (if r.status = Status.ok then "READ OK value=".toList ++ decimalText r.value
  else "READ DENIED status=".toList ++ decimalText r.status) ++ "\r\n".toList

/-- The line of the administrator's reply. -/
def packetText (command : AdminCommand) (reply : Message) : List Char :=
  match (adminReceiptDecode reply).filter (adminReceiptValid command) with
  | some receipt => receiptText receipt
  | none =>
    if reply.label = Label.adminAdmission ∧ reply.count = 1 ∧
        reply.mr 0 > AdminStatus.accepted.word ∧ reply.mr 0 ≤ AdminStatus.badCompletion.word then
      if reply.mr 0 = AdminStatus.badCompletion.word then
        "ADMIN UNCERTAIN; do not retry or advance sequence\r\n".toList
      else "ADMIN REJECTED status=".toList ++ decimalText (reply.mr 0) ++ "\r\n".toList
    else "ADMIN UNAVAILABLE; do not retry an uncertain request\r\n".toList

/-- What `finish_packet` prints, where the administrator answers `reply`. -/
def finishText (event : LineEvent) (command : AdminCommand) (reply : Message) : List Char :=
  (match event with
  | .ready => packetText command reply
  | .cancelled => "CANCELLED\r\n".toList
  | _ => "ERROR discarded signed packet\r\n".toList) ++ promptText

/-- What `execute` prints, where the client answers `reply`. -/
def executeText (profile : Profile) (line : Line) (reply : Message) : List Char :=
  if profile.signed ∧ line.bytes = "submit".toList then
    "Enter exactly 384 lowercase hex digits; Enter submits, Ctrl-C cancels.\r\n".toList ++
      "packet> ".toList
  else
    (match (commandParse line.bytes).kind with
    | .empty => []
    | .help =>
      if profile.signed then
        "help | version | status | read <generation> | submit\r\n".toList ++
          "Signed packets only; no plaintext administration.\r\n".toList
      else
        "help | version | status | read <generation>\r\n".toList ++
          "No administration commands.\r\n".toList
    | .version =>
      if profile.signed then
        "TCS 0.2-dev / ".toList ++ profile.profileName ++ " / ".toList ++ profile.launchName ++
          " signed terminal\r\n".toList
      else
        "TCS 0.2-dev / ".toList ++ profile.profileName ++ " / read-only terminal\r\n".toList
    | .status => statusText (snapshotResponse reply)
    | .read => readText (tcsResponse reply)
    | .invalid => "ERROR unknown or malformed command\r\n".toList) ++ promptText

/-- What the event of a line prints. -/
def Terminal.handleText (profile : Profile) (t : Terminal) (event : LineEvent)
    (client administrator : Message) : List Char :=
  if t.packetMode then
    finishText event (signedCommand t.signedInput.packet.toList) administrator
  else
    match event with
    | .ready => executeText profile t.line client
    | .rejected => "ERROR discarded input line\r\n".toList ++ promptText
    | .cancelled => "CANCELLED\r\n".toList ++ promptText
    | .none => []

/-- The mark of a loss. -/
def lossText : List Char := "\r\nINPUT LOST; discard until Enter or Ctrl-C\r\n".toList

/-- The echo of what is taken, which meets the mark of a loss first. -/
def Terminal.echoText (t : Terminal) (lost : Bool) : Option UInt8 → List Char
  | none => []
  | some byte => ((t.marked lost).feed byte).1.echo

/-! ### Printing -/

/-- From `t` to `t'` the text is printed, if it fits. -/
def Terminal.Prints (t t' : Terminal) (text : List Char) : Prop :=
  t.output.length + text.length ≤ outputBytes →
    t'.output = t.output ++ text ∧ t'.failed = t.failed

theorem Terminal.prints_append (t : Terminal) (text : List Char) : t.Prints (t.append text) text := by
  intro hfit
  rw [Terminal.append_eq text t hfit]
  exact ⟨rfl, rfl⟩

theorem Terminal.prints_nothing {t t' : Terminal} (ho : t'.output = t.output)
    (hf : t'.failed = t.failed) : t.Prints t' [] := by
  intro _
  rw [List.append_nil]
  exact ⟨ho, hf⟩

theorem Terminal.Prints.trans {t t' t'' : Terminal} {x y : List Char} (h : t.Prints t' x)
    (h' : t'.Prints t'' y) : t.Prints t'' (x ++ y) := by
  intro hfit
  rw [List.length_append] at hfit
  obtain ⟨ho, hf⟩ := h (by omega)
  obtain ⟨ho', hf'⟩ := h' (by rw [ho, List.length_append]; omega)
  rw [ho', hf', ho, hf, List.append_assoc]
  exact ⟨rfl, rfl⟩

/-- A change of the editors before the text. -/
theorem Terminal.Prints.after {t t' t'' : Terminal} {text : List Char} (h : t'.Prints t'' text)
    (ho : t'.output = t.output) (hf : t'.failed = t.failed) : t.Prints t'' text :=
  (Terminal.prints_nothing ho hf).trans h

theorem statusReply_eq (t : Terminal) (s : Snapshot) : t.statusReply s = t.append (statusText s) := by
  unfold Terminal.statusReply statusText
  dsimp only
  by_cases h : s.status = Status.ok
  · rw [if_pos h, if_pos h]
    simp only [Terminal.decimal_eq, Terminal.append_append, decimalText]
  · rw [if_neg h, if_neg h]
    simp only [Terminal.decimal_eq, Terminal.append_append, decimalText]

theorem readReply_eq (t : Terminal) (r : Result) : t.readReply r = t.append (readText r) := by
  unfold Terminal.readReply readText
  dsimp only
  by_cases h : r.status = Status.ok
  · rw [if_pos h, if_pos h]
    simp only [Terminal.decimal_eq, Terminal.append_append, decimalText]
  · rw [if_neg h, if_neg h]
    simp only [Terminal.decimal_eq, Terminal.append_append, decimalText]

theorem packetReply_eq (t : Terminal) (command : AdminCommand) (reply : Message) :
    t.packetReply command reply = t.append (packetText command reply) := by
  unfold Terminal.packetReply packetText
  cases (adminReceiptDecode reply).filter (adminReceiptValid command) with
  | some receipt =>
    dsimp only
    unfold receiptText
    simp only [Terminal.decimal_eq, Terminal.append_append, decimalText]
  | none =>
    dsimp only
    split_ifs
    · rfl
    · simp only [Terminal.decimal_eq, Terminal.append_append, decimalText]
    · rfl

section

variable {τ : Type*} (profile : Profile) {client administrator : Peer τ} (mr : Registers)

theorem finishPacket_prints {reply : Message} (hreply : ∀ p m, (administrator p m).1 = reply)
    (event : LineEvent) (t : Terminal) (peer : τ) :
    t.Prints (finishPacket administrator mr event t peer).1
      (finishText event (signedCommand t.signedInput.packet.toList) reply) := by
  unfold finishPacket finishText
  cases event with
  | ready =>
    dsimp only
    rw [hreply, packetReply_eq]
    exact (t.prints_append _).trans ((Terminal.prints_append _ _).after rfl rfl)
  | cancelled => exact (t.prints_append _).trans ((Terminal.prints_append _ _).after rfl rfl)
  | rejected => exact (t.prints_append _).trans ((Terminal.prints_append _ _).after rfl rfl)
  | none => exact (t.prints_append _).trans ((Terminal.prints_append _ _).after rfl rfl)

theorem execute_text {reply : Message} (hreply : ∀ p m, (client p m).1 = reply) (t : Terminal)
    (peer : τ) :
    t.Prints (execute profile mr client t peer).1 (executeText profile t.line reply) := by
  unfold execute executeText
  by_cases hs : profile.signed = true ∧ t.line.bytes = "submit".toList
  · rw [if_pos hs, if_pos hs]
    exact (Terminal.prints_append _ _).after rfl rfl
  rw [if_neg hs, if_neg hs]
  dsimp only
  refine Terminal.Prints.trans ?_ (Terminal.prints_append _ promptText)
  cases (commandParse t.line.bytes).kind with
  | empty => exact Terminal.prints_nothing rfl rfl
  | help => exact t.prints_append _
  | version => exact t.prints_append _
  | status =>
    dsimp only
    rw [hreply, statusReply_eq]
    exact t.prints_append _
  | read =>
    dsimp only
    rw [hreply, readReply_eq]
    exact t.prints_append _
  | invalid => exact t.prints_append _

/-- The event of a line prints its text. -/
theorem handle_prints {reply answer : Message} (hclient : ∀ p m, (client p m).1 = reply)
    (hadministrator : ∀ p m, (administrator p m).1 = answer) (event : LineEvent) (t : Terminal)
    (peer : τ) :
    t.Prints (t.handle profile mr client administrator event peer).1
      (t.handleText profile event reply answer) := by
  unfold Terminal.handle Terminal.handleText
  by_cases hp : t.packetMode = true
  · rw [if_pos hp, if_pos hp]
    exact finishPacket_prints mr hadministrator event t peer
  · rw [if_neg hp, if_neg hp]
    cases event with
    | none => exact Terminal.prints_nothing rfl rfl
    | ready => exact execute_text profile mr hclient t peer
    | rejected => exact t.prints_append _
    | cancelled => exact t.prints_append _

end

theorem marked_prints (t : Terminal) (lost : Bool) :
    t.Prints (t.marked lost) (if lost then lossText else []) := by
  unfold Terminal.marked
  by_cases h : lost = true
  · rw [if_pos h, if_pos h]
    unfold Terminal.inputLost
    refine (Terminal.prints_append _ lossText).after ?_ ?_ <;> dsimp only <;> split_ifs <;> rfl
  · rw [if_neg h, if_neg h]
    exact Terminal.prints_nothing rfl rfl

/-- The delimiter of a line that is ready is echoed as the end of a line. -/
theorem Terminal.feed_ready {t : Terminal} {byte : UInt8}
    (h : (t.feed byte).1.event = .ready) : (t.feed byte).1.echo = "\r\n".toList := by
  rcases t.feed_fed byte with ⟨event, -⟩ | ⟨-, echo, -⟩ | ⟨event, -⟩ | ⟨event, -⟩
  · rw [h] at event
    cases event
  · exact echo
  · rw [h] at event
    cases event
  · rw [h] at event
    cases event

/-! ### The texts fit -/

theorem length_statusText (s : Snapshot) : (statusText s).length ≤ 128 := by
  have h1 := length_toDigits s.generation
  have h2 := length_toDigits s.object
  have h3 := length_toDigits s.rights
  have h4 := length_toDigits s.status
  unfold statusText decimalText
  split_ifs <;>
    simp only [List.length_append, String.reduceToList, List.length_cons, List.length_nil] <;> omega

theorem length_readText (r : Result) : (readText r).length ≤ 128 := by
  have h1 := length_toDigits r.value
  have h2 := length_toDigits r.status
  unfold readText decimalText
  split_ifs <;>
    simp only [List.length_append, String.reduceToList, List.length_cons, List.length_nil] <;> omega

theorem length_packetText (command : AdminCommand) (reply : Message) :
    (packetText command reply).length + 5 ≤ outputBytes := by
  unfold packetText
  cases (adminReceiptDecode reply).filter (adminReceiptValid command) with
  | some receipt => exact length_receiptText receipt
  | none =>
    have h := length_toDigits (reply.mr 0)
    unfold decimalText
    dsimp only
    split_ifs <;>
      simp only [List.length_append, String.reduceToList, List.length_cons, List.length_nil,
        outputBytes] <;> omega

theorem length_finishText (event : LineEvent) (command : AdminCommand) (reply : Message) :
    (finishText event command reply).length ≤ outputBytes := by
  unfold finishText
  rw [List.length_append]
  cases event with
  | ready => exact length_packetText command reply
  | cancelled => dsimp only; decide
  | rejected => dsimp only; decide
  | none => dsimp only; decide

theorem Profile.Built.length_profileName {profile : Profile} (hbuilt : profile.Built) :
    profile.profileName.length ≤ 14 := by
  have h := hbuilt.profileName
  simp only [List.mem_cons, List.not_mem_nil, or_false] at h
  rcases h with h | h | h <;> rw [h] <;> decide

theorem Profile.Built.length_launchName {profile : Profile} (hbuilt : profile.Built)
    (hsigned : profile.signed = true) : profile.launchName.length ≤ 21 := by
  have h := hbuilt.launchName hsigned
  simp only [List.mem_cons, List.not_mem_nil, or_false] at h
  rcases h with h | h <;> rw [h] <;> decide

theorem length_bannerText {profile : Profile} (hbuilt : profile.Built) :
    (bannerText profile).length ≤ outputBytes := by
  have hname := hbuilt.length_profileName
  unfold bannerText promptText
  by_cases hsigned : profile.signed = true
  · have hlaunch := hbuilt.length_launchName hsigned
    rw [if_pos hsigned]
    simp only [List.length_append, String.reduceToList, List.length_cons, List.length_nil,
      outputBytes]
    omega
  · rw [if_neg hsigned]
    simp only [List.length_append, String.reduceToList, List.length_cons, List.length_nil,
      outputBytes]
    omega

theorem length_executeText {profile : Profile} (hbuilt : profile.Built) (line : Line)
    (reply : Message) : (executeText profile line reply).length ≤ outputBytes := by
  have hprompt : promptText.length = 5 := rfl
  have hname := hbuilt.length_profileName
  unfold executeText
  by_cases hs : profile.signed = true ∧ line.bytes = "submit".toList
  · rw [if_pos hs]
    decide
  rw [if_neg hs, List.length_append, hprompt]
  cases (commandParse line.bytes).kind with
  | empty => dsimp only; decide
  | help => dsimp only; split_ifs <;> decide
  | version =>
    dsimp only
    by_cases hsigned : profile.signed = true
    · have hlaunch := hbuilt.length_launchName hsigned
      rw [if_pos hsigned]
      simp only [List.length_append, String.reduceToList, List.length_cons, List.length_nil,
        outputBytes]
      omega
    · rw [if_neg hsigned]
      simp only [List.length_append, String.reduceToList, List.length_cons, List.length_nil,
        outputBytes]
      omega
  | status =>
    have h := length_statusText (snapshotResponse reply)
    simp only [outputBytes]
    omega
  | read =>
    have h := length_readText (tcsResponse reply)
    simp only [outputBytes]
    omega
  | invalid => dsimp only; decide

theorem length_handleText {profile : Profile} (hbuilt : profile.Built) (t : Terminal)
    (event : LineEvent) (client administrator : Message) :
    (t.handleText profile event client administrator).length ≤ outputBytes := by
  unfold Terminal.handleText
  split_ifs
  · exact length_finishText event _ administrator
  · cases event with
    | ready => exact length_executeText hbuilt t.line client
    | rejected => dsimp only; decide
    | cancelled => dsimp only; decide
    | none => dsimp only; decide

/-- The line editor echoes a byte with at most four characters, -/
theorem length_terminalInput_echo (line : Line) (byte : UInt8) :
    (terminalInput line byte).1.echo.length ≤ 4 := by
  unfold terminalInput
  dsimp only
  split_ifs <;> simp

/-- and so does the frame decoder. -/
theorem length_signedFeed_echo (s : SignedInput) (byte : UInt8) :
    (signedFeed s byte).1.echo.length ≤ 4 := by
  have hsilent : LineFeedback.silent.echo.length ≤ 4 := by decide
  unfold signedFeed
  by_cases h0 : s.completed = true
  · rw [if_pos h0]
    exact hsilent
  rw [if_neg h0]
  by_cases h1 : byte = lineFeedByte ∧ s.previousCr = true
  · rw [if_pos h1]
    exact hsilent
  rw [if_neg h1]
  dsimp only
  by_cases h2 : byte = ctrlC
  · rw [if_pos h2]
    dsimp only
    decide
  rw [if_neg h2]
  by_cases h3 : byte = returnByte ∨ byte = lineFeedByte
  · rw [if_pos h3]
    dsimp only
    decide
  rw [if_neg h3]
  by_cases h4 : s.rejected = true
  · rw [if_pos h4]
    exact hsilent
  rw [if_neg h4]
  cases hexNibble byte with
  | none => exact hsilent
  | some nibble =>
    dsimp only
    by_cases h5 : s.digits ≥ 2 * adminPacketBytes
    · rw [if_pos h5]
      exact hsilent
    · rw [if_neg h5]
      exact Nat.succ_le_succ (Nat.zero_le 3)

theorem length_echoText (t : Terminal) (lost : Bool) (byte : Option UInt8) :
    (t.echoText lost byte).length ≤ 4 := by
  cases byte with
  | none => exact Nat.zero_le _
  | some byte =>
    unfold Terminal.echoText Terminal.feed
    dsimp only
    split_ifs
    · exact length_signedFeed_echo _ byte
    · exact length_terminalInput_echo _ byte

/-! ### The system -/

/-- A call of a command, with what the driver had taken by then, what had been appended, and the
echo of the last byte. -/
structure Call where
  message : Message
  accepted : List UInt8
  appended : List Char
  echo : List Char

/-- The terminal, and the record of its run. -/
structure Transcript where
  console : Console
  accepted : List UInt8
  appended : List Char
  echo : List Char
  calls : List Call

/-- What the other servers do in a turn: the driver takes up to `count` bytes of what it is offered,
or hands out a byte, or none, and the mark of a loss; the client and the administrator reply as
they like. -/
structure Answers where
  mr : Registers
  noise : Noise
  count : ℕ
  lost : Bool
  byte : Option UInt8
  client : Message
  administrator : Message

/-- What can happen next: a call of the idle terminal, a turn of it. -/
inductive TranscriptAction
  | notified (ch : ℕ)
  | turn (a : Answers)

/-- The driver's answer to `READ`. -/
def Answers.data (a : Answers) : Message :=
  ⟨Label.serialData, 2,
    (a.mr.set 0 (serialFlags a.lost a.byte.isSome)).set 1 (a.byte.getD 0).toUInt64⟩

/-- The driver as the terminal calls it; its state are the bytes that it has taken. -/
def takingPeer (a : Answers) : Peer (List UInt8) := fun accepted msg =>
  if msg.label = tcsLabel Op.serialWrite then
    let taken := min a.count msg.count
    (tcsReply a.mr ⟨Status.ok, UInt64.ofNat taken⟩,
      accepted ++ (List.range taken).map fun i => (msg.mr i).toUInt8)
  else (a.data, accepted)

/-- The client or the administrator, which records the call. A handler calls before it prints
(`handle_asks`), so what the turn started with is what there is at the call. -/
def Transcript.callee (s : Transcript) (reply : Message) : Peer (List Call) := fun calls msg =>
  (reply, calls ++ [⟨msg, s.accepted, s.appended, s.echo⟩])

section

variable (profile : Profile)

/-- What a turn appends; a call of a command comes before the texts of its turn. -/
def turnText (a : Answers) (c : Console) : List Char :=
  match c.phase with
  | .body _ =>
    if c.pendingEvent ≠ .none then
      c.terminal.handleText profile c.pendingEvent a.client a.administrator
    else (if a.lost then lossText else []) ++ c.terminal.echoText a.lost a.byte
  | _ => []

/-- Nothing is taken, and the terminal is before its first turn. -/
def Transcript.boot : Transcript :=
  ⟨Console.init profile, [], bannerText profile, [], []⟩

/-- One step of the terminal. -/
def transcriptStep (s : Transcript) : TranscriptAction → Transcript × Unit
  | .notified ch =>
    (if s.console.phase = .idle then { s with console := s.console.notified ch } else s, ())
  | .turn a =>
    let (console, accepted, calls) := consoleTurn profile a.mr (ppcall a.noise (takingPeer a))
      (s.callee a.client) (s.callee a.administrator) s.console s.accepted s.calls
    ({ console := console
       accepted := accepted
       appended := s.appended ++ turnText profile a s.console
       echo := if s.console.reads && a.byte.isSome then s.console.terminal.echoText a.lost a.byte
         else s.echo
       calls := calls }, ())

end

/-! ### The buffer -/

/-- The bytes that the driver has still to take. -/
def Console.unwritten (c : Console) : List UInt8 :=
  (c.terminal.output.drop c.outputSent).map charByte

/-- The buffer holds what fits, and is empty where all of it is taken. -/
structure Console.Buffered (c : Console) : Prop where
  failed : c.terminal.failed = false
  bound : c.terminal.output.length ≤ outputBytes
  sent : c.outputSent < c.terminal.output.length ∨ (c.terminal.output = [] ∧ c.outputSent = 0)

/-- What the driver takes of an offer are its first bytes. -/
theorem writeRequest_bytes (mr noise : Registers) (c : Console) {n : ℕ} (hn : n ≤ c.chunk.length) :
    ((List.range n).map fun i => (((c.writeRequest mr).deliver noise).mr i).toUInt8) =
      c.chunk.take n := by
  apply List.ext_getElem
  · rw [List.length_map, List.length_range, List.length_take, Nat.min_eq_left hn]
  · intro i h1 h2
    rw [List.length_map, List.length_range] at h1
    have hlt : i < c.chunk.length := by omega
    rw [List.getElem_map, List.getElem_range, List.getElem_take,
      Message.deliver_mr noise (show i < (c.writeRequest mr).count from hlt)]
    show (if i < c.chunk.length then (c.chunk.getD i 0).toUInt64 else mr i).toUInt8 = _
    rw [if_pos hlt, UInt8.toUInt8_toUInt64, List.getD_eq_getElem _ _ hlt]

theorem takingPeer_write (a : Answers) (c : Console) (accepted : List UInt8) :
    takingPeer a accepted ((c.writeRequest a.mr).deliver a.noise.callee) =
      (tcsReply a.mr ⟨Status.ok, UInt64.ofNat (min a.count c.chunk.length)⟩,
        accepted ++ c.chunk.take (min a.count c.chunk.length)) := by
  rw [← writeRequest_bytes a.mr a.noise.callee c (Nat.min_le_right _ _)]
  exact if_pos rfl

/-- The terminal after the driver has taken `n` bytes. -/
theorem written_taken (c : Console) (mr noise : Registers) {n : ℕ} (hn : n ≤ c.chunk.length) :
    c.written ((tcsReply mr ⟨Status.ok, UInt64.ofNat n⟩).deliver noise) =
      if c.outputSent + n = c.terminal.output.length then
        (true, { c with terminal := { c.terminal with output := [] }, outputSent := 0 })
      else (false, { c with outputSent := c.outputSent + n }) := by
  have hchunk : c.chunk.length ≤ serialChunk := by
    unfold Console.chunk
    rw [List.length_map, List.length_take]
    exact Nat.min_le_left _ _
  have hval : (UInt64.ofNat n).toNat = n := by
    rw [UInt64.toNat_ofNat']
    exact Nat.mod_eq_of_lt (lt_of_le_of_lt (hn.trans hchunk) (by decide))
  have hle : ¬ UInt64.ofNat n > UInt64.ofNat c.chunk.length := by
    rw [gt_iff_lt, UInt64.lt_iff_toNat_lt, hval, UInt64.toNat_ofNat',
      Nat.mod_eq_of_lt (lt_of_le_of_lt hchunk (by decide))]
    omega
  unfold Console.written
  dsimp only
  rw [tcsResponse_reply, if_neg (by simp [hle]), hval]

/-- The first `n` bytes of an offer are the first `n` that were unwritten. -/
theorem Console.unwritten_split (c : Console) {n : ℕ} (hn : n ≤ c.chunk.length) :
    n ≤ c.terminal.output.length - c.outputSent ∧
      c.chunk.take n ++ (c.terminal.output.drop (c.outputSent + n)).map charByte = c.unwritten := by
  unfold Console.chunk at hn
  rw [List.length_map, List.length_take, List.length_drop] at hn
  constructor
  · omega
  · unfold Console.chunk Console.unwritten
    rw [← List.map_take, List.take_take, Nat.min_eq_left (by omega), ← List.map_append,
      ← List.drop_drop, List.take_append_drop]

/-- What `flush` does: nothing is lost between the buffer and the driver, and where it is complete
the buffer is empty. -/
structure Flush (c : Console) (accepted : List UInt8) (out : Bool × Console × List UInt8) : Prop where
  buffered : out.2.1.Buffered
  event : out.2.1.pendingEvent = c.pendingEvent
  whole : out.2.2 ++ out.2.1.unwritten = accepted ++ c.unwritten
  complete : out.1 = true → out.2.1.terminal.output = []

theorem flush_keeps (a : Answers) {c : Console} (h : c.Buffered) (accepted : List UInt8) :
    Flush c accepted (flush a.mr (ppcall a.noise (takingPeer a)) c accepted) := by
  obtain ⟨hfailed, hbound, hsent⟩ := h
  unfold flush
  by_cases hall : c.outputSent = c.terminal.output.length
  · rw [if_pos hall]
    refine ⟨⟨hfailed, hbound, hsent⟩, rfl, rfl, fun _ => ?_⟩
    rcases hsent with hlt | ⟨hnil, -⟩
    · omega
    · exact hnil
  rw [if_neg hall]
  have hlt : c.outputSent < c.terminal.output.length := by
    rcases hsent with hlt | ⟨hnil, hzero⟩
    · exact hlt
    · rw [hnil, hzero] at hall
      exact absurd rfl hall
  have hn : min a.count c.chunk.length ≤ c.chunk.length := Nat.min_le_right _ _
  rw [ppcall_eq, takingPeer_write]
  dsimp only
  rw [written_taken c a.mr a.noise.caller hn]
  generalize min a.count c.chunk.length = n at hn
  obtain ⟨hlen, hsplit⟩ := c.unwritten_split hn
  by_cases hdone : c.outputSent + n = c.terminal.output.length
  · rw [if_pos hdone]
    refine ⟨⟨hfailed, Nat.zero_le _, Or.inr ⟨rfl, rfl⟩⟩, rfl, ?_, fun _ => rfl⟩
    rw [hdone, List.drop_length] at hsplit
    rw [← hsplit, ← List.append_assoc]
    rfl
  · rw [if_neg hdone]
    refine ⟨⟨hfailed, hbound, Or.inl ?_⟩, rfl, ?_, fun hd => absurd hd (by simp)⟩
    · show c.outputSent + n < c.terminal.output.length
      omega
    · rw [← hsplit, ← List.append_assoc]
      rfl

/-! ### The invariant -/

/-- What was appended is what the driver has taken and what the buffer still holds; a line that is
about to be run has had its end echoed; and the calls of commands were made where the buffer was
empty. -/
structure TranscriptOk (s : Transcript) : Prop where
  buffered : s.console.Buffered
  whole : s.accepted ++ s.console.unwritten = s.appended.map charByte
  flushed : ∀ step, s.console.phase = .body step → s.console.terminal.output = []
  echoed : s.console.pendingEvent = .ready → s.echo = "\r\n".toList ∧ s.echo <:+ s.appended
  calls : ∀ call ∈ s.calls, call.accepted = call.appended.map charByte ∧
    call.echo = "\r\n".toList ∧ call.echo <:+ call.appended

/-- Where the buffer is empty, all is taken. -/
theorem TranscriptOk.all_taken {s : Transcript} (h : TranscriptOk s)
    (ho : s.console.terminal.output = []) : s.accepted = s.appended.map charByte := by
  have hwhole := h.whole
  unfold Console.unwritten at hwhole
  rw [ho, List.drop_nil, List.map_nil, List.append_nil] at hwhole
  exact hwhole

/-- A text that fits is printed into the empty buffer. -/
theorem TranscriptOk.printed {s : Transcript} (h : TranscriptOk s)
    (ho : s.console.terminal.output = []) {c : Console} {text : List Char}
    (hprints : s.console.terminal.Prints c.terminal text) (hfit : text.length ≤ outputBytes)
    (hsent : c.outputSent = s.console.outputSent) :
    c.Buffered ∧ s.accepted ++ c.unwritten = (s.appended ++ text).map charByte := by
  obtain ⟨houtput, hfailed⟩ := hprints (by rw [ho, List.length_nil]; omega)
  rw [ho, List.nil_append] at houtput
  have hzero : c.outputSent = 0 := by
    rcases h.buffered.sent with hlt | ⟨-, hzero⟩
    · rw [ho, List.length_nil] at hlt
      omega
    · rw [hsent, hzero]
  refine ⟨⟨hfailed.trans h.buffered.failed, by rw [houtput]; exact hfit, ?_⟩, ?_⟩
  · rw [houtput, hzero]
    rcases Nat.eq_zero_or_pos text.length with hnil | hpos
    · exact Or.inr ⟨List.length_eq_zero_iff.mp hnil, rfl⟩
    · exact Or.inl hpos
  · unfold Console.unwritten
    rw [houtput, hzero, List.drop_zero, h.all_taken ho, List.map_append]

section

variable {profile : Profile}

/-- A turn that neither takes a byte nor serves an event appends nothing. -/
theorem transcriptStep_quiet (a : Answers) {s : Transcript}
    (hphase : ∀ step, s.console.phase ≠ .body step) :
    (transcriptStep profile s (.turn a)).1 =
      { s with
        console := (consoleTurn profile a.mr (ppcall a.noise (takingPeer a)) (s.callee a.client)
          (s.callee a.administrator) s.console s.accepted s.calls).1
        accepted := (consoleTurn profile a.mr (ppcall a.noise (takingPeer a)) (s.callee a.client)
          (s.callee a.administrator) s.console s.accepted s.calls).2.1
        calls := (consoleTurn profile a.mr (ppcall a.noise (takingPeer a)) (s.callee a.client)
          (s.callee a.administrator) s.console s.accepted s.calls).2.2 } := by
  have htext : turnText profile a s.console = [] := by
    unfold turnText
    cases hp : s.console.phase with
    | body step => exact absurd hp (hphase step)
    | idle => rfl
    | loop step => rfl
    | last => rfl
  unfold transcriptStep
  dsimp only
  rw [htext, List.append_nil, Console.reads_other hphase]
  rfl

theorem transcriptOk_flush {s : Transcript} (h : TranscriptOk s) (a : Answers) {phase : Phase}
    (hphase : ∀ step, phase = .body step →
      (flush a.mr (ppcall a.noise (takingPeer a)) s.console s.accepted).1 = true) :
    TranscriptOk { s with
      console := { (flush a.mr (ppcall a.noise (takingPeer a)) s.console s.accepted).2.1 with
        phase := phase }
      accepted := (flush a.mr (ppcall a.noise (takingPeer a)) s.console s.accepted).2.2 } := by
  obtain ⟨hbuffered, hevent, hwhole, hcomplete⟩ := flush_keeps a h.buffered s.accepted
  refine ⟨⟨hbuffered.failed, hbuffered.bound, hbuffered.sent⟩, hwhole.trans h.whole,
    fun step hp => hcomplete (hphase step hp), fun he => h.echoed (hevent.symm.trans he), h.calls⟩

/-- A turn at the head of the loop, or a last one. -/
theorem transcriptOk_quiet {s : Transcript} (h : TranscriptOk s) (a : Answers)
    (hphase : ∀ step, s.console.phase ≠ .body step) :
    TranscriptOk (transcriptStep profile s (.turn a)).1 := by
  rw [transcriptStep_quiet a hphase]
  unfold consoleTurn
  cases hp : s.console.phase with
  | idle => exact h
  | loop step =>
    by_cases hstep : step < 32 ∧ (!s.console.terminal.failed) = true
    · simp only [if_pos hstep]
      refine transcriptOk_flush h a fun k hk => ?_
      by_contra hnot
      rw [if_neg hnot] at hk
      cases hk
    · simp only [if_neg hstep]
      refine ⟨⟨h.buffered.failed, h.buffered.bound, h.buffered.sent⟩, h.whole, fun k hk => ?_,
        h.echoed, h.calls⟩
      dsimp only at hk
      rw [if_neg (by simp [h.buffered.failed])] at hk
      cases hk
  | body step => exact absurd hp (hphase step)
  | last => exact transcriptOk_flush h a fun k hk => by cases hk

/-! ### Turns that print -/

theorem Transcript.callee_reply (s : Transcript) (reply : Message) :
    ∀ calls m, (s.callee reply calls m).1 = reply := fun _ _ => rfl

/-- The handler of a line's event once the reply to its call is there. -/
def Terminal.resumed (profile : Profile) (mr : Registers) (event : LineEvent) (t : Terminal)
    (reply : Message) : Terminal :=
  (t.handle profile mr (fun _ _ => (reply, ())) (fun _ _ => (reply, ())) event ()).1

/-- All that the event prints is printed by then, to the terminal as it was before the event. -/
theorem resumed_prints (profile : Profile) (mr : Registers) (event : LineEvent) (t : Terminal)
    (reply : Message) :
    t.Prints (t.resumed profile mr event reply) (t.handleText profile event reply reply) :=
  handle_prints profile mr (fun _ _ => rfl) (fun _ _ => rfl) event t ()

/-- **A handler calls before it prints.** It makes no call, or its message is fixed by the terminal
it starts with, and the rest of the handler is left for the reply. -/
theorem handle_asks (profile : Profile) (mr : Registers) (event : LineEvent) (t : Terminal) :
    (∀ (τ : Type) (client administrator : Peer τ) (peer : τ),
      (t.handle profile mr client administrator event peer).2 = peer) ∨
    (event = .ready ∧ ∃ m, ∀ (τ : Type) (client administrator : Peer τ) (peer : τ),
      let out := (if t.packetMode then administrator else client) peer m
      t.handle profile mr client administrator event peer =
        (t.resumed profile mr event out.1, out.2)) := by
  unfold Terminal.resumed Terminal.handle
  by_cases hp : t.packetMode = true
  · simp only [if_pos hp]
    cases event with
    | ready => exact Or.inr ⟨rfl, _, fun _ _ _ _ => rfl⟩
    | cancelled => exact Or.inl fun _ _ _ _ => rfl
    | rejected => exact Or.inl fun _ _ _ _ => rfl
    | none => exact Or.inl fun _ _ _ _ => rfl
  simp only [if_neg hp]
  cases event with
  | none => exact Or.inl fun _ _ _ _ => rfl
  | rejected => exact Or.inl fun _ _ _ _ => rfl
  | cancelled => exact Or.inl fun _ _ _ _ => rfl
  | ready =>
    dsimp only
    unfold execute
    by_cases hs : profile.signed = true ∧ t.line.bytes = "submit".toList
    · simp only [if_pos hs]
      exact Or.inl fun _ _ _ _ => trivial
    simp only [if_neg hs]
    cases (commandParse t.line.bytes).kind with
    | empty => exact Or.inl fun _ _ _ _ => rfl
    | help => exact Or.inl fun _ _ _ _ => rfl
    | version => exact Or.inl fun _ _ _ _ => rfl
    | status => exact Or.inr ⟨trivial, _, fun _ _ _ _ => rfl⟩
    | read => exact Or.inr ⟨trivial, _, fun _ _ _ _ => rfl⟩
    | invalid => exact Or.inl fun _ _ _ _ => rfl

/-- A command's call is recorded with what is taken and appended before its turn. -/
theorem handle_calls (profile : Profile) (mr : Registers) (s : Transcript) (reply answer : Message)
    (event : LineEvent) (t : Terminal) (calls : List Call) :
    (t.handle profile mr (s.callee reply) (s.callee answer) event calls).2 = calls ∨
      (event = .ready ∧ ∃ m, (t.handle profile mr (s.callee reply) (s.callee answer) event calls).2 =
        calls ++ [⟨m, s.accepted, s.appended, s.echo⟩]) := by
  rcases handle_asks profile mr event t with h | ⟨hready, m, h⟩
  · exact Or.inl (h _ _ _ _)
  · refine Or.inr ⟨hready, m, ?_⟩
    rw [h]
    dsimp only
    split_ifs <;> rfl

theorem transcriptOk_handle (hbuilt : profile.Built) {s : Transcript} (h : TranscriptOk s)
    (a : Answers) {step : ℕ} (hphase : s.console.phase = .body step)
    (he : s.console.pendingEvent ≠ .none) :
    TranscriptOk (transcriptStep profile s (.turn a)).1 := by
  have ho := h.flushed step hphase
  have htext : turnText profile a s.console =
      s.console.terminal.handleText profile s.console.pendingEvent a.client a.administrator := by
    unfold turnText
    rw [hphase]
    exact if_pos he
  unfold transcriptStep consoleTurn
  dsimp only
  rw [htext, Console.reads_body hphase, decide_eq_false he, hphase]
  dsimp only
  rw [if_pos he, Bool.false_and, if_neg (by simp)]
  have hprints : s.console.terminal.Prints (s.console.terminal.handle profile a.mr
      (s.callee a.client) (s.callee a.administrator) s.console.pendingEvent s.calls).1
        (s.console.terminal.handleText profile s.console.pendingEvent a.client a.administrator) :=
    handle_prints profile a.mr (s.callee_reply a.client) (s.callee_reply a.administrator) _ _ _
  have hfit := length_handleText hbuilt s.console.terminal s.console.pendingEvent a.client
    a.administrator
  have hcalls := handle_calls profile a.mr s a.client a.administrator s.console.pendingEvent
    s.console.terminal s.calls
  generalize s.console.terminal.handle profile a.mr (s.callee a.client) (s.callee a.administrator)
    s.console.pendingEvent s.calls = out at hprints hcalls
  obtain ⟨hbuffered, hwhole⟩ := h.printed ho (c := { s.console with
    terminal := out.1, pendingEvent := .none, phase := .loop (step + 1) }) hprints hfit rfl
  refine ⟨hbuffered, hwhole, fun k => Phase.noConfusion, fun hready => LineEvent.noConfusion hready, ?_⟩
  rcases hcalls with hcalls | ⟨hready, m, hcalls⟩
  · intro call hmem
    dsimp only at hmem
    rw [hcalls] at hmem
    exact h.calls call hmem
  · intro call hmem
    dsimp only at hmem
    rw [hcalls] at hmem
    rcases List.mem_append.mp hmem with hmem | hmem
    · exact h.calls call hmem
    · rw [List.mem_singleton] at hmem
      subst hmem
      exact ⟨h.all_taken ho, h.echoed hready⟩

theorem takingPeer_read (a : Answers) (accepted : List UInt8) :
    takingPeer a accepted ((readRequest a.mr).deliver a.noise.callee) = (a.data, accepted) := by
  have hne : tcsLabel Op.serialRead ≠ tcsLabel Op.serialWrite := by decide
  exact if_neg hne

/-- What the terminal makes of the driver's answer. -/
structure Received (a : Answers) (c c' : Console) : Prop where
  prints : c.terminal.Prints c'.terminal
    ((if a.lost then lossText else []) ++ c.terminal.echoText a.lost a.byte)
  sent : c'.outputSent = c.outputSent
  phase : ∀ k, c'.phase ≠ .body k
  ready : c.pendingEvent = .none → c'.pendingEvent = .ready →
    a.byte.isSome = true ∧ c.terminal.echoText a.lost a.byte = "\r\n".toList

theorem received_data (a : Answers) (c : Console) (step : ℕ) :
    Received a c (c.received step (a.data.deliver a.noise.caller)) := by
  have h0 : (a.data.deliver a.noise.caller).mr 0 = serialFlags a.lost a.byte.isSome :=
    Message.deliver_mr _ (show 0 < 2 by decide)
  have h1 : (a.data.deliver a.noise.caller).mr 1 = (a.byte.getD 0).toUInt64 :=
    Message.deliver_mr _ (show 1 < 2 by decide)
  cases hb : a.byte with
  | none =>
    rw [hb] at h0 h1
    rw [c.received_nothing step rfl rfl h0 h1]
    refine ⟨?_, rfl, fun k => Phase.noConfusion, fun hnone hready => ?_⟩
    · rw [hb]
      exact (marked_prints _ _).trans (Terminal.prints_nothing rfl rfl)
    · dsimp only at hready
      rw [hnone] at hready
      cases hready
  | some byte =>
    rw [hb] at h0 h1
    rw [c.received_byte step rfl rfl h0 h1]
    refine ⟨?_, rfl, fun k => Phase.noConfusion, fun _ hready => ?_⟩
    · obtain ⟨houtput, hfailed, -⟩ := (c.terminal.marked a.lost).feed_output byte
      rw [hb]
      exact (marked_prints _ _).trans ((Terminal.prints_append _ _).after houtput hfailed)
    · rw [hb]
      exact ⟨rfl, Terminal.feed_ready hready⟩

theorem transcriptOk_read {s : Transcript} (h : TranscriptOk s) (a : Answers) {step : ℕ}
    (hphase : s.console.phase = .body step) (he : s.console.pendingEvent = .none) :
    TranscriptOk (transcriptStep profile s (.turn a)).1 := by
  have ho := h.flushed step hphase
  have htext : turnText profile a s.console =
      (if a.lost then lossText else []) ++ s.console.terminal.echoText a.lost a.byte := by
    unfold turnText
    rw [hphase]
    exact if_neg (not_not.mpr he)
  obtain ⟨hprints, hsent, hnot, hready⟩ := received_data a s.console step
  have hfit : ((if a.lost then lossText else []) ++
      s.console.terminal.echoText a.lost a.byte).length ≤ outputBytes := by
    have hecho := length_echoText s.console.terminal a.lost a.byte
    have hloss : (if a.lost then lossText else []).length ≤ 46 := by
      cases a.lost <;> decide
    rw [List.length_append]
    simp only [outputBytes]
    omega
  obtain ⟨hbuffered, hwhole⟩ := h.printed ho hprints hfit hsent
  unfold transcriptStep consoleTurn
  dsimp only
  rw [htext, Console.reads_body hphase, decide_eq_true he, Bool.true_and, hphase]
  dsimp only
  rw [if_neg (not_not.mpr he), ppcall_eq, takingPeer_read]
  refine ⟨hbuffered, hwhole, fun k hk => absurd hk (hnot k), fun hr => ?_, h.calls⟩
  obtain ⟨hsome, hend⟩ := hready he hr
  dsimp only
  rw [if_pos hsome]
  refine ⟨hend, ?_⟩
  rw [← List.append_assoc]
  exact List.suffix_append _ _

/-- A turn of the terminal. -/
theorem transcriptOk_turn (hbuilt : profile.Built) {s : Transcript} (h : TranscriptOk s)
    (a : Answers) : TranscriptOk (transcriptStep profile s (.turn a)).1 := by
  by_cases hbody : ∀ step, s.console.phase ≠ .body step
  · exact transcriptOk_quiet h a hbody
  push Not at hbody
  obtain ⟨step, hphase⟩ := hbody
  by_cases he : s.console.pendingEvent = .none
  · exact transcriptOk_read h a hphase he
  · exact transcriptOk_handle hbuilt h a hphase he

/-! ### Runs -/

theorem transcriptOk_boot (hbuilt : profile.Built) : TranscriptOk (Transcript.boot profile) := by
  have hinit : (Console.init profile).terminal =
      { Terminal.zero with output := bannerText profile } := by
    have hfit : Terminal.zero.output.length + (bannerText profile).length ≤ outputBytes := by
      rw [show Terminal.zero.output.length = 0 from rfl, Nat.zero_add]
      exact length_bannerText hbuilt
    exact Terminal.append_eq (bannerText profile) Terminal.zero hfit
  have hoff : (Console.init profile).outputSent = 0 := rfl
  refine ⟨⟨?_, ?_, ?_⟩, ?_, fun k => Phase.noConfusion, fun hready => LineEvent.noConfusion hready,
    fun call hmem => by cases hmem⟩
  · show (Console.init profile).terminal.failed = false
    rw [hinit]
    rfl
  · show (Console.init profile).terminal.output.length ≤ outputBytes
    rw [hinit]
    exact length_bannerText hbuilt
  · show (Console.init profile).outputSent < (Console.init profile).terminal.output.length ∨ _
    rw [hinit]
    left
    show 0 < (bannerText profile).length
    unfold bannerText promptText
    split_ifs <;>
      simp only [List.length_append, String.reduceToList, List.length_cons, List.length_nil] <;>
      omega
  · show [] ++ (Console.init profile).unwritten = (bannerText profile).map charByte
    unfold Console.unwritten
    rw [hinit, hoff]
    rfl

theorem transcriptOk_step (hbuilt : profile.Built) {s : Transcript} (h : TranscriptOk s)
    (action : TranscriptAction) : TranscriptOk (transcriptStep profile s action).1 := by
  cases action with
  | turn a => exact transcriptOk_turn hbuilt h a
  | notified ch =>
    show TranscriptOk (if s.console.phase = .idle then { s with console := s.console.notified ch }
      else s)
    by_cases hidle : s.console.phase = .idle
    · rw [if_pos hidle]
      unfold Console.notified
      by_cases hch : ch = 0
      · rw [if_pos hch]
        exact ⟨⟨h.buffered.failed, h.buffered.bound, h.buffered.sent⟩, h.whole,
          fun k => Phase.noConfusion, h.echoed, h.calls⟩
      · rw [if_neg hch]
        exact h
    · rw [if_neg hidle]
      exact h

theorem transcriptOk_run (hbuilt : profile.Built) (actions : List TranscriptAction) :
    TranscriptOk (Run.final (transcriptStep profile) (Transcript.boot profile) actions) :=
  Run.final_induct (transcriptOk_boot hbuilt)
    (fun _ action h => transcriptOk_step hbuilt h action) actions

end

/-- **Output is bounded, lossless and ordered.** After every run of a terminal that is built:

* the buffer holds at most 256 bytes, and no text that was appended has failed;
* the bytes that the driver has taken, followed by those of the buffer that it has still to take,
  are the texts that were appended, so what it has taken is their beginning, and all of them where
  the buffer is empty;
* when the client or the administrator was called, the driver had taken everything that had been
  appended, and what had been appended last is the echo of the command's delimiter. -/
theorem terminal_output_exact {profile : Profile} (hbuilt : profile.Built)
    (actions : List TranscriptAction) :
    let s := Run.final (transcriptStep profile) (Transcript.boot profile) actions
    s.console.terminal.output.length ≤ 256 ∧ s.console.terminal.failed = false ∧
    s.accepted ++ s.console.unwritten = s.appended.map charByte ∧
    s.accepted <+: s.appended.map charByte ∧
    (s.console.terminal.output = [] → s.accepted = s.appended.map charByte) ∧
    ∀ call ∈ s.calls, call.accepted = call.appended.map charByte ∧
      call.echo = "\r\n".toList ∧ call.echo <:+ call.appended := by
  intro s
  have h : TranscriptOk s := transcriptOk_run hbuilt actions
  exact ⟨h.buffered.bound, h.buffered.failed, h.whole, ⟨_, h.whole⟩, h.all_taken, h.calls⟩

/-- A turn in which the driver takes what it is offered, or hands out the byte. -/
def takenTurn (byte : Option UInt8) : TranscriptAction :=
  .turn ⟨fun _ => 0, ⟨fun _ => 0, fun _ => 0⟩, 32, false, byte, ⟨0, 0, fun _ => 0⟩,
    ⟨0, 0, fun _ => 0⟩⟩

/-- The banner is written in two calls, `status` is typed, and run. -/
def statusActions : List TranscriptAction :=
  [takenTurn none, .notified 0, takenTurn none] ++
    ("status\r".toList.map charByte).flatMap (fun byte => [takenTurn (some byte), takenTurn none]) ++
    [takenTurn none]

/-- The client is called once, when the banner and the echo of the line are written. -/
theorem terminal_output_exact_status :
    ∃ call, (Run.final (transcriptStep testProfile) (Transcript.boot testProfile)
      statusActions).calls = [call] ∧ call.accepted = call.appended.map charByte := by
  have hbuilt : testProfile.Built := ⟨by decide, fun h => by cases h⟩
  have hone : (Run.final (transcriptStep testProfile) (Transcript.boot testProfile)
      statusActions).calls.length = 1 := by decide +kernel
  obtain ⟨call, hcall⟩ := List.length_eq_one_iff.mp hone
  have h := (terminal_output_exact hbuilt statusActions).2.2.2.2.2 call
    (by rw [hcall]; exact List.mem_singleton_self call)
  exact ⟨call, hcall, h.1⟩

end Tcs
