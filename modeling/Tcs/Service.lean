/-
# The service loop of the terminal

`servers/terminal.c`: the terminal is called when it is notified, and serves
its line for at most 32 steps: it writes out what it has printed, runs the
line or packet that is complete, or takes one byte from the driver. It never
waits for the UART; where the driver accepts less than it was offered the
call returns, and goes on with the next notification.

The driver can serve an interrupt between any two calls of the terminal, so
the loop is a machine with a phase and a turn (`consoleTurn`) makes at most
one call to the driver. A command's own call, to the client or to the
administrator, is part of a turn: it touches nothing of the driver.

Both profiles of the terminal are here: without `Profile.signed` the packet
mode is never entered.

Key definitions: `Profile`, `Console`, `execute`, `consoleTurn`,
`Console.init`.
-/
import Tcs.LineInput
import Tcs.Serial

namespace Tcs

open Ipc

/-- What the build fixes: `TCS_SIGNED_INPUT`, `TCS_PROFILE_NAME` and `TCS_LAUNCH_NAME`. -/
structure Profile where
  signed : Bool
  profileName : List Char
  launchName : List Char

/-- The profile of the host's tests. -/
def testProfile : Profile := ⟨false, "host-test".toList, []⟩

/-- The image with the fixture's names. -/
def fixtureProfile : Profile := ⟨true, "release-kernel".toList, "PUBLIC-FIXTURE-ONLY".toList⟩

/-- Where a call of the terminal stands: it has returned, is at the head of the loop, has flushed
its output in this step, or is about to flush once more and return. -/
inductive Phase
  | idle
  | loop (step : ℕ)
  | body (step : ℕ)
  | last
  deriving DecidableEq, Repr

/-- The statics of the terminal, and where its call stands. -/
structure Console where
  terminal : Terminal
  outputSent : ℕ
  pendingEvent : LineEvent
  phase : Phase

/-! ### Commands -/

/-- What `execute` prints for a snapshot. -/
def Terminal.statusReply (t : Terminal) (s : Snapshot) : Terminal :=
  let t :=
    if s.status = Status.ok then
      let t := t.append "SELF state=".toList
      let t := t.append (if s.state = State.word .active then "active".toList
        else if s.state = State.word .quarantined then "quarantined".toList
        else "restricted".toList)
      let t := (t.append " generation=".toList).decimal s.generation
      let t := (t.append " object=".toList).decimal s.object
      (t.append " rights=".toList).decimal s.rights
    else (t.append "STATUS UNAVAILABLE status=".toList).decimal s.status
  t.append "\r\n".toList

/-- What `execute` prints for the result of a read. -/
def Terminal.readReply (t : Terminal) (r : Result) : Terminal :=
  let t :=
    if r.status = Status.ok then (t.append "READ OK value=".toList).decimal r.value
    else (t.append "READ DENIED status=".toList).decimal r.status
  t.append "\r\n".toList

/-- The reply to `status` is one text, -/
theorem Terminal.statusReply_prints (t : Terminal) (s : Snapshot) :
    ∃ text, t.statusReply s = t.append text := by
  unfold Terminal.statusReply
  dsimp only
  by_cases h : s.status = Status.ok
  · rw [if_pos h]
    simp only [Terminal.decimal_eq, Terminal.append_append]
    exact ⟨_, rfl⟩
  · rw [if_neg h]
    simp only [Terminal.decimal_eq, Terminal.append_append]
    exact ⟨_, rfl⟩

/-- and so is the reply to `read`. -/
theorem Terminal.readReply_prints (t : Terminal) (r : Result) :
    ∃ text, t.readReply r = t.append text := by
  unfold Terminal.readReply
  dsimp only
  by_cases h : r.status = Status.ok
  · rw [if_pos h]
    simp only [Terminal.decimal_eq, Terminal.append_append]
    exact ⟨_, rfl⟩
  · rw [if_neg h]
    simp only [Terminal.decimal_eq, Terminal.append_append]
    exact ⟨_, rfl⟩

section

variable {σ τ : Type*} (profile : Profile) (mr : Registers)

/-- `execute`: the terminal after it, and the client's side. -/
def execute (client : Peer τ) (t : Terminal) (peer : τ) : Terminal × τ :=
  if profile.signed ∧ t.line.bytes = "submit".toList then
    (({ t with signedInput := signedBegin t.line.previousCr, packetMode := true } : Terminal).append
      ("Enter exactly 384 lowercase hex digits; Enter submits, Ctrl-C cancels.\r\n".toList ++
        "packet> ".toList), peer)
  else
    let command := commandParse t.line.bytes
    let out : Terminal × τ :=
      match command.kind with
      | .empty => (t, peer)
      | .help =>
        (t.append (if profile.signed then
            "help | version | status | read <generation> | submit\r\n".toList ++
              "Signed packets only; no plaintext administration.\r\n".toList
          else
            "help | version | status | read <generation>\r\n".toList ++
              "No administration commands.\r\n".toList), peer)
      | .version =>
        (t.append (if profile.signed then
            "TCS 0.2-dev / ".toList ++ profile.profileName ++ " / ".toList ++ profile.launchName ++
              " signed terminal\r\n".toList
          else
            "TCS 0.2-dev / ".toList ++ profile.profileName ++
              " / read-only terminal\r\n".toList), peer)
      | .status =>
        let out := client peer ⟨tcsLabel Op.clientStatus, 0, mr⟩
        (t.statusReply (snapshotResponse out.1), out.2)
      | .read =>
        let out := client peer ⟨tcsLabel Op.clientRead, 3,
          ((mr.set 0 tcsObject).set 1 tcsRead).set 2 command.generation⟩
        (t.readReply (tcsResponse out.1), out.2)
      | .invalid => (t.append "ERROR unknown or malformed command\r\n".toList, peer)
    (out.1.append promptText, out.2)

theorem execute_prints (client : Peer τ) (t : Terminal) (peer : τ)
    (h : ¬ (profile.signed = true ∧ t.line.bytes = "submit".toList)) :
    ∃ text, (execute profile mr client t peer).1 = t.append text := by
  have hprompt : ∀ out : Terminal, (∃ text, out = t.append text) →
      ∃ text, out.append promptText = t.append text := by
    rintro _ ⟨text, rfl⟩
    exact ⟨_, Terminal.append_append _ _ _⟩
  unfold execute
  rw [if_neg h]
  apply hprompt
  cases (commandParse t.line.bytes).kind with
  | empty => exact ⟨[], rfl⟩
  | help => exact ⟨_, rfl⟩
  | version => exact ⟨_, rfl⟩
  | status => exact t.statusReply_prints _
  | read => exact t.readReply_prints _
  | invalid => exact ⟨_, rfl⟩

/-- What `service` does with the event of a line. -/
def Terminal.handle (client administrator : Peer τ) (event : LineEvent) (t : Terminal) (peer : τ) :
    Terminal × τ :=
  if t.packetMode then finishPacket administrator mr event t peer
  else
    match event with
    | .ready => execute profile mr client t peer
    | .rejected => (t.append ("ERROR discarded input line\r\n".toList ++ promptText), peer)
    | .cancelled => (t.append ("CANCELLED\r\n".toList ++ promptText), peer)
    | .none => (t, peer)

/-! ### Output -/

/-- The bytes that `flush` offers. -/
def Console.chunk (c : Console) : List UInt8 :=
  ((c.terminal.output.drop c.outputSent).take serialChunk).map charByte

/-- The call that `flush` makes. -/
def Console.writeRequest (c : Console) : Message :=
  ⟨tcsLabel Op.serialWrite, c.chunk.length,
    fun i => if i < c.chunk.length then (c.chunk.getD i 0).toUInt64 else mr i⟩

/-- `flush`, after the driver's reply: whether all is written. -/
def Console.written (c : Console) (reply : Message) : Bool × Console :=
  let r := tcsResponse reply
  if r.status ≠ Status.ok ∨ r.value > UInt64.ofNat c.chunk.length then
    (false, { c with terminal.failed := true })
  else
    let sent := c.outputSent + r.value.toNat
    if sent = c.terminal.output.length then
      (true, { c with terminal.output := [], outputSent := 0 })
    else (false, { c with outputSent := sent })

/-- `flush`. -/
def flush (serial : Peer σ) (c : Console) (driver : σ) : Bool × Console × σ :=
  if c.outputSent = c.terminal.output.length then (true, c, driver)
  else
    let out := serial driver (c.writeRequest mr)
    let (done, c) := c.written out.1
    (done, c, out.2)

/-! ### Input -/

/-- The call that takes a byte. -/
def readRequest : Message := ⟨tcsLabel Op.serialRead, 0, mr⟩

end

/-- What `service` does on the mark of a loss. -/
def Terminal.inputLost (t : Terminal) : Terminal :=
  let t := if t.packetMode then { t with signedInput := signedDiscard } else t
  ({ t with line := lineDiscard t.line } : Terminal).append
    "\r\nINPUT LOST; discard until Enter or Ctrl-C\r\n".toList

/-- A byte is fed to the packet, or to the line. -/
def Terminal.feed (t : Terminal) (byte : UInt8) : LineFeedback × Terminal :=
  if t.packetMode then
    ((signedFeed t.signedInput byte).1, { t with signedInput := (signedFeed t.signedInput byte).2 })
  else ((terminalInput t.line byte).1, { t with line := (terminalInput t.line byte).2 })

/-- What `service` does with the driver's answer in step `step`. -/
def Console.received (c : Console) (step : ℕ) (m : Message) : Console :=
  if m.label ≠ Label.serialData ∨ m.count ≠ 2 then
    { c with terminal.failed := true, phase := .idle }
  else
    let flags := m.mr 0
    let byte := m.mr 1
    if flags > serialByte ||| serialLossFlag ∨ byte > 255 ∨ (flags &&& serialByte = 0 ∧ byte ≠ 0) then
      { c with terminal.failed := true, phase := .idle }
    else
      let t := if flags &&& serialLossFlag ≠ 0 then c.terminal.inputLost else c.terminal
      if flags &&& serialByte = 0 then { c with terminal := t, phase := .last }
      else
        let (feedback, t) := t.feed byte.toUInt8
        { c with
          terminal := t.append feedback.echo
          pendingEvent := feedback.event
          phase := .loop (step + 1) }

/-! ### The loop -/

section

variable {σ τ : Type*} (profile : Profile) (mr : Registers)

/-- A turn of the terminal: `service`, up to its next call to the driver and past it. -/
def consoleTurn (serial : Peer σ) (client administrator : Peer τ) (c : Console) (driver : σ)
    (peer : τ) : Console × σ × τ :=
  match c.phase with
  | .idle => (c, driver, peer)
  | .loop step =>
    if step < 32 ∧ !c.terminal.failed then
      let (done, c, driver) := flush mr serial c driver
      ({ c with phase := if done then .body step else .idle }, driver, peer)
    else ({ c with phase := if c.terminal.failed then .idle else .last }, driver, peer)
  | .body step =>
    if c.pendingEvent ≠ .none then
      let (t, peer) := c.terminal.handle profile mr client administrator c.pendingEvent peer
      ({ c with terminal := t, pendingEvent := .none, phase := .loop (step + 1) }, driver, peer)
    else
      let out := serial driver (readRequest mr)
      (c.received step out.1, out.2, peer)
  | .last =>
    let (_, c, driver) := flush mr serial c driver
    ({ c with phase := .idle }, driver, peer)

/-- `notified`, up to the first turn; a call from another channel than the driver's does nothing. -/
def Console.notified (c : Console) (ch : ℕ) : Console :=
  if ch = 0 then { c with phase := .loop 0 } else c

/-- `init`, up to the first turn. -/
def Console.init : Console :=
  ⟨Terminal.zero.append (if profile.signed then
      "TCS SIGNED TERMINAL READY (".toList ++ profile.profileName ++ ", ".toList ++
        profile.launchName ++ ")\r\n".toList ++ promptText
    else
      "TCS TERMINAL READY (".toList ++ profile.profileName ++ ", read-only)\r\n".toList ++
        promptText), 0, .none, .loop 0⟩

end

end Tcs
