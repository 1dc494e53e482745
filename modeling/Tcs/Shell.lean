/-
# The terminal as a function of what is typed

What `servers/terminal.c` is for, without the driver, the buffer, the
notifications and the steps of the loop: a shell that takes one byte after
the other, prints, and calls the other servers (`shellStep`). Whatever the
order of interrupts, notifications and turns, and however little the driver
takes of a text at a time, terminal and driver do what the shell does with
what was taken (`Follows`): the servers that are called are in its state, and
the bytes on the wire are the beginning of what it prints.

A byte is fed in one turn and the line that it ends is run in a later one, so
in between the shell has fed the byte and has its event still to serve
(`Shell.feed`, `Shell.serve`). What was taken and what waits in the queue
tells of everything that has arrived, with a mark where something is missing
(`Accounted`).

Key definitions: `Editors`, `Shell`, `shellStep`, `taken`, `Follows`,
`Accounted`.
Key theorems: `follows_step`, `accounted_step`, `console_refines_shell`.
-/
import Tcs.DriverQueue
import Tcs.Output
import Tcs.Lib.Lossy

namespace Tcs

open Ipc

/-! ### The shell -/

/-- The editors of the terminal, and which of them is in use. -/
structure Editors where
  line : Line
  signedInput : SignedInput
  packetMode : Bool

def Terminal.editors (t : Terminal) : Editors := ⟨t.line, t.signedInput, t.packetMode⟩

theorem Terminal.editors_append (t : Terminal) (text : List Char) :
    (t.append text).editors = t.editors := by
  unfold Terminal.editors
  rw [t.append_line, t.append_signedInput, t.append_packetMode]

/-- A running terminal with these editors that has printed nothing. -/
def Editors.fresh (e : Editors) : Terminal := ⟨e.line, e.signedInput, e.packetMode, [], false⟩

@[simp] theorem Editors.fresh_editors (e : Editors) : e.fresh.editors = e := rfl

/-- What the terminal gets from one `READ`: the mark of a loss, and a byte. -/
abbrev Take := Lossy.Take UInt8

/-- The shell: its editors, the servers that it calls, and everything that it has printed. -/
structure Shell (τ : Type*) where
  editors : Editors
  peer : τ
  printed : List Char

/-- The shell goes on with the editors of a terminal, and prints what that has printed. -/
def Shell.went {τ : Type*} (s : Shell τ) (out : Terminal × τ) : Shell τ :=
  ⟨out.1.editors, out.2, s.printed ++ out.1.output⟩

/-- A take: the mark of a loss, the byte, and the event of the byte. -/
def Shell.feed {τ : Type*} (s : Shell τ) (k : Take) : Shell τ × LineEvent :=
  let t := s.editors.fresh.marked k.lost
  match k.item with
  | none => (s.went (t, s.peer), .none)
  | some byte =>
    let (feedback, t) := t.feed byte
    (s.went (t.append feedback.echo, s.peer), feedback.event)

section

variable {τ : Type*} (profile : Profile) (client administrator : Peer τ)

/-- The event of a line. -/
def Shell.serve (s : Shell τ) (event : LineEvent) : Shell τ :=
  if event = .none then s
  else s.went (s.editors.fresh.handle profile (fun _ => 0) client administrator event s.peer)

/-- One take of the shell. -/
def shellStep (s : Shell τ) (k : Take) : Shell τ × Unit :=
  ((s.feed k).1.serve profile client administrator (s.feed k).2, ())

/-- The shell has printed its banner. -/
def Shell.start (peer : τ) : Shell τ := ⟨Terminal.zero.editors, peer, bannerText profile⟩

end

/-! ### What was taken -/

/-- The history of terminal and driver. -/
abbrev LinkEntry (τ : Type*) := Run.Entry (Link τ) LinkAction Unit

/-- What the terminal gets, if its next turn reads. -/
def Link.take {τ : Type*} (s : Link τ) : List Take :=
  if s.console.reads then [⟨s.driver.rx.lost, s.driver.rx.contents.head?⟩] else []

/-- What a step takes. -/
def LinkEntry.taken {τ : Type*} (e : LinkEntry τ) : List Take :=
  match e.input with
  | .turn _ _ _ => e.pre.take
  | _ => []

/-- What was taken, oldest first. -/
def taken {τ : Type*} (h : List (LinkEntry τ)) : List Take := h.flatMap LinkEntry.taken

theorem taken_snoc {τ : Type*} (h : List (LinkEntry τ)) (e : LinkEntry τ) :
    taken (h ++ [e]) = taken h ++ LinkEntry.taken e := by
  unfold taken
  rw [List.flatMap_append, List.flatMap_singleton]

/-! ### The registers of the terminal -/

section

variable {τ : Type*} (profile : Profile) {client administrator : Peer τ}

theorem wordsFromBytes_view (mr mr' : Registers) (label : UInt64) {bytes : List UInt8} {n : ℕ}
    (hb : bytes.length = 8 * n) :
    (⟨label, n, wordsFromBytes mr bytes⟩ : Message).view =
      (⟨label, n, wordsFromBytes mr' bytes⟩ : Message).view := by
  refine Prod.ext rfl (List.map_congr_left fun i hi => ?_)
  have hlt : i < n := List.mem_range.mp hi
  have hin : i < bytes.length / 8 := by omega
  exact (if_pos hin).trans (if_pos hin).symm

/-- What a command does depends on no register that it does not set. -/
theorem handle_registers (hclient : Counted client) (hadministrator : Counted administrator)
    (mr mr' : Registers) (event : LineEvent) (t : Terminal) (peer : τ) :
    t.handle profile mr client administrator event peer =
      t.handle profile mr' client administrator event peer := by
  unfold Terminal.handle
  by_cases hp : t.packetMode = true
  · rw [if_pos hp, if_pos hp]
    cases event with
    | ready =>
      have hlen : t.signedInput.packet.toList.length = 8 * adminPacketWords := Vector.length_toList
      have hcall := hadministrator peer _ _ (wordsFromBytes_view mr mr' Label.adminSubmit hlen)
      unfold finishPacket
      dsimp only
      rw [hcall]
    | cancelled => rfl
    | rejected => rfl
    | none => rfl
  rw [if_neg hp, if_neg hp]
  cases event with
  | cancelled => rfl
  | rejected => rfl
  | none => rfl
  | ready =>
    dsimp only
    unfold execute
    by_cases hs : profile.signed = true ∧ t.line.bytes = "submit".toList
    · rw [if_pos hs, if_pos hs]
    rw [if_neg hs, if_neg hs]
    have hstatus : client peer ⟨tcsLabel Op.clientStatus, 0, mr⟩ =
        client peer ⟨tcsLabel Op.clientStatus, 0, mr'⟩ := hclient _ _ _ rfl
    have hread : ∀ g, client peer ⟨tcsLabel Op.clientRead, 3,
        ((mr.set 0 tcsObject).set 1 tcsRead).set 2 g⟩ =
          client peer ⟨tcsLabel Op.clientRead, 3,
            ((mr'.set 0 tcsObject).set 1 tcsRead).set 2 g⟩ := by
      intro g
      refine hclient _ _ _ (Prod.ext rfl ?_)
      simp [Message.view, List.range_succ, Registers.set_apply]
    dsimp only
    rw [hstatus, hread]

end

/-! ### Texts, whoever answers -/

section

variable {τ : Type*} {profile : Profile} (client administrator : Peer τ) (mr : Registers)

theorem finishPacket_text (event : LineEvent) (t : Terminal) (peer : τ) :
    ∃ reply, t.Prints (finishPacket administrator mr event t peer).1
      (finishText event (signedCommand t.signedInput.packet.toList) reply) := by
  let reply := (administrator peer
    ⟨Label.adminSubmit, adminPacketWords, wordsFromBytes mr t.signedInput.packet.toList⟩).1
  refine ⟨reply, ?_⟩
  have h : (finishPacket administrator mr event t peer).1 =
      (finishPacket (answering reply) mr event t peer).1 := by
    cases event <;> rfl
  rw [h]
  exact finishPacket_prints mr (fun _ _ => rfl) event t peer

theorem execute_someText (t : Terminal) (peer : τ) :
    ∃ reply, t.Prints (execute profile mr client t peer).1 (executeText profile t.line reply) := by
  -- the reply is the one to the call that the command makes
  let reply := match (commandParse t.line.bytes).kind with
    | .read => (client peer ⟨tcsLabel Op.clientRead, 3,
        ((mr.set 0 tcsObject).set 1 tcsRead).set 2 (commandParse t.line.bytes).generation⟩).1
    | _ => (client peer ⟨tcsLabel Op.clientStatus, 0, mr⟩).1
  refine ⟨reply, ?_⟩
  have h : (execute profile mr client t peer).1 =
      (execute profile mr (answering reply) t peer).1 := by
    unfold execute
    by_cases hs : profile.signed = true ∧ t.line.bytes = "submit".toList
    · rw [if_pos hs, if_pos hs]
    rw [if_neg hs, if_neg hs]
    dsimp only [reply]
    cases (commandParse t.line.bytes).kind <;> rfl
  rw [h]
  exact execute_text profile mr (fun _ _ => rfl) t peer

/-- The event of a line prints a text that fits the buffer, -/
theorem handle_fits (hbuilt : profile.Built) (event : LineEvent) (t : Terminal) (peer : τ) :
    ∃ text, t.Prints (t.handle profile mr client administrator event peer).1 text ∧
      text.length ≤ outputBytes := by
  unfold Terminal.handle
  by_cases hp : t.packetMode = true
  · rw [if_pos hp]
    obtain ⟨reply, h⟩ := finishPacket_text administrator mr event t peer
    exact ⟨_, h, length_finishText event _ reply⟩
  rw [if_neg hp]
  cases event with
  | none => exact ⟨[], Terminal.prints_nothing rfl rfl, Nat.zero_le _⟩
  | rejected => exact ⟨_, t.prints_append _, by decide⟩
  | cancelled => exact ⟨_, t.prints_append _, by decide⟩
  | ready =>
    obtain ⟨reply, h⟩ := execute_someText client mr t peer
    exact ⟨_, h, length_executeText hbuilt t.line reply⟩

end

/-- and so do the mark of a loss -/
theorem marked_fits (t : Terminal) (lost : Bool) :
    ∃ text, t.Prints (t.marked lost) text ∧ text.length ≤ outputBytes :=
  ⟨_, marked_prints t lost, by cases lost <;> decide⟩

/-- and a byte behind it. -/
theorem feed_fits (t : Terminal) (lost : Bool) (byte : UInt8) :
    ∃ text, t.Prints (((t.marked lost).feed byte).2.append ((t.marked lost).feed byte).1.echo) text ∧
      text.length ≤ outputBytes := by
  obtain ⟨houtput, hfailed, -⟩ := (t.marked lost).feed_output byte
  have hecho := length_echoText t lost (some byte)
  have hloss : (if lost = true then lossText else []).length ≤ 46 := by cases lost <;> decide
  refine ⟨_, (marked_prints t lost).trans ((Terminal.prints_append _ _).after houtput hfailed), ?_⟩
  rw [List.length_append]
  simp only [Terminal.echoText] at hecho
  simp only [outputBytes]
  omega

/-! ### Flushing to the driver -/

theorem transmitCount_le (full : ℕ → Bool) (count : ℕ) : transmitCount full count ≤ count := by
  have h := (List.takeWhile_sublist (!full ·) (l := List.range count)).length_le
  rwa [List.length_range] at h

/-- The driver as the terminal's output sees it: it takes what the transmitter has room for. -/
def linkAnswers (mr : Registers) (noise : Noise) (full : ℕ → Bool) (c : Console) : Answers :=
  ⟨mr, noise, transmitCount full c.chunk.length, false, none, ⟨0, 0, mr⟩, ⟨0, 0, mr⟩⟩

theorem Console.chunk_length_le (c : Console) : c.chunk.length ≤ serialChunk := by
  unfold Console.chunk
  rw [List.length_map]
  exact List.length_take_le _ _

theorem serialProtected_offer (mr noise : Registers) (full : ℕ → Bool) (driver : SerialServer)
    {c : Console} (h : 0 < c.chunk.length) :
    serialProtected mr full driver 1 ((c.writeRequest mr).deliver noise) =
      (tcsReply mr ⟨Status.ok, UInt64.ofNat (transmitCount full c.chunk.length)⟩,
        { driver with
          imsc := if transmitCount full c.chunk.length < c.chunk.length then receiveIrqs ||| txIrq
            else driver.imsc
          wire := driver.wire ++ c.chunk.take (transmitCount full c.chunk.length) },
        decide (transmitCount full c.chunk.length ≠ 0)) := by
  have hle := c.chunk_length_le
  have hread : ¬ tcsMessage ((c.writeRequest mr).deliver noise) Op.serialRead 0 = true := by
    have hne : tcsLabel Op.serialWrite ≠ tcsLabel Op.serialRead := by decide
    intro hm
    simp only [tcsMessage, decide_eq_true_eq] at hm
    exact hne hm.1
  have hbytes : ((List.range c.chunk.length).any fun i =>
      ((c.writeRequest mr).deliver noise).mr i > 255) = false := by
    rw [List.any_eq_false]
    intro i hi
    have hlt : i < c.chunk.length := List.mem_range.mp hi
    rw [Message.deliver_mr noise (show i < (c.writeRequest mr).count from hlt)]
    have hword : (c.writeRequest mr).mr i = (c.chunk.getD i 0).toUInt64 := if_pos hlt
    have hbyte := (c.chunk.getD i 0).toNat_lt
    rw [hword, decide_eq_true_eq, gt_iff_lt, UInt64.lt_iff_toNat_lt, UInt8.toNat_toUInt64]
    show ¬ 255 < _
    omega
  unfold serialProtected
  rw [if_neg (by decide), if_neg hread]
  rw [if_neg (show ¬ (((c.writeRequest mr).deliver noise).label ≠ tcsLabel Op.serialWrite ∨
    ((c.writeRequest mr).deliver noise).count = 0 ∨
    ((c.writeRequest mr).deliver noise).count > serialChunk) by
      rw [Message.deliver_label, Message.deliver_count]
      simp only [Console.writeRequest, ne_eq, not_true_eq_false, false_or, not_or, gt_iff_lt,
        not_lt]
      exact ⟨by omega, hle⟩)]
  rw [show ((c.writeRequest mr).deliver noise).count = c.chunk.length from rfl, hbytes,
    if_neg (by decide)]
  dsimp only
  rw [writeRequest_bytes mr noise c (transmitCount_le full _)]

theorem Console.chunk_pos {c : Console} (h : c.Buffered)
    (hall : c.outputSent ≠ c.terminal.output.length) : 0 < c.chunk.length := by
  unfold Console.chunk
  rw [List.length_map, List.length_take, List.length_drop]
  rcases h.sent with hlt | ⟨hnil, hzero⟩
  · simp only [serialChunk]
    omega
  · rw [hnil, hzero] at hall
    exact absurd rfl hall

/-- A flush to the driver is a flush to one that records the bytes. -/
theorem flush_wire (mr : Registers) (full : ℕ → Bool) (noise : Noise) {c : Console}
    (h : c.Buffered) (driver : SerialServer) (notified : Bool) :
    flush mr (ppcall noise (takingPeer (linkAnswers mr noise full c))) c driver.wire =
      ((flush mr (ppcall noise (driverPeer mr full)) c (driver, notified)).1,
        (flush mr (ppcall noise (driverPeer mr full)) c (driver, notified)).2.1,
        (flush mr (ppcall noise (driverPeer mr full)) c (driver, notified)).2.2.1.wire) := by
  unfold flush
  by_cases hall : c.outputSent = c.terminal.output.length
  · rw [if_pos hall, if_pos hall]
  rw [if_neg hall, if_neg hall, ppcall_eq, ppcall_eq]
  have htaken := takingPeer_write (linkAnswers mr noise full c) c driver.wire
  dsimp only [linkAnswers] at htaken ⊢
  rw [Nat.min_eq_left (transmitCount_le full _)] at htaken
  unfold driverPeer
  rw [htaken, serialProtected_offer mr noise.callee full driver (c.chunk_pos h hall)]

/-- What a flush to the driver does: nothing is lost between the buffer and the wire. -/
structure Flushes (c : Console) (driver : SerialServer) (out : Bool × Console × SerialServer × Bool) :
    Prop where
  buffered : out.2.1.Buffered
  editors : out.2.1.terminal.editors = c.terminal.editors
  event : out.2.1.pendingEvent = c.pendingEvent
  whole : out.2.2.1.wire ++ out.2.1.unwritten = driver.wire ++ c.unwritten
  complete : out.1 = true → out.2.1.terminal.output = []

theorem flushes (mr : Registers) (full : ℕ → Bool) (noise : Noise) {c : Console} (h : c.Buffered)
    (driver : SerialServer) (notified : Bool) :
    Flushes c driver (flush mr (ppcall noise (driverPeer mr full)) c (driver, notified)) := by
  have hkeeps := flush_keeps (linkAnswers mr noise full c) h driver.wire
  have heditors : (flush mr (ppcall noise (driverPeer mr full)) c
      (driver, notified)).2.1.terminal.editors = c.terminal.editors := by
    unfold flush
    split_ifs
    · rfl
    · obtain ⟨-, output, failed, ht⟩ := c.written_same
        (ppcall noise (driverPeer mr full) (driver, notified) (c.writeRequest mr)).1
      show (c.written _).2.terminal.editors = _
      rw [ht]
      rfl
  have hwire := flush_wire mr full noise h driver notified
  dsimp only [linkAnswers] at hkeeps hwire
  rw [hwire] at hkeeps
  exact ⟨hkeeps.buffered, heditors, hkeeps.event, hkeeps.whole, hkeeps.complete⟩

/-! ### The invariant -/

section

variable {τ : Type*} (profile : Profile) (client administrator : Peer τ)

/-- The terminal has the editors of a shell that has the event still to serve, calls the servers in
its state, and the wire and the buffer hold what it has printed. -/
structure Mirrors (s : Link τ) (shell : Shell τ) : Prop where
  editors : s.console.terminal.editors = shell.editors
  peer : s.peer = shell.peer
  printed : s.driver.wire ++ s.console.unwritten = shell.printed.map charByte

/-- The invariant, after `takes`. -/
structure Follows (start : τ) (takes : List Take) (s : Link τ) : Prop where
  buffered : s.console.Buffered
  flushed : ∀ step, s.console.phase = .body step → s.console.terminal.output = []
  shell : ∃ shell : Shell τ, Mirrors s shell ∧
    shell.serve profile client administrator s.console.pendingEvent =
      Run.final (shellStep profile client administrator) (Shell.start profile start) takes

variable {profile client administrator} {start : τ} {takes : List Take} {s : Link τ}

/-- A terminal that has written everything has its editors and nothing else. -/
theorem Console.fresh_of_empty {c : Console} (h : c.Buffered) (ho : c.terminal.output = []) :
    c.terminal = c.terminal.editors.fresh ∧ c.outputSent = 0 := by
  refine ⟨?_, ?_⟩
  · have hfailed := h.failed
    generalize c.terminal = t at ho hfailed
    obtain ⟨line, signedInput, packetMode, output, failed⟩ := t
    subst ho hfailed
    rfl
  · rcases h.sent with hlt | ⟨-, hzero⟩
    · rw [ho, List.length_nil] at hlt
      omega
    · exact hzero

/-- The text of a turn goes into the empty buffer, and the shell prints it. -/
theorem mirrors_went {shell : Shell τ} (h : Mirrors s shell) (hb : s.console.Buffered)
    (ho : s.console.terminal.output = []) {t : Terminal} (peer : τ)
    (hfits : ∃ text, s.console.terminal.Prints t text ∧ text.length ≤ outputBytes)
    (driver : SerialServer) (hwire : driver.wire = s.driver.wire) (notified : Bool)
    (event : LineEvent) (phase : Phase) :
    let c : Console := ⟨t, s.console.outputSent, event, phase⟩
    c.Buffered ∧ Mirrors ⟨driver, notified, c, peer⟩ (shell.went (t, peer)) := by
  intro c
  obtain ⟨text, hprints, hfit⟩ := hfits
  obtain ⟨houtput, hfailed⟩ := hprints (by rw [ho, List.length_nil]; omega)
  rw [ho, List.nil_append] at houtput
  have hzero := (Console.fresh_of_empty hb ho).2
  refine ⟨⟨hfailed.trans hb.failed, ?_, ?_⟩, rfl, rfl, ?_⟩
  · show t.output.length ≤ outputBytes
    rw [houtput]
    exact hfit
  · show s.console.outputSent < t.output.length ∨ (t.output = [] ∧ s.console.outputSent = 0)
    rw [hzero]
    rcases List.eq_nil_or_concat t.output with hnil | ⟨_, _, hcons⟩
    · exact Or.inr ⟨hnil, rfl⟩
    · left
      rw [hcons]
      simp
  · have hprinted := h.printed
    unfold Console.unwritten at hprinted ⊢
    rw [ho, List.drop_nil, List.map_nil, List.append_nil] at hprinted
    show driver.wire ++ (t.output.drop s.console.outputSent).map charByte =
      (shell.printed ++ t.output).map charByte
    rw [hwire, hprinted, hzero, List.drop_zero, List.map_append]

theorem follows_flush (h : Follows profile client administrator start takes s) (mr : Registers)
    (full : ℕ → Bool) (noise : Noise) {phase : Phase}
    (hphase : ∀ step, phase = .body step →
      (flush mr (ppcall noise (driverPeer mr full)) s.console (s.driver, s.notified)).1 = true) :
    let out := flush mr (ppcall noise (driverPeer mr full)) s.console (s.driver, s.notified)
    Follows profile client administrator start takes
      ⟨out.2.2.1, out.2.2.2, { out.2.1 with phase := phase }, s.peer⟩ := by
  intro out
  have hf := flushes mr full noise h.buffered s.driver s.notified
  obtain ⟨shell, hmirrors, hserve⟩ := h.shell
  refine ⟨⟨hf.buffered.failed, hf.buffered.bound, hf.buffered.sent⟩,
    fun step hp => hf.complete (hphase step hp), shell, ⟨?_, hmirrors.peer, ?_⟩, ?_⟩
  · exact hf.editors.trans hmirrors.editors
  · exact hf.whole.trans hmirrors.printed
  · rw [← hserve]
    exact congrArg _ hf.event

theorem follows_quiet (h : Follows profile client administrator start takes s) (full : ℕ → Bool)
    (mr : Registers) (noise : Noise) (hphase : ∀ step, s.console.phase ≠ .body step) :
    Follows profile client administrator start takes
      (linkStep profile client administrator s (.turn full mr noise)).1 := by
  unfold linkStep consoleTurn
  cases hp : s.console.phase with
  | idle => exact h
  | loop step =>
    dsimp only
    by_cases hstep : step < 32 ∧ (!s.console.terminal.failed) = true
    · simp only [if_pos hstep]
      refine follows_flush h mr full noise fun k hk => ?_
      by_contra hnot
      rw [if_neg hnot] at hk
      cases hk
    · simp only [if_neg hstep]
      obtain ⟨shell, hmirrors, hserve⟩ := h.shell
      refine ⟨⟨h.buffered.failed, h.buffered.bound, h.buffered.sent⟩, fun k hk => ?_, shell,
        ⟨hmirrors.editors, hmirrors.peer, hmirrors.printed⟩, hserve⟩
      dsimp only at hk
      rw [if_neg (by simp [h.buffered.failed])] at hk
      cases hk
  | body step => exact absurd hp (hphase step)
  | last => exact follows_flush h mr full noise fun k hk => by cases hk

theorem follows_serve (hbuilt : profile.Built) (hclient : Counted client)
    (hadministrator : Counted administrator)
    (h : Follows profile client administrator start takes s) (full : ℕ → Bool) (mr : Registers)
    (noise : Noise) {step : ℕ} (hphase : s.console.phase = .body step)
    (he : s.console.pendingEvent ≠ .none) :
    Follows profile client administrator start takes
      (linkStep profile client administrator s (.turn full mr noise)).1 := by
  have ho := h.flushed step hphase
  obtain ⟨shell, hmirrors, hserve⟩ := h.shell
  have hfits := handle_fits client administrator mr hbuilt s.console.pendingEvent
    s.console.terminal s.peer
  have hhandle : s.console.terminal.handle profile mr client administrator s.console.pendingEvent
      s.peer = shell.editors.fresh.handle profile (fun _ => 0) client administrator
        s.console.pendingEvent shell.peer := by
    rw [handle_registers profile hclient hadministrator mr (fun _ => 0), ← hmirrors.editors,
      ← hmirrors.peer, ← (Console.fresh_of_empty h.buffered ho).1]
  unfold linkStep consoleTurn
  rw [hphase]
  dsimp only
  rw [if_pos he]
  rw [hhandle] at hfits ⊢
  unfold Shell.serve at hserve
  rw [if_neg he] at hserve
  generalize shell.editors.fresh.handle profile (fun _ => 0) client administrator
    s.console.pendingEvent shell.peer = out at hfits hserve
  obtain ⟨hbuffered, hmirrors'⟩ := mirrors_went hmirrors h.buffered ho out.2 hfits s.driver rfl
    s.notified .none (.loop (step + 1))
  exact ⟨hbuffered, fun k => Phase.noConfusion, _, hmirrors', hserve⟩

theorem follows_read (h : Follows profile client administrator start takes s) (full : ℕ → Bool)
    (mr : Registers) (noise : Noise) {step : ℕ} (hphase : s.console.phase = .body step)
    (he : s.console.pendingEvent = .none) :
    Follows profile client administrator start (takes ++ s.take)
      (linkStep profile client administrator s (.turn full mr noise)).1 := by
  have ho := h.flushed step hphase
  obtain ⟨shell, hmirrors, hserve⟩ := h.shell
  have hfresh : s.console.terminal = shell.editors.fresh := by
    rw [← hmirrors.editors]
    exact (Console.fresh_of_empty h.buffered ho).1
  have htake : s.take = [⟨s.driver.rx.lost, s.driver.rx.contents.head?⟩] := by
    unfold Link.take
    rw [Console.reads_body hphase, decide_eq_true he]
    rfl
  have hshell : Run.final (shellStep profile client administrator) (Shell.start profile start)
      takes = shell := by
    rw [← hserve, he]
    exact if_pos rfl
  have hread : driverPeer mr full (s.driver, s.notified) ((readRequest mr).deliver noise.callee) =
      ((serialAnswer mr s.driver.rx).1, { s.driver with rx := (serialAnswer mr s.driver.rx).2 },
        s.notified || decide ((serialAnswer mr s.driver.rx).2.count ≠ 0)) := rfl
  rw [htake]
  unfold linkStep consoleTurn
  rw [hphase]
  dsimp only
  rw [if_neg (not_not.mpr he), ppcall_eq, hread]
  dsimp only
  cases hc : s.driver.rx.contents with
  | nil =>
    rw [(serialAnswer_nil mr noise.caller hc s.console step).2]
    obtain ⟨hbuffered, hmirrors'⟩ := mirrors_went hmirrors h.buffered ho s.peer
      (marked_fits s.console.terminal s.driver.rx.lost)
      { s.driver with rx := (serialAnswer mr s.driver.rx).2 } rfl
      (s.notified || decide ((serialAnswer mr s.driver.rx).2.count ≠ 0)) .none .last
    refine ⟨by rw [he]; exact hbuffered, fun k => Phase.noConfusion, _, by rw [he]; exact hmirrors', ?_⟩
    rw [Run.final_snoc, hshell, he, hfresh, hmirrors.peer]
    rfl
  | cons byte rest =>
    rw [(serialAnswer_cons mr noise.caller hc s.console step).2.2]
    obtain ⟨hbuffered, hmirrors'⟩ := mirrors_went hmirrors h.buffered ho s.peer
      (feed_fits s.console.terminal s.driver.rx.lost byte)
      { s.driver with rx := (serialAnswer mr s.driver.rx).2 } rfl
      (s.notified || decide ((serialAnswer mr s.driver.rx).2.count ≠ 0))
      ((s.console.terminal.marked s.driver.rx.lost).feed byte).1.event (.loop (step + 1))
    refine ⟨hbuffered, fun k => Phase.noConfusion, _, hmirrors', ?_⟩
    rw [Run.final_snoc, hshell, hfresh, hmirrors.peer]
    rfl

theorem follows_turn (hbuilt : profile.Built) (hclient : Counted client)
    (hadministrator : Counted administrator)
    (h : Follows profile client administrator start takes s) (full : ℕ → Bool) (mr : Registers)
    (noise : Noise) :
    Follows profile client administrator start (takes ++ s.take)
      (linkStep profile client administrator s (.turn full mr noise)).1 := by
  have hnone : s.console.reads = false → s.take = [] := fun hr => by simp [Link.take, hr]
  by_cases hbody : ∀ step, s.console.phase ≠ .body step
  · rw [hnone (Console.reads_other hbody), List.append_nil]
    exact follows_quiet h full mr noise hbody
  push Not at hbody
  obtain ⟨step, hphase⟩ := hbody
  by_cases he : s.console.pendingEvent = .none
  · exact follows_read h full mr noise hphase he
  · rw [hnone (by rw [Console.reads_body hphase]; exact decide_eq_false he), List.append_nil]
    exact follows_serve hbuilt hclient hadministrator h full mr noise hphase he

theorem follows_driver (h : Follows profile client administrator start takes s)
    {driver : SerialServer} (hwire : driver.wire = s.driver.wire) (notified : Bool) :
    Follows profile client administrator start takes
      { s with driver := driver, notified := notified } := by
  obtain ⟨shell, hmirrors, hserve⟩ := h.shell
  refine ⟨h.buffered, h.flushed, shell, ⟨hmirrors.editors, hmirrors.peer, ?_⟩, hserve⟩
  show driver.wire ++ s.console.unwritten = _
  rw [hwire]
  exact hmirrors.printed

theorem serialNotified_wire (driver : SerialServer) (ch : ℕ) (pending : UInt32)
    (fifo : List UInt32) : (serialNotified driver ch pending fifo).1.wire = driver.wire := by
  unfold serialNotified
  split_ifs <;> rfl

theorem follows_deliver (h : Follows profile client administrator start takes s) (ch : ℕ) :
    Follows profile client administrator start takes
      (linkStep profile client administrator s (.deliver ch)).1 := by
  unfold linkStep
  dsimp only
  obtain ⟨shell, hmirrors, hserve⟩ := h.shell
  by_cases hd : s.console.phase = .idle ∧ (ch = 0 → s.notified = true)
  swap
  · rw [if_neg hd]
    exact h
  rw [if_pos hd]
  unfold Console.notified
  by_cases hch : ch = 0
  · rw [if_pos hch, if_pos hch]
    exact ⟨⟨h.buffered.failed, h.buffered.bound, h.buffered.sent⟩, fun k => Phase.noConfusion, shell,
      ⟨hmirrors.editors, hmirrors.peer, hmirrors.printed⟩, hserve⟩
  · rw [if_neg hch, if_neg hch]
    exact h

/-- **A step follows the shell.** -/
theorem follows_step (hbuilt : profile.Built) (hclient : Counted client)
    (hadministrator : Counted administrator)
    (h : Follows profile client administrator start takes s) (a : LinkAction) :
    Follows profile client administrator start
      (takes ++ LinkEntry.taken (Run.entry (linkStep profile client administrator) s a))
      (linkStep profile client administrator s a).1 := by
  cases a with
  | interrupt ch pending fifo =>
    rw [show LinkEntry.taken (Run.entry (linkStep profile client administrator) s
      (.interrupt ch pending fifo)) = [] from rfl, List.append_nil]
    exact follows_driver h (serialNotified_wire s.driver ch pending fifo) _
  | deliver ch =>
    rw [show LinkEntry.taken (Run.entry (linkStep profile client administrator) s
      (.deliver ch)) = [] from rfl, List.append_nil]
    exact follows_deliver h ch
  | turn full mr noise => exact follows_turn hbuilt hclient hadministrator h full mr noise

theorem follows_boot (hbuilt : profile.Built) (start : τ) :
    Follows profile client administrator start [] (Link.boot profile start) := by
  have hok := transcriptOk_boot hbuilt
  refine ⟨hok.buffered, fun k => Phase.noConfusion, Shell.start profile start, ⟨?_, rfl, ?_⟩, if_pos rfl⟩
  · exact Terminal.zero.editors_append _
  · exact hok.whole

/-- **Every run follows the shell.** -/
theorem follows_run (hbuilt : profile.Built) (hclient : Counted client)
    (hadministrator : Counted administrator) (start : τ) (actions : List LinkAction) :
    Follows profile client administrator start
      (taken (Run.trace (linkStep profile client administrator) (Link.boot profile start) actions))
      (Run.final (linkStep profile client administrator) (Link.boot profile start) actions) := by
  refine Run.trace_induct (P := fun h s => Follows profile client administrator start (taken h) s)
    (follows_boot hbuilt start) (fun h s a hs => ?_) actions
  rw [taken_snoc]
  exact follows_step hbuilt hclient hadministrator hs a

end

/-- Where no event is pending the shell has served everything that was taken. -/
theorem Follows.served {τ : Type*} {profile : Profile} {client administrator : Peer τ} {start : τ}
    {takes : List Take} {s : Link τ} (h : Follows profile client administrator start takes s)
    (he : s.console.pendingEvent = .none) :
    Mirrors s (Run.final (shellStep profile client administrator) (Shell.start profile start)
      takes) := by
  obtain ⟨fed, hmirrors, hserve⟩ := h.shell
  rw [he] at hserve
  rw [← hserve]
  exact hmirrors

/-! ### What has arrived -/

/-- Everything that has arrived was taken, was skipped under a mark, or waits in the queue. -/
def Accounted {τ : Type*} (stream : List (Option UInt8)) (takes : List Take) (s : Link τ) : Prop :=
  ∃ old new, stream = old ++ new ∧ Lossy.Explains takes old ∧
    Lossy.Waits s.driver.rx.lost s.driver.rx.contents new

/-- What the queue tells of the stream behind what was taken. -/
def SerialRx.Holds (rx : SerialRx) (piece : List (Option UInt8)) : Prop :=
  Lossy.Waits rx.lost rx.contents piece

theorem holds_loss (rx : SerialRx) (piece : List (Option UInt8)) : (serialLoss rx).Holds piece :=
  Lossy.waits_dropped piece

theorem holds_word {rx : SerialRx} {piece : List (Option UInt8)} (h : rx.Holds piece)
    (data : UInt32) : (serialWord rx data).Holds (piece ++ [wordArrival data]) := by
  unfold serialWord wordArrival
  by_cases hd : data &&& 0xf00 ≠ 0
  · rw [if_pos hd]
    exact holds_loss _ _
  rw [if_neg hd, if_neg hd]
  unfold SerialRx.Holds
  rw [serialReceive_lost, contents_serialReceive]
  by_cases hfull : rx.count = serialCapacity
  · rw [if_pos hfull, decide_eq_true hfull, Bool.or_true]
    exact (Lossy.waits_dropped piece).push _
  · rw [if_neg hfull, decide_eq_false hfull, Bool.or_false]
    exact h.push _

theorem holds_words {rx : SerialRx} {piece : List (Option UInt8)} (h : rx.Holds piece)
    (words : List UInt32) :
    (words.foldl serialWord rx).Holds (piece ++ words.map wordArrival) := by
  induction words generalizing rx piece with
  | nil =>
    rw [List.map_nil, List.append_nil]
    exact h
  | cons data words ih =>
    have hwords := ih (holds_word h data)
    rwa [List.append_assoc, List.singleton_append] at hwords

theorem holds_interrupt {driver : SerialServer} {piece : List (Option UInt8)}
    (h : driver.rx.Holds piece) (ch : ℕ) (pending : UInt32) (fifo : List UInt32) :
    (serialNotified driver ch pending fifo).1.rx.Holds
      (piece ++ arrivals (.interrupt ch pending fifo)) := by
  unfold serialNotified arrivals
  dsimp only
  by_cases hch : ch ≠ 0
  · rw [if_pos hch, if_pos hch, List.append_nil]
    exact h
  rw [if_neg hch, if_neg hch]
  by_cases he : pending &&& errorIrq ≠ 0
  · rw [if_pos he, if_pos he, ← List.append_assoc]
    exact holds_words (holds_loss driver.rx _) _
  · rw [if_neg he, if_neg he, List.nil_append]
    exact holds_words h _

theorem holds_answer (mr : Registers) {rx : SerialRx} {piece : List (Option UInt8)}
    (h : rx.Holds piece) :
    ∃ old new, piece = old ++ new ∧ Lossy.Explains [⟨rx.lost, rx.contents.head?⟩] old ∧
      (serialAnswer mr rx).2.Holds new := by
  unfold SerialRx.Holds at h ⊢
  unfold serialAnswer
  dsimp only
  cases hc : rx.contents with
  | nil =>
    rw [hc] at h
    rw [serialTake_nil hc]
    obtain ⟨old, new, hpiece, hold, hnew⟩ := h.take_nothing
    exact ⟨old, new, hpiece, hold, hc ▸ hnew⟩
  | cons byte rest =>
    rw [hc] at h
    obtain ⟨-, -, hrest, hlost⟩ := serialTake_cons hc
    rw [hrest, hlost]
    exact h.take

section

variable {τ : Type*} {profile : Profile} {client administrator : Peer τ}

theorem turn_rx (s : Link τ) (full : ℕ → Bool) (mr : Registers) (noise : Noise) :
    (linkStep profile client administrator s (.turn full mr noise)).1.driver.rx =
      if s.console.reads then (serialAnswer mr s.driver.rx).2 else s.driver.rx := by
  have hqueue := (flushed mr full noise s.console s.driver s.notified).queue
  unfold linkStep consoleTurn Console.reads
  cases s.console.phase with
  | idle => rfl
  | loop step =>
    dsimp only
    rw [if_neg Bool.false_ne_true]
    by_cases hstep : step < 32 ∧ (!s.console.terminal.failed) = true
    · rw [if_pos hstep]
      exact hqueue
    · rw [if_neg hstep]
  | body step =>
    dsimp only
    by_cases he : s.console.pendingEvent = .none
    · rw [if_neg (not_not.mpr he), if_pos (decide_eq_true he)]
      rfl
    · rw [if_pos he, if_neg (by simpa using he)]
  | last => exact hqueue

/-- **A step accounts for what arrives.** -/
theorem accounted_step {stream : List (Option UInt8)} {takes : List Take} {s : Link τ}
    (h : Accounted stream takes s) (a : LinkAction) :
    Accounted (stream ++ arrivals a)
      (takes ++ LinkEntry.taken (Run.entry (linkStep profile client administrator) s a))
      (linkStep profile client administrator s a).1 := by
  obtain ⟨old, new, rfl, hold, hnew⟩ := h
  cases a with
  | interrupt ch pending fifo =>
    rw [show LinkEntry.taken (Run.entry (linkStep profile client administrator) s
      (.interrupt ch pending fifo)) = [] from rfl, List.append_nil]
    exact ⟨old, new ++ arrivals (.interrupt ch pending fifo), List.append_assoc _ _ _, hold,
      holds_interrupt hnew ch pending fifo⟩
  | deliver ch =>
    have hdriver : (linkStep profile client administrator s (.deliver ch)).1.driver = s.driver := by
      unfold linkStep
      dsimp only
      split_ifs <;> rfl
    rw [show LinkEntry.taken (Run.entry (linkStep profile client administrator) s
      (.deliver ch)) = [] from rfl, List.append_nil, arrivals, List.append_nil]
    exact ⟨old, new, rfl, hold, by rwa [hdriver]⟩
  | turn full mr noise =>
    rw [show LinkEntry.taken (Run.entry (linkStep profile client administrator) s
      (.turn full mr noise)) = s.take from rfl, arrivals, List.append_nil]
    unfold Accounted Link.take
    rw [turn_rx]
    by_cases hr : s.console.reads = true
    · rw [if_pos hr, if_pos hr]
      obtain ⟨piece, rest, rfl, hpiece, hrest⟩ := holds_answer mr hnew
      exact ⟨old ++ piece, rest, (List.append_assoc _ _ _).symm,
        Lossy.explains_append.mpr ⟨old, piece, rfl, hold, hpiece⟩, hrest⟩
    · rw [if_neg hr, if_neg hr, List.append_nil]
      exact ⟨old, new, rfl, hold, hnew⟩

theorem accounted_run (profile : Profile) (client administrator : Peer τ) (start : τ)
    (actions : List LinkAction) :
    Accounted (actions.flatMap arrivals)
      (taken (Run.trace (linkStep profile client administrator) (Link.boot profile start) actions))
      (Run.final (linkStep profile client administrator) (Link.boot profile start) actions) := by
  induction actions using List.reverseRecOn with
  | nil => exact ⟨[], [], rfl, rfl, [], fun _ => rfl, rfl⟩
  | append_singleton actions a ih =>
    rw [Run.trace_snoc, Run.final_snoc, taken_snoc, List.flatMap_append, List.flatMap_singleton]
    exact accounted_step ih a

end

/-- **Terminal and driver do what the shell does**, in every run, with servers that read the words
of a call only. With the shell after what was taken:

* the terminal has not failed, and the wire carries the beginning of what the shell has printed;
* where no event is pending, the editors and the servers that are called are in the shell's state,
  and the wire and the buffer carry everything that the shell has printed;
* everything that has arrived was taken, in order, was skipped before a take with the mark of a
  loss, or waits in the queue. -/
theorem console_refines_shell {τ : Type*} {profile : Profile} (hbuilt : profile.Built)
    {client administrator : Peer τ} (hclient : Counted client)
    (hadministrator : Counted administrator) (start : τ) (actions : List LinkAction) :
    let takes := taken (Run.trace (linkStep profile client administrator)
      (Link.boot profile start) actions)
    let s := Run.final (linkStep profile client administrator) (Link.boot profile start) actions
    let shell := Run.final (shellStep profile client administrator) (Shell.start profile start) takes
    s.console.terminal.failed = false ∧
    s.driver.wire <+: shell.printed.map charByte ∧
    (s.console.pendingEvent = .none → s.console.terminal.editors = shell.editors ∧
      s.peer = shell.peer ∧ s.driver.wire ++ s.console.unwritten = shell.printed.map charByte) ∧
    ∃ old new, actions.flatMap arrivals = old ++ new ∧ Lossy.Explains takes old ∧
      Lossy.Waits s.driver.rx.lost s.driver.rx.contents new := by
  intro takes s shell
  have h : Follows profile client administrator start takes s :=
    follows_run hbuilt hclient hadministrator start actions
  obtain ⟨fed, hmirrors, hserve⟩ := h.shell
  change fed.serve profile client administrator s.console.pendingEvent = shell at hserve
  refine ⟨h.buffered.failed, ?_, fun he => ?_, accounted_run profile client administrator start actions⟩
  · have hprinted : fed.printed <+: shell.printed := by
      rw [← hserve]
      unfold Shell.serve
      split_ifs
      · exact List.prefix_rfl
      · exact List.prefix_append _ _
    have hwire : s.driver.wire <+: fed.printed.map charByte := ⟨_, hmirrors.printed⟩
    exact hwire.trans (hprinted.map charByte)
  · have hserved := h.served he
    exact ⟨hserved.editors, hserved.peer, hserved.printed⟩

/-- A turn of the terminal, with a transmitter that has room for what it offers. -/
def roomyTurn : LinkAction := .turn (fun _ => false) (fun _ => 0) ⟨fun _ => 0, fun _ => 0⟩

theorem counted_silentPeer : Counted silentPeer := fun _ _ _ _ => rfl

theorem testProfile_built : testProfile.Built := ⟨by decide, fun h => by cases h⟩

/-- The word that the data register hands out for a character. -/
def typedWord (c : Char) : UInt32 := UInt32.ofNat c.toNat

/-- A turn, the transmitter's interrupt and the delivery of what the driver has to tell. -/
def roomyRounds (n : ℕ) : List LinkAction :=
  (List.replicate n [roomyTurn, .interrupt 0 txIrq [], .deliver 0]).flatten

/-- `version` is typed while the banner is written, and run. -/
def versionTyped : List LinkAction :=
  [roomyTurn, .interrupt 0 0x10 ("version\r".toList.map typedWord)] ++ roomyRounds 30

/-- Terminal and driver after it. -/
def versionDone : Link Unit :=
  Run.final (linkStep testProfile silentPeer silentPeer) (Link.boot testProfile ()) versionTyped

/-- The shell that has read what was taken. -/
def versionShell : Shell Unit :=
  Run.final (shellStep testProfile silentPeer silentPeer) (Shell.start testProfile ())
    (taken (Run.trace (linkStep testProfile silentPeer silentPeer) (Link.boot testProfile ())
      versionTyped))

/-- What the shell printed is on the wire: the banner, the echo of the line and its answer. -/
theorem console_refines_shell_version :
    versionDone.driver.wire = versionShell.printed.map charByte ∧
      versionDone.driver.wire = (bannerText testProfile ++ "version\r\n".toList ++
        "TCS 0.2-dev / host-test / read-only terminal\r\n".toList ++ promptText).map charByte := by
  have hserved : versionDone.console.pendingEvent = .none := by decide +kernel
  have hwritten : versionDone.console.unwritten = [] := by decide +kernel
  have hwire : versionDone.driver.wire = (bannerText testProfile ++ "version\r\n".toList ++
      "TCS 0.2-dev / host-test / read-only terminal\r\n".toList ++ promptText).map charByte := by
    decide +kernel
  refine ⟨?_, hwire⟩
  unfold versionDone versionShell at *
  have hprinted := ((console_refines_shell testProfile_built counted_silentPeer counted_silentPeer ()
    versionTyped).2.2.1 hserved).2.2
  rwa [hwritten, List.append_nil] at hprinted

end Tcs
