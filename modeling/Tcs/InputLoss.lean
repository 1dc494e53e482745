/-
# Input loss never splices a command

The receive queue and the terminal's service loop, under any interleaving of
received bytes, losses and turns, and with any replies to the terminal's
writes. What is received is a stream of bytes and gaps (`received`); a byte
has its place in it, which goes through the queue with it (`places`) and is
recorded when the terminal takes the byte. The takes are recorded line by
line (`lines`, `current`): a line ends with the byte that has an event.

`input_loss_never_splices`: a line or packet that is run was produced by
bytes at consecutive places, from the one after the last byte of the line
before it, with no gap and no mark of a loss among them (`Contiguous`). A
line that is not so is rejected or cancelled.

While a line is collected, either its editor refuses it (`Refusing`) or it
is contiguous so far, the editor holds what a fresh one makes of its bytes
(`Editing`), and the next byte of the queue is at the next place unless the
queue is marked (`Collecting`). A mark makes the editor refuse, and an editor
that refuses does so up to the end of the line (`Fed.ne_ready`).

Key definitions: `Intake`, `intakeStep`, `Contiguous`, `Refusing`, `Editing`,
`Collecting`, `IntakeOk`, `Took`.
Key theorems: `intakeOk_byte`, `intakeOk_turn`, `intakeOk_step`,
`input_loss_never_splices`.
-/
import Tcs.Service

namespace Tcs

open Ipc

/-! ### The system -/

/-- What the terminal got from one `READ`: a byte with its place in the stream, the mark of a loss,
and the event that the byte had. -/
structure Taken where
  byte : Option (ℕ × UInt8)
  lost : Bool
  event : LineEvent

/-- The queue, the terminal and the servers that it calls, with the history: what was received, the
places of the bytes in the queue, the lines that were taken and the one that is being taken. -/
structure Intake (τ : Type*) where
  rx : SerialRx
  console : Console
  peer : τ
  received : List (Option UInt8)
  places : List ℕ
  lines : List (List Taken)
  current : List Taken

/-- What can happen next: a byte or a gap, a call of the idle terminal, a turn of it, in which
`reply` answers what it writes. -/
inductive IntakeAction
  | receive (byte : UInt8)
  | loss
  | call (ch : ℕ)
  | turn (reply : Message) (mr : Registers) (noise : Noise)

/-- The queue as the terminal calls it; everything but `READ` is answered with `reply`. -/
def queuePeer (mr : Registers) (reply : Message) : Peer SerialRx := fun rx msg =>
  if tcsMessage msg Op.serialRead 0 then serialAnswer mr rx else (reply, rx)

/-- The next turn takes from the queue. -/
def Console.reads (c : Console) : Bool :=
  match c.phase with
  | .body _ => c.pendingEvent = .none
  | _ => false

/-- The next turn runs the line, or submits the packet. -/
def Console.runs (c : Console) : Bool :=
  match c.phase with
  | .body _ => c.pendingEvent = .ready
  | _ => false

section

variable {τ : Type*} (profile : Profile) (client administrator : Peer τ)

/-- Nothing is received, and the terminal is before its first turn. -/
def Intake.boot (peer : τ) : Intake τ :=
  ⟨SerialRx.zero, Console.init profile, peer, [], [], [], []⟩

/-- The history after a take. -/
def Intake.record (s : Intake τ) (event : LineEvent) : Intake τ :=
  let taken : Taken := ⟨(s.places.zip s.rx.contents).head?, s.rx.lost, event⟩
  if event = .none then { s with places := s.places.tail, current := s.current ++ [taken] }
  else { s with places := s.places.tail, lines := s.lines ++ [s.current ++ [taken]], current := [] }

/-- One step of queue and terminal. -/
def intakeStep (s : Intake τ) : IntakeAction → Intake τ × Unit
  | .receive byte =>
    ({ s with
      rx := serialReceive s.rx byte
      received := s.received ++ [some byte]
      places := (if s.rx.count = serialCapacity then [] else s.places) ++ [s.received.length] }, ())
  | .loss =>
    ({ s with rx := serialLoss s.rx, received := s.received ++ [none], places := [] }, ())
  | .call ch =>
    (if s.console.phase = .idle then { s with console := s.console.notified ch } else s, ())
  | .turn reply mr noise =>
    let (console, rx, peer) := consoleTurn profile mr (ppcall noise (queuePeer mr reply)) client
      administrator s.console s.rx s.peer
    let s' := if s.console.reads then s.record console.pendingEvent else s
    ({ s' with rx := rx, console := console, peer := peer }, ())

end

/-! ### What is claimed of a line -/

/-- The bytes that were taken, with their places. -/
def bytesOf (line : List Taken) : List (ℕ × UInt8) := line.filterMap (·.byte)

/-- The place after the last byte of these lines. -/
def startPlace (lines : List (List Taken)) : ℕ :=
  match (bytesOf lines.flatten).getLast? with
  | none => 0
  | some (place, _) => place + 1

/-- A line after the lines `earlier` is a contiguous piece of what was received: no take of it had
a mark, its bytes have consecutive places from the end of the line before it, and at these places
the stream has these bytes. -/
structure Contiguous (received : List (Option UInt8)) (earlier : List (List Taken))
    (line : List Taken) : Prop where
  unmarked : ∀ t ∈ line, t.lost = false
  places : (bytesOf line).map Prod.fst = List.range' (startPlace earlier) (bytesOf line).length
  stream : ∀ place byte, (place, byte) ∈ bytesOf line → received[place]? = some (some byte)

/-- Takes that end no line, and then one that ends it with `event`. -/
def OneLine (line : List Taken) (event : LineEvent) : Prop :=
  ∃ before last, line = before ++ [last] ∧ (∀ t ∈ before, t.event = .none) ∧ last.event = event ∧
    event ≠ .none

theorem OneLine.unique {line : List Taken} {a b : LineEvent} (ha : OneLine line a)
    (hb : OneLine line b) : a = b := by
  obtain ⟨before, last, rfl, -, hlast, -⟩ := ha
  obtain ⟨before', last', heq, -, hlast', -⟩ := hb
  have h := congrArg List.getLast? heq
  rw [List.getLast?_concat, List.getLast?_concat, Option.some.injEq] at h
  rw [← hlast, h, hlast']

/-- What the line editor makes of bytes, from a fresh line. -/
def lineOf (previousCr : Bool) (bytes : List UInt8) : Line :=
  Run.final lineFeedStep { Line.zero with previousCr := previousCr } bytes

/-- What the frame decoder makes of bytes, from a fresh packet. -/
def packetOf (previousCr : Bool) (bytes : List UInt8) : SignedInput :=
  Run.final signedFeedStep (signedBegin previousCr) bytes

/-- The line, or the packet, of the terminal is what these bytes produce. -/
def Terminal.Produced (t : Terminal) (bytes : List UInt8) : Prop :=
  if t.packetMode then ∃ previousCr, t.signedInput = packetOf previousCr bytes
  else ∃ previousCr, t.line = lineOf previousCr bytes

/-! ### The editors -/

/-- The editor in use refuses its line. -/
def Terminal.Refusing (t : Terminal) : Bool :=
  if t.packetMode then t.signedInput.rejected else t.line.refuses

/-- The editor in use, which meets the next byte, holds what these bytes produce. -/
def Terminal.Editing (t : Terminal) (bytes : List UInt8) : Prop :=
  if t.packetMode then ∃ previousCr, t.signedInput = packetOf previousCr bytes
  else ∃ previousCr, t.line.met = lineOf previousCr bytes

theorem Terminal.append_editing (t : Terminal) (text : List Char) :
    (t.append text).Refusing = t.Refusing ∧
      (∀ bytes, (t.append text).Editing bytes ↔ t.Editing bytes) ∧
      (∀ bytes, (t.append text).Produced bytes ↔ t.Produced bytes) := by
  unfold Terminal.Refusing Terminal.Editing Terminal.Produced
  simp only [Terminal.append_packetMode, Terminal.append_signedInput, Terminal.append_line,
    implies_true, and_self]

theorem Terminal.feed_packetMode (t : Terminal) (byte : UInt8) :
    (t.feed byte).2.packetMode = t.packetMode := by
  unfold Terminal.feed
  split_ifs <;> rfl

theorem Terminal.feed_fed (t : Terminal) (byte : UInt8) :
    Fed t.Refusing (t.feed byte).1 (t.feed byte).2.Refusing := by
  unfold Terminal.Refusing
  rw [t.feed_packetMode]
  unfold Terminal.feed
  by_cases h : t.packetMode = true
  · simp only [if_pos h]
    exact signedFeed_fed _ _
  · simp only [if_neg h]
    exact terminalInput_fed _ _

/-- A byte adds to what produced the line. -/
theorem Terminal.feed_produced {t : Terminal} {bytes : List UInt8} (h : t.Editing bytes)
    (byte : UInt8) : (t.feed byte).2.Produced (bytes ++ [byte]) := by
  unfold Terminal.Produced
  rw [t.feed_packetMode]
  unfold Terminal.Editing at h
  by_cases hp : t.packetMode = true
  · rw [if_pos hp] at h ⊢
    obtain ⟨previousCr, h⟩ := h
    refine ⟨previousCr, ?_⟩
    unfold Terminal.feed packetOf
    rw [if_pos hp, Run.final_snoc, h]
    rfl
  · rw [if_neg hp] at h ⊢
    obtain ⟨previousCr, h⟩ := h
    refine ⟨previousCr, ?_⟩
    unfold Terminal.feed lineOf
    rw [if_neg hp, Run.final_snoc]
    show (lineFeed t.line byte).2 = (lineFeed (lineOf previousCr bytes) byte).2
    rw [← h, lineFeed_met]

/-- A byte that ends nothing leaves the line to be edited; one that ends a line lets the next
start. -/
theorem Terminal.feed_line (t : Terminal) (byte : UInt8) (hp : t.packetMode = false) :
    ((t.feed byte).1.event = .none ∧ (t.feed byte).2.line.completed = false) ∨
      ((t.feed byte).1.event ≠ .none ∧ (t.feed byte).2.line.Starts) := by
  unfold Terminal.feed
  rw [hp]
  rcases lineFeed_cases t.line byte with ⟨he, hc, -⟩ | ⟨hs, he⟩
  · exact Or.inl ⟨he, hc⟩
  · refine Or.inr ⟨?_, hs⟩
    show (lineFeed t.line byte).1 ≠ .none
    rcases he with ⟨he, -⟩ | he | he <;> rw [he] <;> decide

theorem Terminal.feed_editing {t : Terminal} {bytes : List UInt8} (h : t.Editing bytes)
    {byte : UInt8} (he : (t.feed byte).1.event = .none) :
    (t.feed byte).2.Editing (bytes ++ [byte]) := by
  have hprod := Terminal.feed_produced h byte
  unfold Terminal.Produced at hprod
  unfold Terminal.Editing
  by_cases hp : t.packetMode = true
  · rw [t.feed_packetMode, if_pos hp] at hprod ⊢
    exact hprod
  · rw [t.feed_packetMode, if_neg hp] at hprod ⊢
    rcases t.feed_line byte (by simpa using hp) with ⟨-, hc⟩ | ⟨hne, -⟩
    · rw [Line.met_of_not_completed hc]
      exact hprod
    · exact absurd he hne

theorem Terminal.inputLost_refusing (t : Terminal) : t.inputLost.Refusing = true := by
  unfold Terminal.inputLost Terminal.Refusing
  dsimp only
  rw [Terminal.append_packetMode, Terminal.append_signedInput, Terminal.append_line]
  by_cases h : t.packetMode = true
  · simp only [if_pos h]
    rfl
  · simp only [if_neg h]
    rfl

theorem Terminal.editing_starts {t : Terminal} (hp : t.packetMode = false) (h : t.line.Starts) :
    t.Editing [] := by
  unfold Terminal.Editing
  rw [hp]
  exact ⟨t.line.previousCr, h⟩

section

variable {τ : Type*} (profile : Profile) (client administrator : Peer τ) (mr : Registers)

/-- A command that is run prints, or begins a packet. -/
theorem execute_editing (t : Terminal) (peer : τ) (hp : t.packetMode = false) (h : t.line.Starts) :
    (execute profile mr client t peer).1.Editing [] := by
  by_cases hs : profile.signed = true ∧ t.line.bytes = "submit".toList
  · unfold execute
    rw [if_pos hs]
    unfold Terminal.Editing
    dsimp only
    rw [Terminal.append_packetMode, Terminal.append_signedInput]
    exact ⟨t.line.previousCr, rfl⟩
  · obtain ⟨text, htext⟩ := execute_prints profile mr client t peer hs
    rw [htext]
    apply Terminal.editing_starts
    · rw [Terminal.append_packetMode]
      exact hp
    · rw [Terminal.append_line]
      exact h

/-- When an event has been served, a fresh line or packet is edited. -/
theorem Terminal.handle_editing (t : Terminal) (peer : τ) {event : LineEvent} (he : event ≠ .none)
    (h : t.packetMode = false → t.line.Starts) :
    (t.handle profile mr client administrator event peer).1.Editing [] := by
  unfold Terminal.handle
  by_cases hp : t.packetMode = true
  · rw [if_pos hp]
    unfold finishPacket
    apply Terminal.editing_starts
    · rw [Terminal.append_packetMode]
    · rw [Terminal.append_line]
      rfl
  · have hp : t.packetMode = false := by simpa using hp
    rw [if_neg (by simp [hp])]
    have hprint : ∀ text, (t.append text).Editing [] := by
      intro text
      apply Terminal.editing_starts
      · rw [Terminal.append_packetMode, hp]
      · rw [Terminal.append_line]
        exact h hp
    cases event with
    | none => exact absurd rfl he
    | ready => exact execute_editing profile client mr t peer hp (h hp)
    | rejected => exact hprint _
    | cancelled => exact hprint _

end

/-! ### A take -/

/-- The terminal after a `READ`, before the byte. -/
def Terminal.marked (t : Terminal) (lost : Bool) : Terminal := if lost then t.inputLost else t

theorem serialFlags_facts (lost byte : Bool) :
    ¬ serialFlags lost byte > serialByte ||| serialLossFlag ∧
      (serialFlags lost byte &&& serialLossFlag ≠ 0 ↔ lost = true) ∧
      (serialFlags lost byte &&& serialByte = 0 ↔ byte = false) := by
  cases lost <;> cases byte <;> decide

/-- What the terminal reads of an answer to `READ` with a byte, -/
theorem Console.received_byte (c : Console) (step : ℕ) {m : Message} {lost : Bool} {byte : UInt8}
    (hl : m.label = Label.serialData) (hc : m.count = 2) (h0 : m.mr 0 = serialFlags lost true)
    (h1 : m.mr 1 = byte.toUInt64) :
    c.received step m =
      { c with
        terminal := ((c.terminal.marked lost).feed byte).2.append
          ((c.terminal.marked lost).feed byte).1.echo
        pendingEvent := ((c.terminal.marked lost).feed byte).1.event
        phase := .loop (step + 1) } := by
  obtain ⟨hrange, hmark, hbyte⟩ := serialFlags_facts lost true
  have hle : ¬ byte.toUInt64 > 255 := by
    have := byte.toNat_lt
    rw [gt_iff_lt, UInt64.lt_iff_toNat_lt, UInt8.toNat_toUInt64]
    show ¬ 255 < byte.toNat
    omega
  unfold Console.received
  rw [if_neg (by simp [hl, hc])]
  dsimp only
  rw [h0, h1, if_neg (by simp [hrange, hle, hbyte]), if_neg (by simp [hbyte]), UInt8.toUInt8_toUInt64]
  unfold Terminal.marked
  simp only [hmark]

/-- and of one without a byte. -/
theorem Console.received_nothing (c : Console) (step : ℕ) {m : Message} {lost : Bool}
    (hl : m.label = Label.serialData) (hc : m.count = 2) (h0 : m.mr 0 = serialFlags lost false)
    (h1 : m.mr 1 = 0) :
    c.received step m = { c with terminal := c.terminal.marked lost, phase := .last } := by
  obtain ⟨hrange, hmark, hbyte⟩ := serialFlags_facts lost false
  unfold Console.received
  rw [if_neg (by simp [hl, hc])]
  dsimp only
  rw [h0, h1, if_neg (by simp [hrange]), if_pos (by simp [hbyte])]
  unfold Terminal.marked
  simp only [hmark]

section

variable {τ : Type*} (profile : Profile) (client administrator : Peer τ)

theorem consoleTurn_read (mr : Registers) (reply : Message) (noise : Noise) {c : Console} {step : ℕ}
    (hphase : c.phase = .body step) (hevent : c.pendingEvent = .none) (rx : SerialRx) (peer : τ) :
    consoleTurn profile mr (ppcall noise (queuePeer mr reply)) client administrator c rx peer =
      (c.received step ((serialAnswer mr rx).1.deliver noise.caller), (serialAnswer mr rx).2,
        peer) := by
  have hread : queuePeer mr reply rx ((readRequest mr).deliver noise.callee) = serialAnswer mr rx :=
    if_pos rfl
  unfold consoleTurn
  rw [hphase]
  dsimp only
  rw [if_neg (not_not.mpr hevent), ppcall_eq, hread]

end

/-- What the driver answers, where a byte waits, -/
theorem serialAnswer_cons (mr noise : Registers) {rx : SerialRx} {byte : UInt8} {rest : List UInt8}
    (h : rx.contents = byte :: rest) (c : Console) (step : ℕ) :
    (serialAnswer mr rx).2.contents = rest ∧ (serialAnswer mr rx).2.lost = false ∧
      c.received step ((serialAnswer mr rx).1.deliver noise) =
        { c with
          terminal := ((c.terminal.marked rx.lost).feed byte).2.append
            ((c.terminal.marked rx.lost).feed byte).1.echo
          pendingEvent := ((c.terminal.marked rx.lost).feed byte).1.event
          phase := .loop (step + 1) } := by
  obtain ⟨hflags, hbyte, hrest, hlost⟩ := serialTake_cons h
  refine ⟨hrest, hlost, c.received_byte step rfl rfl ?_ ?_⟩
  · rw [Message.deliver_mr noise (show 0 < 2 by decide), ← hflags]
    rfl
  · rw [Message.deliver_mr noise (show 1 < 2 by decide), ← hbyte]
    rfl

/-- and where none does. -/
theorem serialAnswer_nil (mr noise : Registers) {rx : SerialRx} (h : rx.contents = []) (c : Console)
    (step : ℕ) :
    (serialAnswer mr rx).2 = { rx with lost := false } ∧
      c.received step ((serialAnswer mr rx).1.deliver noise) =
        { c with terminal := c.terminal.marked rx.lost, phase := .last } := by
  have htake := serialTake_nil h
  unfold serialAnswer
  rw [htake]
  refine ⟨rfl, c.received_nothing step rfl rfl ?_ ?_⟩
  · rw [Message.deliver_mr noise (show 0 < 2 by decide)]
    rfl
  · rw [Message.deliver_mr noise (show 1 < 2 by decide)]
    rfl

/-! ### The invariant -/

section

variable {τ : Type*}

/-- The place of the next byte that the queue hands out. -/
def Intake.front (s : Intake τ) : ℕ := s.received.length - s.rx.count

/-- The queue holds the last bytes of the stream. -/
structure Queued (s : Intake τ) : Prop where
  bound : s.rx.count ≤ s.received.length
  places : s.places = List.range' s.front s.rx.count
  stream : ∀ place byte, (place, byte) ∈ s.places.zip s.rx.contents →
    s.received[place]? = some (some byte)

/-- Every line that was taken is one line, and contiguous when it became ready. -/
def LinesOk (received : List (Option UInt8)) (lines : List (List Taken)) : Prop :=
  ∀ k line, lines[k]? = some line → ∃ event, OneLine line event ∧
    (event = .ready → Contiguous received (lines.take k) line)

/-- A line is being collected: it is refused, or contiguous and edited. -/
structure Collecting (s : Intake τ) : Prop where
  unended : ∀ t ∈ s.current, t.event = .none
  sound : s.console.terminal.Refusing = true ∨
    (Contiguous s.received s.lines s.current ∧
      s.console.terminal.Editing ((bytesOf s.current).map Prod.snd) ∧
      (s.rx.lost = false → startPlace s.lines + (bytesOf s.current).length = s.front))

/-- The last line has ended and its event is pending. -/
structure Pending (s : Intake τ) : Prop where
  between : s.current = []
  line : ∃ earlier line, s.lines = earlier ++ [line] ∧ OneLine line s.console.pendingEvent ∧
    (s.console.pendingEvent = .ready →
      s.console.terminal.Produced ((bytesOf line).map Prod.snd))
  starts : s.console.terminal.packetMode = false → s.console.terminal.line.Starts
  next : s.rx.lost = false → startPlace s.lines = s.front

/-- The invariant. -/
structure IntakeOk (s : Intake τ) : Prop where
  queued : Queued s
  lines : LinesOk s.received s.lines
  collecting : s.console.pendingEvent = .none → Collecting s
  pending : s.console.pendingEvent ≠ .none → Pending s

/-! ### Arrivals -/

theorem Contiguous.append {received : List (Option UInt8)} {earlier : List (List Taken)}
    {line : List Taken} (h : Contiguous received earlier line) (more : List (Option UInt8)) :
    Contiguous (received ++ more) earlier line := by
  refine ⟨h.unmarked, h.places, fun place byte hmem => ?_⟩
  have hget := h.stream place byte hmem
  rw [List.getElem?_append_left (List.getElem?_eq_some_iff.mp hget).1]
  exact hget

/-- What arrives keeps the lines; what the queue hands out next is where it was, or is marked. -/
theorem intakeOk_arrival {s : Intake τ} (h : IntakeOk s) {rx : SerialRx} {more : List (Option UInt8)}
    {places : List ℕ} (hq : Queued { s with rx := rx, received := s.received ++ more, places := places })
    (hfront : rx.lost = false → s.rx.lost = false ∧
      (s.received ++ more).length - rx.count = s.front) :
    IntakeOk { s with rx := rx, received := s.received ++ more, places := places } := by
  refine ⟨hq, ?_, ?_, ?_⟩
  · intro k line hk
    obtain ⟨event, hone, hready⟩ := h.lines k line hk
    exact ⟨event, hone, fun he => (hready he).append more⟩
  · intro he
    obtain ⟨hunended, hsound⟩ := h.collecting he
    refine ⟨hunended, hsound.imp_right ?_⟩
    rintro ⟨hc, hedit, hnext⟩
    refine ⟨hc.append more, hedit, fun hlost => ?_⟩
    obtain ⟨hl, hf⟩ := hfront hlost
    exact (hnext hl).trans hf.symm
  · intro he
    obtain ⟨hbetween, hline, hstarts, hnext⟩ := h.pending he
    refine ⟨hbetween, hline, hstarts, fun hlost => ?_⟩
    obtain ⟨hl, hf⟩ := hfront hlost
    exact (hnext hl).trans hf.symm

/-- A byte arrives where there is no room: what waited is dropped, and the byte is marked. -/
theorem intakeOk_receive_full {s : Intake τ} (h : IntakeOk s) (byte : UInt8)
    (hfull : s.rx.count = serialCapacity) :
    IntakeOk { s with
      rx := serialReceive s.rx byte
      received := s.received ++ [some byte]
      places := [s.received.length] } := by
  have hcontents := contents_serialReceive s.rx byte
  have hcount := (serialReceive s.rx byte).length_contents
  rw [hcontents] at hcount
  rw [if_pos hfull] at hcount hcontents
  apply intakeOk_arrival h
  · refine ⟨?_, ?_, ?_⟩
    · show (serialReceive s.rx byte).count ≤ (s.received ++ [some byte]).length
      rw [← hcount, List.length_append]
      exact Nat.le_add_left _ _
    · show [s.received.length] = List.range' ((s.received ++ [some byte]).length -
        (serialReceive s.rx byte).count) (serialReceive s.rx byte).count
      rw [← hcount, List.length_append, List.length_singleton, List.length_singleton,
        Nat.add_sub_cancel]
      rfl
    · intro place b hmem
      dsimp only at hmem
      rw [hcontents] at hmem
      simp only [List.zip_cons_cons, List.zip_nil_left, List.mem_singleton, Prod.mk.injEq] at hmem
      obtain ⟨rfl, rfl⟩ := hmem
      exact List.getElem?_concat_length
  · intro hl
    rw [serialReceive_lost, hfull, decide_eq_true rfl, Bool.or_true] at hl
    cases hl

/-- A byte arrives behind those that wait. -/
theorem intakeOk_receive_room {s : Intake τ} (h : IntakeOk s) (byte : UInt8)
    (hfull : s.rx.count ≠ serialCapacity) :
    IntakeOk { s with
      rx := serialReceive s.rx byte
      received := s.received ++ [some byte]
      places := s.places ++ [s.received.length] } := by
  obtain ⟨hbound, hplaces, hstream⟩ := h.queued
  have hcontents := contents_serialReceive s.rx byte
  rw [if_neg hfull] at hcontents
  have hcount : (serialReceive s.rx byte).count = s.rx.count + 1 := by
    rw [← SerialRx.length_contents, hcontents, List.length_append, s.rx.length_contents,
      List.length_singleton]
  have hfront : (s.received ++ [some byte]).length - (serialReceive s.rx byte).count = s.front := by
    unfold Intake.front
    rw [hcount, List.length_append, List.length_singleton]
    omega
  apply intakeOk_arrival h
  · refine ⟨?_, ?_, ?_⟩
    · show (serialReceive s.rx byte).count ≤ (s.received ++ [some byte]).length
      rw [hcount, List.length_append, List.length_singleton]
      omega
    · show s.places ++ [s.received.length] = List.range' ((s.received ++ [some byte]).length -
        (serialReceive s.rx byte).count) (serialReceive s.rx byte).count
      rw [hfront, hcount, List.range'_1_concat, ← hplaces]
      congr 2
      unfold Intake.front
      omega
    · intro place b hmem
      dsimp only at hmem
      rw [hcontents, List.zip_append (by rw [hplaces, List.length_range', s.rx.length_contents]),
        List.mem_append] at hmem
      rcases hmem with hmem | hmem
      · have hget := hstream place b hmem
        rw [List.getElem?_append_left (List.getElem?_eq_some_iff.mp hget).1]
        exact hget
      · simp only [List.zip_cons_cons, List.zip_nil_left, List.mem_singleton,
          Prod.mk.injEq] at hmem
        obtain ⟨rfl, rfl⟩ := hmem
        exact List.getElem?_concat_length
  · intro hl
    rw [serialReceive_lost, Bool.or_eq_false_iff] at hl
    exact ⟨hl.1, hfront⟩

theorem intakeOk_receive {s : Intake τ} (h : IntakeOk s) (byte : UInt8) :
    IntakeOk { s with
      rx := serialReceive s.rx byte
      received := s.received ++ [some byte]
      places := (if s.rx.count = serialCapacity then [] else s.places) ++ [s.received.length] } := by
  by_cases hfull : s.rx.count = serialCapacity
  · rw [if_pos hfull, List.nil_append]
    exact intakeOk_receive_full h byte hfull
  · rw [if_neg hfull]
    exact intakeOk_receive_room h byte hfull

theorem intakeOk_loss {s : Intake τ} (h : IntakeOk s) :
    IntakeOk { s with
      rx := serialLoss s.rx, received := s.received ++ [none], places := [] } := by
  apply intakeOk_arrival h
  · refine ⟨Nat.zero_le _, rfl, ?_⟩
    intro place byte hmem
    cases hmem
  · intro hl
    cases hl

/-! ### Turns that take nothing -/

/-- Output apart, the terminal is as it was. -/
structure SameEditors (c c' : Console) : Prop where
  event : c'.pendingEvent = c.pendingEvent
  terminal : ∃ output failed,
    c'.terminal = { c.terminal with output := output, failed := failed }

theorem intakeOk_same {s : Intake τ} (h : IntakeOk s) {c : Console} (hc : SameEditors s.console c)
    (peer : τ) : IntakeOk { s with console := c, peer := peer } := by
  obtain ⟨he, output, failed, ht⟩ := hc
  refine ⟨⟨h.queued.bound, h.queued.places, h.queued.stream⟩, h.lines, ?_, ?_⟩
  · intro hnone
    obtain ⟨hunended, hsound⟩ := h.collecting (he.symm.trans hnone)
    refine ⟨hunended, ?_⟩
    dsimp only
    rw [ht]
    exact hsound
  · intro hsome
    dsimp only at hsome
    rw [he] at hsome
    obtain ⟨hbetween, hline, hstarts, hnext⟩ := h.pending hsome
    refine ⟨hbetween, ?_, ?_, hnext⟩
    · dsimp only
      rw [he, ht]
      exact hline
    · dsimp only
      rw [ht]
      exact hstarts

theorem Console.written_same (c : Console) (reply : Message) :
    SameEditors c (c.written reply).2 := by
  unfold Console.written
  dsimp only
  split_ifs
  · exact ⟨rfl, _, _, rfl⟩
  · exact ⟨rfl, _, _, rfl⟩
  · exact ⟨rfl, _, _, rfl⟩

theorem queuePeer_write (mr : Registers) (reply : Message) (noise : Registers) (c : Console)
    (rx : SerialRx) :
    queuePeer mr reply rx ((c.writeRequest mr).deliver noise) = (reply, rx) := by
  have hne : tcsLabel Op.serialWrite ≠ tcsLabel Op.serialRead := by decide
  refine if_neg fun hm => ?_
  simp only [tcsMessage, decide_eq_true_eq] at hm
  exact hne hm.1

theorem flush_same (mr : Registers) (reply : Message) (noise : Noise) (c : Console) (rx : SerialRx) :
    SameEditors c (flush mr (ppcall noise (queuePeer mr reply)) c rx).2.1 ∧
      (flush mr (ppcall noise (queuePeer mr reply)) c rx).2.2 = rx := by
  unfold flush
  by_cases h : c.outputSent = c.terminal.output.length
  · rw [if_pos h]
    exact ⟨⟨rfl, _, _, rfl⟩, rfl⟩
  · rw [if_neg h, ppcall_eq, queuePeer_write]
    exact ⟨c.written_same _, rfl⟩

/-- A served event lets the next line start. -/
theorem intakeOk_handled {s : Intake τ} (h : IntakeOk s) (he : s.console.pendingEvent ≠ .none)
    {t : Terminal} (ht : t.Editing []) (phase : Phase) (peer : τ) :
    IntakeOk { s with
      console := { s.console with terminal := t, pendingEvent := .none, phase := phase }
      peer := peer } := by
  obtain ⟨hbetween, -, -, hnext⟩ := h.pending he
  refine ⟨⟨h.queued.bound, h.queued.places, h.queued.stream⟩, h.lines, fun _ => ?_, fun hne => absurd rfl hne⟩
  refine ⟨?_, Or.inr ⟨⟨?_, ?_, ?_⟩, ?_, ?_⟩⟩
  all_goals dsimp only
  all_goals rw [hbetween]
  · intro t ht
    cases ht
  · intro t ht
    cases ht
  · rfl
  · intro place byte hmem
    cases hmem
  · exact ht
  · intro hl
    exact hnext hl

/-! ### Turns that take -/

theorem Queued.zip_cons {s : Intake τ} (h : Queued s) {byte : UInt8} {rest : List UInt8}
    (hc : s.rx.contents = byte :: rest) :
    s.places = s.front :: List.range' (s.front + 1) rest.length ∧
      s.received[s.front]? = some (some byte) := by
  have hcount : s.rx.count = rest.length + 1 := by
    rw [← s.rx.length_contents, hc, List.length_cons]
  have hplaces : s.places = s.front :: List.range' (s.front + 1) rest.length := by
    rw [h.places, hcount, List.range'_succ]
  refine ⟨hplaces, h.stream _ _ ?_⟩
  rw [hplaces, hc, List.zip_cons_cons]
  exact List.mem_cons_self

theorem queued_taken {s : Intake τ} (s' : Intake τ) (h : Queued s) {byte : UInt8}
    {rest : List UInt8} (hc : s.rx.contents = byte :: rest) (hrx : s'.rx.contents = rest)
    (hreceived : s'.received = s.received) (hplaces : s'.places = s.places.tail) :
    Queued s' ∧ s'.front = s.front + 1 := by
  have hcount : s.rx.count = rest.length + 1 := by
    rw [← s.rx.length_contents, hc, List.length_cons]
  have hcount' : s'.rx.count = rest.length := by rw [← s'.rx.length_contents, hrx]
  have hbound := h.bound
  have hfront : s'.front = s.front + 1 := by
    unfold Intake.front
    rw [hreceived, hcount']
    omega
  obtain ⟨hp, -⟩ := h.zip_cons hc
  refine ⟨⟨?_, ?_, ?_⟩, hfront⟩
  · rw [hreceived]
    omega
  · rw [hplaces, hp, List.tail_cons, hfront, hcount']
  · intro place b hmem
    rw [hreceived]
    apply h.stream
    rw [hplaces, hrx, hp, List.tail_cons] at hmem
    rw [hp, hc, List.zip_cons_cons]
    exact List.mem_cons_of_mem _ hmem

theorem bytesOf_append (line more : List Taken) :
    bytesOf (line ++ more) = bytesOf line ++ bytesOf more := List.filterMap_append

theorem bytesOf_snoc (line : List Taken) (place : ℕ) (byte : UInt8) (lost : Bool)
    (event : LineEvent) :
    bytesOf (line ++ [⟨some (place, byte), lost, event⟩]) = bytesOf line ++ [(place, byte)] :=
  bytesOf_append _ _

theorem bytesOf_snoc_none (line : List Taken) (lost : Bool) (event : LineEvent) :
    bytesOf (line ++ [⟨none, lost, event⟩]) = bytesOf line := by
  rw [bytesOf_append]
  exact List.append_nil _

/-- The place after a line is the one after its last byte. -/
theorem startPlace_snoc (lines : List (List Taken)) (line : List Taken) (place : ℕ) (byte : UInt8)
    (lost : Bool) (event : LineEvent) :
    startPlace (lines ++ [line ++ [(⟨some (place, byte), lost, event⟩ : Taken)]]) = place + 1 := by
  have hlast : bytesOf (lines ++ [line ++ [(⟨some (place, byte), lost, event⟩ : Taken)]]).flatten =
      bytesOf (lines.flatten ++ line) ++ [(place, byte)] := by
    rw [List.flatten_append, List.flatten_singleton, ← List.append_assoc, bytesOf_snoc]
  unfold startPlace
  rw [hlast, List.getLast?_concat]

/-- The next byte goes on with a contiguous line. -/
theorem Contiguous.snoc {received : List (Option UInt8)} {earlier : List (List Taken)}
    {line : List Taken} (h : Contiguous received earlier line) {place : ℕ} {byte : UInt8}
    (hplace : startPlace earlier + (bytesOf line).length = place)
    (hbyte : received[place]? = some (some byte)) (event : LineEvent) :
    Contiguous received earlier (line ++ [⟨some (place, byte), false, event⟩]) := by
  refine ⟨?_, ?_, ?_⟩
  · exact List.forall_mem_append.mpr ⟨h.unmarked, List.forall_mem_singleton.mpr rfl⟩
  · rw [bytesOf_snoc, List.map_append, h.places, List.length_append, List.length_singleton,
      List.range'_1_concat, hplace]
    rfl
  · intro p b hmem
    rw [bytesOf_snoc] at hmem
    rcases List.mem_append.mp hmem with hmem | hmem
    · exact h.stream p b hmem
    · simp only [List.mem_singleton, Prod.mk.injEq] at hmem
      obtain ⟨rfl, rfl⟩ := hmem
      exact hbyte

theorem LinesOk.snoc {received : List (Option UInt8)} {lines : List (List Taken)}
    (h : LinesOk received lines) {line : List Taken} {event : LineEvent} (hone : OneLine line event)
    (hready : event = .ready → Contiguous received lines line) :
    LinesOk received (lines ++ [line]) := by
  intro k l hk
  rcases Run.getElem?_snoc hk with hk | ⟨rfl, rfl⟩
  · obtain ⟨hlt, -⟩ := List.getElem?_eq_some_iff.mp hk
    rw [List.take_append_of_le_length (by omega)]
    exact h k l hk
  · rw [List.take_left]
    exact ⟨event, hone, hready⟩

/-- The line goes on: nothing is marked, and the next byte is at the next place. -/
structure Clean (s : Intake τ) : Prop where
  unmarked : s.rx.lost = false
  contiguous : Contiguous s.received s.lines s.current
  editing : s.console.terminal.Editing ((bytesOf s.current).map Prod.snd)
  next : startPlace s.lines + (bytesOf s.current).length = s.front

theorem Clean.marked {s : Intake τ} (h : Clean s) :
    s.console.terminal.marked s.rx.lost = s.console.terminal := by
  rw [h.unmarked]
  rfl

/-- The editor that meets the next byte refuses, or the line goes on. -/
theorem Collecting.marked {s : Intake τ} (h : Collecting s) :
    (s.console.terminal.marked s.rx.lost).Refusing = true ∨ Clean s := by
  by_cases hlost : s.rx.lost = true
  · left
    unfold Terminal.marked
    rw [if_pos hlost]
    exact Terminal.inputLost_refusing _
  · have hlost : s.rx.lost = false := by simpa using hlost
    rcases h.sound with hrefuse | ⟨hcont, hedit, hnext⟩
    · left
      rw [hlost]
      exact hrefuse
    · exact Or.inr ⟨hlost, hcont, hedit, hnext hlost⟩

theorem Contiguous.snoc_none {received : List (Option UInt8)} {earlier : List (List Taken)}
    {line : List Taken} (h : Contiguous received earlier line) (event : LineEvent) :
    Contiguous received earlier (line ++ [⟨none, false, event⟩]) := by
  refine ⟨?_, ?_, ?_⟩
  · exact List.forall_mem_append.mpr ⟨h.unmarked, List.forall_mem_singleton.mpr rfl⟩
  · rw [bytesOf_snoc_none]
    exact h.places
  · rw [bytesOf_snoc_none]
    exact h.stream

theorem intakeOk_nothing {s : Intake τ} (h : IntakeOk s) (he : s.console.pendingEvent = .none)
    (hc : s.rx.contents = []) {c : Console} (hevent : c.pendingEvent = .none)
    (hterminal : c.terminal = s.console.terminal.marked s.rx.lost) :
    IntakeOk { s.record c.pendingEvent with
      rx := { s.rx with lost := false }, console := c, peer := s.peer } := by
  have hcollect := h.collecting he
  obtain ⟨hbound, hplaces, -⟩ := h.queued
  have hcount : s.rx.count = 0 := by rw [← s.rx.length_contents, hc, List.length_nil]
  have hnil : s.places = [] := by rw [hplaces, hcount]; rfl
  have htaken : (s.places.zip s.rx.contents).head? = none := by rw [hnil]; rfl
  unfold Intake.record
  rw [if_pos hevent, htaken]
  refine ⟨⟨hbound, ?_, ?_⟩, h.lines, fun _ => ⟨?_, ?_⟩, fun hne => absurd hevent hne⟩
  · show s.places.tail = List.range' s.front s.rx.count
    rw [hnil, hcount]
    rfl
  · intro place byte hmem
    dsimp only at hmem
    rw [hnil] at hmem
    cases hmem
  · exact List.forall_mem_append.mpr ⟨hcollect.unended, List.forall_mem_singleton.mpr hevent⟩
  · dsimp only
    rw [hterminal]
    refine hcollect.marked.imp_right fun hclean => ?_
    rw [hclean.marked, bytesOf_snoc_none]
    refine ⟨?_, hclean.editing, fun _ => hclean.next⟩
    rw [hclean.unmarked]
    exact hclean.contiguous.snoc_none _

/-- The byte at the front of the queue was taken, and the editor has met it. -/
structure Took (s : Intake τ) (byte : UInt8) (rx : SerialRx) (c : Console) : Prop where
  contents : s.rx.contents = byte :: rx.contents
  event : c.pendingEvent = ((s.console.terminal.marked s.rx.lost).feed byte).1.event
  terminal : c.terminal = ((s.console.terminal.marked s.rx.lost).feed byte).2.append
    ((s.console.terminal.marked s.rx.lost).feed byte).1.echo

section

variable {s : Intake τ} {byte : UInt8} {rx : SerialRx} {c : Console}

theorem Took.head (h : Took s byte rx c) (hq : Queued s) :
    (s.places.zip s.rx.contents).head? = some (s.front, byte) := by
  rw [(hq.zip_cons h.contents).1, h.contents]
  rfl

/-- An editor that refuses does so after the byte, or the line ends and is not ready. -/
theorem Took.refused (h : Took s byte rx c)
    (hrefuse : (s.console.terminal.marked s.rx.lost).Refusing = true) :
    c.pendingEvent ≠ .ready ∧ (c.pendingEvent = .none → c.terminal.Refusing = true) := by
  have hfed := (s.console.terminal.marked s.rx.lost).feed_fed byte
  rw [hrefuse] at hfed
  rw [h.event, h.terminal, (Terminal.append_editing _ _).1]
  exact ⟨hfed.ne_ready, hfed.refused⟩

/-- The byte goes on with a clean line, -/
theorem Took.contiguous (h : Took s byte rx c) (hq : Queued s) (hclean : Clean s)
    (event : LineEvent) :
    Contiguous s.received s.lines (s.current ++ [⟨some (s.front, byte), s.rx.lost, event⟩]) := by
  rw [hclean.unmarked]
  exact hclean.contiguous.snoc hclean.next (hq.zip_cons h.contents).2 event

/-- produces what the editor holds, -/
theorem Took.produced (h : Took s byte rx c) (hclean : Clean s) :
    c.terminal.Produced ((bytesOf s.current ++ [(s.front, byte)]).map Prod.snd) := by
  rw [h.terminal, (Terminal.append_editing _ _).2.2, hclean.marked, List.map_append]
  exact Terminal.feed_produced hclean.editing byte

/-- and is edited further. -/
theorem Took.editing (h : Took s byte rx c) (hclean : Clean s) (hend : c.pendingEvent = .none) :
    c.terminal.Editing ((bytesOf s.current ++ [(s.front, byte)]).map Prod.snd) := by
  have hnone := h.event.symm.trans hend
  rw [hclean.marked] at hnone
  rw [h.terminal, (Terminal.append_editing _ _).2.1, hclean.marked, List.map_append]
  exact Terminal.feed_editing hclean.editing hnone

/-- A taken byte ends nothing. -/
theorem intakeOk_byte_within (h : IntakeOk s) (hcollect : Collecting s) (htook : Took s byte rx c)
    (hend : c.pendingEvent = .none) :
    IntakeOk { s.record c.pendingEvent with rx := rx, console := c, peer := s.peer } := by
  unfold Intake.record
  rw [if_pos hend, htook.head h.queued]
  obtain ⟨hq, hfront⟩ := queued_taken { s with
    places := s.places.tail
    current := s.current ++ [⟨some (s.front, byte), s.rx.lost, c.pendingEvent⟩]
    rx := rx, console := c } h.queued htook.contents rfl rfl rfl
  refine ⟨hq, h.lines, fun _ => ⟨?_, ?_⟩, fun hne => absurd hend hne⟩
  · exact List.forall_mem_append.mpr ⟨hcollect.unended, List.forall_mem_singleton.mpr hend⟩
  · rcases hcollect.marked with hrefuse | hclean
    · exact Or.inl ((htook.refused hrefuse).2 hend)
    · right
      have hnext := hclean.next
      rw [hfront]
      dsimp only
      rw [bytesOf_snoc, List.length_append, List.length_singleton]
      exact ⟨htook.contiguous h.queued hclean _, htook.editing hclean hend, fun _ => by omega⟩

/-- A taken byte ends the line. It is ready only if no editor has refused it. -/
theorem intakeOk_byte_last (h : IntakeOk s) (hcollect : Collecting s) (htook : Took s byte rx c)
    (hend : c.pendingEvent ≠ .none) :
    IntakeOk { s.record c.pendingEvent with rx := rx, console := c, peer := s.peer } := by
  unfold Intake.record
  rw [if_neg hend, htook.head h.queued]
  obtain ⟨hq, hfront⟩ := queued_taken { s with
    places := s.places.tail
    lines := s.lines ++ [s.current ++ [⟨some (s.front, byte), s.rx.lost, c.pendingEvent⟩]]
    current := [], rx := rx, console := c } h.queued htook.contents rfl rfl rfl
  have hone : OneLine (s.current ++ [⟨some (s.front, byte), s.rx.lost, c.pendingEvent⟩])
      c.pendingEvent := ⟨s.current, _, rfl, hcollect.unended, rfl, hend⟩
  have hready : c.pendingEvent = .ready → Clean s := by
    intro hr
    rcases hcollect.marked with hrefuse | hclean
    · exact absurd hr (htook.refused hrefuse).1
    · exact hclean
  refine ⟨hq, h.lines.snoc hone fun hr => htook.contiguous h.queued (hready hr) _,
    fun hnone => absurd hnone hend, fun _ => ⟨rfl, ⟨s.lines, _, rfl, hone, fun hr => ?_⟩, ?_, ?_⟩⟩
  · rw [bytesOf_snoc]
    exact htook.produced (hready hr)
  · intro hp
    dsimp only at hp ⊢
    rw [htook.terminal, Terminal.append_packetMode, Terminal.feed_packetMode] at hp
    rw [htook.terminal, Terminal.append_line]
    rcases Terminal.feed_line _ byte hp with ⟨hnone, -⟩ | ⟨-, hstarts⟩
    · exact absurd (htook.event.trans hnone) hend
    · exact hstarts
  · intro _
    rw [hfront]
    exact startPlace_snoc _ _ _ _ _ _

/-- **A byte is taken.** -/
theorem intakeOk_byte (h : IntakeOk s) (he : s.console.pendingEvent = .none)
    (htook : Took s byte rx c) :
    IntakeOk { s.record c.pendingEvent with rx := rx, console := c, peer := s.peer } := by
  by_cases hend : c.pendingEvent = .none
  · exact intakeOk_byte_within h (h.collecting he) htook hend
  · exact intakeOk_byte_last h (h.collecting he) htook hend

end

/-! ### Runs -/

variable {profile : Profile} {client administrator : Peer τ}

theorem intakeOk_boot (peer : τ) : IntakeOk (Intake.boot profile peer) := by
  have hediting : (Console.init profile).terminal.Editing [] := by
    apply ((Terminal.append_editing _ _).2.1 []).mpr
    exact ⟨false, rfl⟩
  refine ⟨⟨le_rfl, rfl, ?_⟩, ?_, fun _ => ⟨?_, Or.inr ⟨⟨?_, rfl, ?_⟩, hediting, fun _ => rfl⟩⟩,
    fun h => absurd rfl h⟩
  · intro place byte hmem
    cases hmem
  · intro k line hk
    cases hk
  · intro t ht
    cases ht
  · intro t ht
    cases ht
  · intro place byte hmem
    cases hmem

theorem consoleTurn_same (profile : Profile) (client administrator : Peer τ) (reply : Message) (mr : Registers)
    (noise : Noise) {c : Console} (hphase : ∀ step, c.phase ≠ .body step) (rx : SerialRx) (peer : τ) :
    ∃ c', consoleTurn profile mr (ppcall noise (queuePeer mr reply)) client administrator c rx peer =
      (c', rx, peer) ∧ SameEditors c c' := by
  obtain ⟨hsame, hrx⟩ := flush_same mr reply noise c rx
  unfold consoleTurn
  cases hp : c.phase with
  | idle => exact ⟨c, rfl, rfl, _, _, rfl⟩
  | loop step =>
    by_cases hstep : step < 32 ∧ (!c.terminal.failed) = true
    · simp only [if_pos hstep, hrx]
      exact ⟨_, rfl, hsame.event, hsame.terminal⟩
    · simp only [if_neg hstep]
      exact ⟨_, rfl, rfl, _, _, rfl⟩
  | body step => exact absurd hp (hphase step)
  | last =>
    simp only [hrx]
    exact ⟨_, rfl, hsame.event, hsame.terminal⟩

theorem Console.reads_body {c : Console} {step : ℕ} (h : c.phase = .body step) :
    c.reads = decide (c.pendingEvent = .none) := by
  unfold Console.reads
  rw [h]

theorem Console.reads_other {c : Console} (h : ∀ step, c.phase ≠ .body step) : c.reads = false := by
  unfold Console.reads
  cases hp : c.phase with
  | body step => exact absurd hp (h step)
  | idle => rfl
  | loop step => rfl
  | last => rfl

/-- A turn of the terminal. -/
theorem intakeOk_turn {s : Intake τ} (h : IntakeOk s) (reply : Message) (mr : Registers)
    (noise : Noise) :
    IntakeOk (intakeStep profile client administrator s (.turn reply mr noise)).1 := by
  show IntakeOk { (if s.console.reads then s.record (consoleTurn profile mr
    (ppcall noise (queuePeer mr reply)) client administrator s.console s.rx s.peer).1.pendingEvent
      else s) with
    rx := (consoleTurn profile mr (ppcall noise (queuePeer mr reply)) client administrator s.console
      s.rx s.peer).2.1
    console := (consoleTurn profile mr (ppcall noise (queuePeer mr reply)) client administrator
      s.console s.rx s.peer).1
    peer := (consoleTurn profile mr (ppcall noise (queuePeer mr reply)) client administrator
      s.console s.rx s.peer).2.2 }
  by_cases hbody : ∀ step, s.console.phase ≠ .body step
  · obtain ⟨c', hturn, hsame⟩ := consoleTurn_same profile client administrator reply mr noise hbody
      s.rx s.peer
    rw [hturn, Console.reads_other hbody]
    exact intakeOk_same h hsame s.peer
  push Not at hbody
  obtain ⟨step, hphase⟩ := hbody
  rw [Console.reads_body hphase]
  by_cases he : s.console.pendingEvent = .none
  · rw [decide_eq_true he, if_pos rfl,
      consoleTurn_read profile client administrator mr reply noise hphase he]
    cases hc : s.rx.contents with
    | nil =>
      obtain ⟨hrx, hconsole⟩ := serialAnswer_nil mr noise.caller hc s.console step
      rw [hrx, hconsole]
      exact intakeOk_nothing h he hc he rfl
    | cons byte rest =>
      obtain ⟨hrest, -, hconsole⟩ := serialAnswer_cons mr noise.caller hc s.console step
      rw [hconsole]
      refine intakeOk_byte h he ⟨?_, rfl, rfl⟩
      rw [hc, hrest]
  · have hedit := s.console.terminal.handle_editing profile client administrator mr s.peer he
      (h.pending he).starts
    rw [decide_eq_false he]
    unfold consoleTurn
    rw [hphase]
    dsimp only
    rw [if_pos he]
    exact intakeOk_handled h he hedit _ _

/-- One step keeps the invariant. -/
theorem intakeOk_step {s : Intake τ} (h : IntakeOk s) (a : IntakeAction) :
    IntakeOk (intakeStep profile client administrator s a).1 := by
  cases a with
  | receive byte => exact intakeOk_receive h byte
  | loss => exact intakeOk_loss h
  | call ch =>
    show IntakeOk (if s.console.phase = .idle then { s with console := s.console.notified ch } else s)
    by_cases hidle : s.console.phase = .idle
    · rw [if_pos hidle]
      refine intakeOk_same h ?_ s.peer
      unfold Console.notified
      split_ifs
      · exact ⟨rfl, _, _, rfl⟩
      · exact ⟨rfl, _, _, rfl⟩
    · rw [if_neg hidle]
      exact h
  | turn reply mr noise => exact intakeOk_turn h reply mr noise

theorem intakeOk_run (peer : τ) (actions : List IntakeAction) :
    IntakeOk (Run.final (intakeStep profile client administrator) (Intake.boot profile peer) actions) :=
  Run.final_induct (intakeOk_boot peer) (fun _ a h => intakeOk_step h a) actions

theorem Console.runs_event {c : Console} (h : c.runs = true) : c.pendingEvent = .ready := by
  unfold Console.runs at h
  cases hphase : c.phase with
  | body step =>
    rw [hphase] at h
    exact of_decide_eq_true h
  | idle =>
    rw [hphase] at h
    cases h
  | loop step =>
    rw [hphase] at h
    cases h
  | last =>
    rw [hphase] at h
    cases h

/-- Before a line or packet is run, the last line that was taken is contiguous and has produced
it. -/
theorem IntakeOk.runs {s : Intake τ} (h : IntakeOk s) (hruns : s.console.runs = true) :
    s.current = [] ∧ ∃ earlier line, s.lines = earlier ++ [line] ∧ OneLine line .ready ∧
      Contiguous s.received earlier line ∧
      s.console.terminal.Produced ((bytesOf line).map Prod.snd) := by
  have he := Console.runs_event hruns
  obtain ⟨hbetween, ⟨earlier, line, hlines, hone, hprod⟩, -, -⟩ := h.pending (by rw [he]; decide)
  rw [he] at hone hprod
  refine ⟨hbetween, earlier, line, hlines, hone, ?_, hprod rfl⟩
  obtain ⟨event, hone', hready⟩ := h.lines earlier.length line (by
    rw [hlines, List.getElem?_concat_length])
  have hcont := hready (hone'.unique hone)
  rwa [hlines, List.take_left] at hcont

end

/-- **Input loss never splices a command.** After every run:

* a line that was taken is a contiguous piece of what was received, from the end of the line before
  it up to its own delimiter, with no loss inside it, or it was rejected or cancelled;
* when the terminal is about to run a line or to submit a packet, the last line that was taken is
  contiguous, and its bytes have produced the line or the packet. -/
theorem input_loss_never_splices {τ : Type*} (profile : Profile) (client administrator : Peer τ)
    (peer : τ) (actions : List IntakeAction) :
    let s := Run.final (intakeStep profile client administrator) (Intake.boot profile peer) actions
    (∀ k line, s.lines[k]? = some line → ∃ event, OneLine line event ∧
      (Contiguous s.received (s.lines.take k) line ∨ event = .rejected ∨ event = .cancelled)) ∧
    (s.console.runs = true → s.current = [] ∧ ∃ earlier line, s.lines = earlier ++ [line] ∧
      OneLine line .ready ∧ Contiguous s.received earlier line ∧
      s.console.terminal.Produced ((bytesOf line).map Prod.snd)) := by
  intro s
  have h : IntakeOk s := intakeOk_run peer actions
  constructor
  · intro k line hk
    obtain ⟨event, hone, hready⟩ := h.lines k line hk
    refine ⟨event, hone, ?_⟩
    obtain ⟨-, -, -, -, -, hne⟩ := hone
    cases event with
    | none => exact absurd rfl hne
    | ready => exact Or.inl (hready rfl)
    | rejected => exact Or.inr (Or.inl rfl)
    | cancelled => exact Or.inr (Or.inr rfl)
  · exact h.runs

/-- A turn whose write is taken up to `count` bytes. -/
def acceptedTurn (count : UInt64) : IntakeAction :=
  .turn (tcsReply (fun _ => 0) ⟨Status.ok, count⟩) (fun _ => 0) ⟨fun _ => 0, fun _ => 0⟩

/-- Calls and turns in which the driver takes everything that it is offered. -/
def wholeTurns {τ : Type*} (profile : Profile) (client administrator : Peer τ) :
    ℕ → Intake τ → List IntakeAction
  | 0, _ => []
  | n + 1, s =>
    let called := (intakeStep profile client administrator s (.call 0)).1
    let turn := acceptedTurn (UInt64.ofNat called.console.chunk.length)
    .call 0 :: turn ::
      wholeTurns profile client administrator n (intakeStep profile client administrator called turn).1

/-- A byte is lost with the gap behind it, the rest of its line is typed, and then the line `ok`. -/
def gapActions : List IntakeAction :=
  [.receive (charByte 'h'), .loss, .receive (charByte 'i'), .receive returnByte,
    .receive (charByte 'o'), .receive (charByte 'k'), .receive returnByte]

/-- A server that is called, but never answers with success. -/
def silentPeer : Peer Unit := answering ⟨0, 0, fun _ => 0⟩

/-- The signed terminal, about to run the line behind the gap. -/
def behindGap : Intake Unit :=
  Run.final (intakeStep fixtureProfile silentPeer silentPeer) (Intake.boot fixtureProfile ())
    (gapActions ++ wholeTurns fixtureProfile silentPeer silentPeer 17
      (Run.final (intakeStep fixtureProfile silentPeer silentPeer) (Intake.boot fixtureProfile ())
        gapActions))

/-- The line behind the gap is run, and what was typed there has produced it; the line with the gap
has its mark. -/
theorem input_loss_never_splices_behind :
    behindGap.console.runs = true ∧ ∃ marked line, behindGap.lines = [marked, line] ∧
      (marked.any fun t => t.lost) = true ∧ Contiguous behindGap.received [marked] line ∧
      bytesOf line = [(4, charByte 'o'), (5, charByte 'k'), (6, returnByte)] := by
  have hruns : behindGap.console.runs = true := by decide +kernel
  obtain ⟨marked, line, hlines⟩ : ∃ marked line, behindGap.lines = [marked, line] :=
    List.length_eq_two.mp (by decide +kernel)
  have hmarks : (behindGap.lines.map fun line => line.any fun t => t.lost) = [true, false] := by
    decide +kernel
  have hbytes : behindGap.lines.map bytesOf = [[(2, charByte 'i'), (3, returnByte)],
      [(4, charByte 'o'), (5, charByte 'k'), (6, returnByte)]] := by
    decide +kernel
  rw [hlines] at hmarks hbytes
  simp only [List.map_cons, List.map_nil, List.cons.injEq, and_true] at hmarks hbytes
  obtain ⟨-, earlier, last, hlast, -, hcont, -⟩ :=
    (input_loss_never_splices fixtureProfile silentPeer silentPeer () _).2 hruns
  obtain ⟨rfl, hline⟩ := List.append_inj' (show [marked] ++ [line] = earlier ++ [last] from
    hlines.symm.trans hlast) rfl
  obtain rfl := List.singleton_inj.mp hline
  exact ⟨hruns, marked, line, hlines, hmarks.1, hcont, hbytes.2⟩

end Tcs
