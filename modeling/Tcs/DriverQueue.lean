/-
# The driver refines its queue

Terminal and driver (`Link`) do what the terminal does with the receive queue
alone (`Intake`): an interrupt is a sequence of losses and received bytes,
and the driver's answers to the terminal's writes are some of the replies
that the queue's system allows. So a command that the terminal runs with the
driver was not spliced, and the stream it is a piece of is what the
interrupts have delivered (`arrivals`).

Key definitions: `arrivals`, `Matches`.
Key theorems: `matches_interrupt`, `matches_turn`, `link_refines_intake`,
`driver_never_splices`.
-/
import Tcs.Wakeup
import Tcs.InputLoss

namespace Tcs

open Ipc

/-- What a received word adds to the stream: a byte, or a gap. -/
def wordArrival (data : UInt32) : Option UInt8 :=
  if data &&& 0xf00 ≠ 0 then none else some data.toUInt8

/-- What a step adds to the stream. -/
def arrivals : LinkAction → List (Option UInt8)
  | .interrupt ch pending fifo =>
    if ch ≠ 0 then []
    else (if pending &&& errorIrq ≠ 0 then [none] else []) ++ (fifo.take 64).map wordArrival
  | .deliver _ => []
  | .turn _ _ _ => []

section

variable {τ : Type*} (profile : Profile) (client administrator : Peer τ)

/-- Queue, terminal and servers are the same in both systems, and `received` is the stream. -/
structure Matches (s : Link τ) (received : List (Option UInt8)) (i : Intake τ) : Prop where
  rx : i.rx = s.driver.rx
  console : i.console = s.console
  peer : i.peer = s.peer
  received : i.received = received

/-! ### Interrupts -/

theorem matches_loss {s : Link τ} {received : List (Option UInt8)} {i : Intake τ}
    (h : Matches s received i) :
    Matches { s with driver := { s.driver with rx := serialLoss s.driver.rx } } (received ++ [none])
      (intakeStep profile client administrator i .loss).1 := by
  refine ⟨?_, h.console, h.peer, ?_⟩
  · show serialLoss i.rx = serialLoss s.driver.rx
    rw [h.rx]
  · show i.received ++ [none] = received ++ [none]
    rw [h.received]

/-- A received word, as it goes into the queue. -/
def wordAction (data : UInt32) : IntakeAction :=
  if data &&& 0xf00 ≠ 0 then .loss else .receive data.toUInt8

theorem matches_word {s : Link τ} {received : List (Option UInt8)} {i : Intake τ}
    (h : Matches s received i) (data : UInt32) :
    Matches { s with driver := { s.driver with rx := serialWord s.driver.rx data } }
      (received ++ [wordArrival data])
      (intakeStep profile client administrator i (wordAction data)).1 := by
  unfold wordAction wordArrival serialWord
  by_cases hd : data &&& 0xf00 ≠ 0
  · rw [if_pos hd, if_pos hd, if_pos hd]
    exact matches_loss profile client administrator h
  · rw [if_neg hd, if_neg hd, if_neg hd]
    refine ⟨?_, h.console, h.peer, ?_⟩
    · show serialReceive i.rx data.toUInt8 = serialReceive s.driver.rx data.toUInt8
      rw [h.rx]
    · show i.received ++ [some data.toUInt8] = received ++ [some data.toUInt8]
      rw [h.received]

theorem matches_words {s : Link τ} {received : List (Option UInt8)} {i : Intake τ}
    (h : Matches s received i) (words : List UInt32) :
    Matches { s with driver := { s.driver with rx := words.foldl serialWord s.driver.rx } }
      (received ++ words.map wordArrival)
      (Run.final (intakeStep profile client administrator) i (words.map wordAction)) := by
  induction words generalizing s received i with
  | nil =>
    rw [List.map_nil, List.append_nil]
    exact h
  | cons data words ih =>
    have hword := ih (matches_word profile client administrator h data)
    rwa [List.append_assoc, List.singleton_append] at hword

/-- An interrupt is a sequence of losses and bytes. -/
theorem matches_interrupt {s : Link τ} {received : List (Option UInt8)} {i : Intake τ}
    (h : Matches s received i) (ch : ℕ) (pending : UInt32) (fifo : List UInt32) :
    ∃ actions, Matches (linkStep profile client administrator s (.interrupt ch pending fifo)).1
      (received ++ arrivals (.interrupt ch pending fifo))
      (Run.final (intakeStep profile client administrator) i actions) := by
  unfold linkStep serialNotified arrivals
  dsimp only
  by_cases hch : ch ≠ 0
  · rw [if_pos hch, if_pos hch, List.append_nil]
    exact ⟨[], h.rx, h.console, h.peer, h.received⟩
  rw [if_neg hch, if_neg hch]
  by_cases he : pending &&& errorIrq ≠ 0
  · have hwords := matches_words profile client administrator
      (matches_loss profile client administrator h) (fifo.take 64)
    rw [List.append_assoc] at hwords
    refine ⟨.loss :: (fifo.take 64).map wordAction, ?_⟩
    rw [if_pos he, if_pos he]
    exact ⟨hwords.rx, hwords.console, hwords.peer, hwords.received⟩
  · have hwords := matches_words profile client administrator h (fifo.take 64)
    refine ⟨(fifo.take 64).map wordAction, ?_⟩
    rw [if_neg he, if_neg he, List.nil_append]
    exact ⟨hwords.rx, hwords.console, hwords.peer, hwords.received⟩

/-! ### Turns -/

/-- The driver's answer to what the terminal writes. -/
def driverReply (mr : Registers) (full : ℕ → Bool) (noise : Noise) (c : Console)
    (driver : SerialServer) : Message :=
  (serialProtected mr full driver 1 ((c.writeRequest mr).deliver noise.callee)).1

theorem flush_matches (full : ℕ → Bool) (mr : Registers) (noise : Noise) (c : Console)
    (driver : SerialServer) (notified : Bool) :
    flush mr (ppcall noise (queuePeer mr (driverReply mr full noise c driver))) c driver.rx =
      ((flush mr (ppcall noise (driverPeer mr full)) c (driver, notified)).1,
        (flush mr (ppcall noise (driverPeer mr full)) c (driver, notified)).2.1,
        (flush mr (ppcall noise (driverPeer mr full)) c (driver, notified)).2.2.1.rx) := by
  rw [(flushed mr full noise c driver notified).queue]
  unfold flush
  by_cases h : c.outputSent = c.terminal.output.length
  · rw [if_pos h, if_pos h]
  · rw [if_neg h, if_neg h, ppcall_eq, ppcall_eq, queuePeer_write]
    rfl

theorem consoleTurn_matches (full : ℕ → Bool) (mr : Registers) (noise : Noise) (c : Console)
    (driver : SerialServer) (notified : Bool) (peer : τ) :
    consoleTurn profile mr (ppcall noise (queuePeer mr (driverReply mr full noise c driver))) client
        administrator c driver.rx peer =
      ((consoleTurn profile mr (ppcall noise (driverPeer mr full)) client administrator c
          (driver, notified) peer).1,
        (consoleTurn profile mr (ppcall noise (driverPeer mr full)) client administrator c
          (driver, notified) peer).2.1.1.rx,
        (consoleTurn profile mr (ppcall noise (driverPeer mr full)) client administrator c
          (driver, notified) peer).2.2) := by
  have hflush := flush_matches full mr noise c driver notified
  unfold consoleTurn
  cases c.phase with
  | idle => rfl
  | loop step =>
    dsimp only
    rw [hflush]
    split_ifs <;> rfl
  | body step =>
    dsimp only
    split_ifs
    · rfl
    · rfl
  | last =>
    dsimp only
    rw [hflush]

theorem Intake.record_received (i : Intake τ) (event : LineEvent) :
    (i.record event).received = i.received := by
  unfold Intake.record
  dsimp only
  split_ifs <;> rfl

/-- A turn calls the driver with `READ`, or with what it writes. -/
theorem matches_turn {s : Link τ} {received : List (Option UInt8)} {i : Intake τ}
    (h : Matches s received i) (full : ℕ → Bool) (mr : Registers) (noise : Noise) :
    Matches (linkStep profile client administrator s (.turn full mr noise)).1 received
      (intakeStep profile client administrator i
        (.turn (driverReply mr full noise s.console s.driver) mr noise)).1 := by
  have hturn := consoleTurn_matches profile client administrator full mr noise s.console s.driver
    s.notified s.peer
  refine ⟨?_, ?_, ?_, ?_⟩
  · show (consoleTurn profile mr _ client administrator i.console i.rx i.peer).2.1 = _
    rw [h.console, h.rx, h.peer, hturn]
    rfl
  · show (consoleTurn profile mr _ client administrator i.console i.rx i.peer).1 = _
    rw [h.console, h.rx, h.peer, hturn]
    rfl
  · show (consoleTurn profile mr _ client administrator i.console i.rx i.peer).2.2 = _
    rw [h.console, h.rx, h.peer, hturn]
    rfl
  · show (if i.console.reads then i.record _ else i).received = received
    by_cases hreads : i.console.reads = true
    · rw [if_pos hreads, Intake.record_received]
      exact h.received
    · rw [if_neg hreads]
      exact h.received

theorem matches_deliver {s : Link τ} {received : List (Option UInt8)} {i : Intake τ}
    (h : Matches s received i) (ch : ℕ) :
    ∃ actions, Matches (linkStep profile client administrator s (.deliver ch)).1 received
      (Run.final (intakeStep profile client administrator) i actions) := by
  by_cases hd : s.console.phase = .idle ∧ (ch = 0 → s.notified = true)
  · refine ⟨[.call ch], ?_⟩
    have hcall : (intakeStep profile client administrator i (.call ch)).1 =
        { i with console := i.console.notified ch } := if_pos (by rw [h.console]; exact hd.1)
    have hstep : (linkStep profile client administrator s (.deliver ch)).1 =
        { s with
          console := s.console.notified ch
          notified := if ch = 0 then false else s.notified } := by
      unfold linkStep
      dsimp only
      rw [if_pos hd]
    show Matches _ received (intakeStep profile client administrator i (.call ch)).1
    rw [hcall, hstep]
    exact ⟨h.rx, congrArg (·.notified ch) h.console, h.peer, h.received⟩
  · refine ⟨[], ?_⟩
    unfold linkStep
    dsimp only
    rw [if_neg hd]
    exact h

/-- **Refinement.** What terminal and driver do, the terminal does with the queue, and the stream is
what the interrupts have delivered. -/
theorem link_refines_intake (peer : τ) (actions : List LinkAction) :
    ∃ intake, Matches
      (Run.final (linkStep profile client administrator) (Link.boot profile peer) actions)
      (actions.flatMap arrivals)
      (Run.final (intakeStep profile client administrator) (Intake.boot profile peer) intake) := by
  induction actions using List.reverseRecOn with
  | nil => exact ⟨[], rfl, rfl, rfl, rfl⟩
  | append_singleton actions a ih =>
    obtain ⟨intake, h⟩ := ih
    rw [Run.final_snoc, List.flatMap_append, List.flatMap_singleton]
    cases a with
    | interrupt ch pending fifo =>
      obtain ⟨more, hmore⟩ := matches_interrupt profile client administrator h ch pending fifo
      exact ⟨intake ++ more, by rwa [Run.final_append]⟩
    | deliver ch =>
      obtain ⟨more, hmore⟩ := matches_deliver profile client administrator h ch
      exact ⟨intake ++ more, by rwa [Run.final_append, arrivals, List.append_nil]⟩
    | turn full mr noise =>
      generalize Run.final (linkStep profile client administrator) (Link.boot profile peer) actions
        = s at h
      refine ⟨intake ++ [.turn (driverReply mr full noise s.console s.driver) mr noise], ?_⟩
      rw [Run.final_snoc, arrivals, List.append_nil]
      exact matches_turn profile client administrator h full mr noise

/-- A command or packet that the terminal is about to run with the driver is a contiguous piece of
what the interrupts have delivered, from the end of a line before it. -/
theorem driver_never_splices (peer : τ) (actions : List LinkAction) :
    let s := Run.final (linkStep profile client administrator) (Link.boot profile peer) actions
    s.console.runs = true → ∃ earlier line, OneLine line .ready ∧
      Contiguous (actions.flatMap arrivals) earlier line ∧
      s.console.terminal.Produced ((bytesOf line).map Prod.snd) := by
  intro s hruns
  obtain ⟨intake, h⟩ := link_refines_intake profile client administrator peer actions
  have hconsole : s.console.runs = true := hruns
  rw [← h.console] at hconsole
  obtain ⟨-, earlier, line, -, hone, hcont, hprod⟩ := (intakeOk_run peer intake).runs hconsole
  refine ⟨earlier, line, hone, ?_, ?_⟩
  · rw [← h.received]
    exact hcont
  · rw [← h.console]
    exact hprod

end

end Tcs
