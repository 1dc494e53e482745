/-
# No lost wakeup

The terminal and the serial driver, with the one bit that the kernel keeps of
the driver's notifications. The terminal's call returns with work left, and
only a notification starts the next: `no_lost_wakeup` is that one is then
pending, or the transmitter will interrupt.

The UART is arbitrary: every interrupt has any status and any received
words, and the transmitter is full whenever it likes. Interrupts are served
between any two turns of the terminal.

A turn keeps `Awake`, a predicate by cases on the phase. Before the first
`READ` of a call the queue can hold bytes that no notification tells of,
since the call itself is the answer to theirs; from then on it holds none
(`Announced`), because `READ` notifies where it leaves a byte. The loop cannot end
before that: its first step may run a command, and its second one reads or
returns. A line that is complete has its echo to be written, and every
`WRITE` either notifies or leaves the transmit interrupt enabled
(`serialProtected_write`).

Key definitions: `Link`, `linkStep`, `Announced`, `Awake`.
Key theorems: `awake_interrupt`, `awake_turn_loop`, `awake_step`,
`no_lost_wakeup`.
-/
import Tcs.Service

namespace Tcs

open Ipc

/-- The driver, the notification that is pending for the terminal, the terminal, and the servers
that it calls. -/
structure Link (τ : Type*) where
  driver : SerialServer
  notified : Bool
  console : Console
  peer : τ

/-- What can happen next: an interrupt, a notification that is delivered to the idle terminal, a
turn of the terminal. -/
inductive LinkAction
  | interrupt (ch : ℕ) (pending : UInt32) (fifo : List UInt32)
  | deliver (ch : ℕ)
  | turn (full : ℕ → Bool) (mr : Registers) (noise : Noise)

/-- The driver as the terminal calls it, with the terminal's notification. -/
def driverPeer (mr : Registers) (full : ℕ → Bool) : Peer (SerialServer × Bool) := fun d msg =>
  let (reply, driver, notify) := serialProtected mr full d.1 1 msg
  (reply, driver, d.2 || notify)

section

variable {τ : Type*} (profile : Profile) (client administrator : Peer τ)

/-- Terminal and driver after their `init`, up to the terminal's first turn. -/
def Link.boot (peer : τ) : Link τ := ⟨SerialServer.init, false, Console.init profile, peer⟩

/-- One step of terminal and driver. -/
def linkStep (s : Link τ) : LinkAction → Link τ × Unit
  | .interrupt ch pending fifo =>
    let (driver, notify) := serialNotified s.driver ch pending fifo
    ({ s with driver := driver, notified := s.notified || notify }, ())
  | .deliver ch =>
    if s.console.phase = .idle ∧ (ch = 0 → s.notified) then
      ({ s with
        console := s.console.notified ch
        notified := if ch = 0 then false else s.notified }, ())
    else (s, ())
  | .turn full mr noise =>
    let (console, driver, peer) := consoleTurn profile mr (ppcall noise (driverPeer mr full)) client
      administrator s.console (s.driver, s.notified) s.peer
    (⟨driver.1, driver.2, console, peer⟩, ())

end

/-! ### The driver's part -/

/-- Something in the queue is told by a notification. -/
def Announced (driver : SerialServer) (notified : Bool) : Prop := driver.rx.Waiting → notified = true

/-- `READ` leaves nothing in the queue that is not told. -/
theorem serialProtected_read (mr : Registers) (full : ℕ → Bool) (s : SerialServer) {msg : Message}
    (h : tcsMessage msg Op.serialRead 0 = true) :
    Announced (serialProtected mr full s 1 msg).2.1 (serialProtected mr full s 1 msg).2.2 := by
  unfold serialProtected
  rw [if_neg (by decide), if_pos h]
  rintro (hc | hl)
  · exact decide_eq_true hc
  · -- the mark was cleared
    have hlost : (serialTake s.rx).2.2.lost = false := by
      unfold serialTake
      dsimp only
      split_ifs <;> rfl
    have hl : (serialTake s.rx).2.2.lost = true := hl
    rw [hlost] at hl
    cases hl

/-- `WRITE` takes nothing from the queue, and is refused, notifies or enables the transmit
interrupt. -/
theorem serialProtected_write (mr : Registers) (full : ℕ → Bool) (s : SerialServer) {msg : Message}
    (h : msg.label = tcsLabel Op.serialWrite) :
    (serialProtected mr full s 1 msg).2.1.rx = s.rx ∧
      ((∃ status ≠ Status.ok, (serialProtected mr full s 1 msg).1 = tcsReply mr ⟨status, 0⟩) ∨
        (serialProtected mr full s 1 msg).2.1.Wakes (serialProtected mr full s 1 msg).2.2) := by
  have hread : ¬ tcsMessage msg Op.serialRead 0 = true := by
    have hne : tcsLabel Op.serialWrite ≠ tcsLabel Op.serialRead := by decide
    unfold tcsMessage
    rw [h]
    simp only [decide_eq_true_eq]
    exact fun hm => hne hm.1
  unfold serialProtected
  rw [if_neg (by decide), if_neg hread]
  by_cases h1 : msg.label ≠ tcsLabel Op.serialWrite ∨ msg.count = 0 ∨ msg.count > serialChunk
  · rw [if_pos h1]
    exact ⟨rfl, Or.inl ⟨Status.badMessage, by decide, rfl⟩⟩
  rw [if_neg h1]
  by_cases h2 : ((List.range msg.count).any fun i => msg.mr i > 255) = true
  · rw [if_pos h2]
    exact ⟨rfl, Or.inl ⟨Status.badMessage, by decide, rfl⟩⟩
  rw [if_neg h2]
  refine ⟨rfl, Or.inr ?_⟩
  by_cases hsent : transmitCount full msg.count = 0
  · -- nothing was written, and something was offered
    right
    have hcount : msg.count ≠ 0 := by
      intro h0
      exact h1 (Or.inr (Or.inl h0))
    show (if transmitCount full msg.count < msg.count then receiveIrqs ||| txIrq else s.imsc) &&&
      txIrq ≠ 0
    rw [if_pos (by omega)]
    decide
  · exact Or.inl (decide_eq_true hsent)

/-! ### Output -/

/-- There is output that the driver has not taken. -/
def Console.Unsent (c : Console) : Prop := c.outputSent ≠ c.terminal.output.length

/-- The reply is refused by the terminal, or moves its output. -/
theorem Console.written_cases (c : Console) (reply : Message) :
    (c.written reply).2.pendingEvent = c.pendingEvent ∧
      ((c.written reply).1 = true → (c.written reply).2.terminal.failed = c.terminal.failed ∧
        ¬ (c.written reply).2.Unsent) ∧
      ((tcsResponse reply).status ≠ Status.ok → (c.written reply).2.terminal.failed = true) := by
  unfold Console.written Console.Unsent
  dsimp only
  by_cases h1 : (tcsResponse reply).status ≠ Status.ok ∨
      (tcsResponse reply).value > UInt64.ofNat c.chunk.length
  · rw [if_pos h1]
    exact ⟨rfl, fun h => absurd h (by simp), fun _ => rfl⟩
  · rw [if_neg h1]
    have hok : ¬ (tcsResponse reply).status ≠ Status.ok := fun h => h1 (Or.inl h)
    by_cases h2 : c.outputSent + (tcsResponse reply).value.toNat = c.terminal.output.length
    · rw [if_pos h2]
      exact ⟨rfl, fun _ => ⟨rfl, fun h => h rfl⟩, fun h => absurd h hok⟩
    · rw [if_neg h2]
      exact ⟨rfl, fun h => absurd h (by simp), fun h => absurd h hok⟩

/-- What `flush` does to terminal and driver. -/
structure Flushed (c : Console) (driver : SerialServer) (notified : Bool)
    (out : Bool × Console × SerialServer × Bool) : Prop where
  queue : out.2.2.1.rx = driver.rx
  flag : notified = true → out.2.2.2 = true
  event : out.2.1.pendingEvent = c.pendingEvent
  kept : out.1 = true → out.2.1.terminal.failed = c.terminal.failed
  done : out.1 = true → ¬ out.2.1.Unsent
  wakes : c.Unsent → out.2.1.terminal.failed = true ∨ out.2.2.1.Wakes out.2.2.2
  quiet : ¬ c.Unsent → out = (true, c, driver, notified)

theorem flushed (mr : Registers) (full : ℕ → Bool) (noise : Noise) (c : Console)
    (driver : SerialServer) (notified : Bool) :
    Flushed c driver notified
      (flush mr (ppcall noise (driverPeer mr full)) c (driver, notified)) := by
  unfold flush
  by_cases h : c.outputSent = c.terminal.output.length
  · rw [if_pos h]
    exact ⟨rfl, id, rfl, fun _ => rfl, fun _ hu => hu h, fun hu => absurd h hu, fun _ => rfl⟩
  rw [if_neg h, ppcall_eq]
  have hwrite := serialProtected_write mr full driver
    (show ((c.writeRequest mr).deliver noise.callee).label = tcsLabel Op.serialWrite from rfl)
  unfold driverPeer
  generalize serialProtected mr full driver 1 ((c.writeRequest mr).deliver noise.callee) = out at hwrite
  obtain ⟨reply, driver', notify⟩ := out
  obtain ⟨hqueue, hreply⟩ := hwrite
  obtain ⟨h1, h2, h3⟩ := c.written_cases (reply.deliver noise.caller)
  refine ⟨hqueue, fun hn => ?_, h1, fun hd => (h2 hd).1, fun hd => (h2 hd).2, fun _ => ?_,
    fun hu => absurd h hu⟩
  · show (notified || notify) = true
    rw [hn, Bool.true_or]
  · rcases hreply with ⟨status, hne, hrefused⟩ | hnotify | htransmit
    · left
      apply h3
      have hreply : reply = tcsReply mr ⟨status, 0⟩ := hrefused
      rw [hreply, tcsResponse_reply]
      exact hne
    · right
      left
      have hnotify : notify = true := hnotify
      show (notified || notify) = true
      rw [hnotify, Bool.or_true]
    · exact Or.inr (Or.inr htransmit)

/-! ### Input -/

theorem Terminal.feed_output (t : Terminal) (byte : UInt8) :
    (t.feed byte).2.output = t.output ∧ (t.feed byte).2.failed = t.failed ∧
      ((t.feed byte).1.event ≠ .none → (t.feed byte).1.echo ≠ []) := by
  unfold Terminal.feed
  by_cases h : t.packetMode = true
  · rw [if_pos h]
    exact ⟨rfl, rfl, (signedFeed_fed _ _).echo_ne_nil⟩
  · rw [if_neg h]
    exact ⟨rfl, rfl, (terminalInput_fed _ _).echo_ne_nil⟩

theorem Terminal.inputLost_output (t : Terminal) :
    t.inputLost.failed = true ∨ t.output.length ≤ t.inputLost.output.length := by
  unfold Terminal.inputLost
  dsimp only
  rcases Terminal.append_cases "\r\nINPUT LOST; discard until Enter or Ctrl-C\r\n".toList
    ({ (if t.packetMode = true then { t with signedInput := signedDiscard } else t) with
      line := lineDiscard (if t.packetMode = true then
        { t with signedInput := signedDiscard } else t).line } : Terminal) with h | h
  · exact Or.inl h
  · right
    rw [h]
    simp only [List.length_append]
    split_ifs <;> simp

/-- What the driver's answer does to a terminal that has written all its output. -/
theorem Console.received_cases (c : Console) (step : ℕ) (m : Message) (hc : ¬ c.Unsent) :
    ((c.received step m).terminal.failed = true ∧ ∀ k, (c.received step m).phase ≠ .body k) ∨
      ((c.received step m).phase = .last ∧ (c.received step m).pendingEvent = c.pendingEvent) ∨
      ((c.received step m).phase = .loop (step + 1) ∧
        ((c.received step m).pendingEvent ≠ .none → (c.received step m).Unsent)) := by
  unfold Console.received
  by_cases h1 : m.label ≠ Label.serialData ∨ m.count ≠ 2
  · rw [if_pos h1]
    exact Or.inl ⟨rfl, fun k => Phase.noConfusion⟩
  rw [if_neg h1]
  dsimp only
  by_cases h2 : m.mr 0 > serialByte ||| serialLossFlag ∨ m.mr 1 > 255 ∨
      (m.mr 0 &&& serialByte = 0 ∧ m.mr 1 ≠ 0)
  · rw [if_pos h2]
    exact Or.inl ⟨rfl, fun k => Phase.noConfusion⟩
  rw [if_neg h2]
  by_cases h3 : m.mr 0 &&& serialByte = 0
  · rw [if_pos h3]
    exact Or.inr (Or.inl ⟨rfl, rfl⟩)
  rw [if_neg h3]
  -- the terminal that the byte meets
  have hmet : ∃ t : Terminal, (if m.mr 0 &&& serialLossFlag ≠ 0 then c.terminal.inputLost
      else c.terminal) = t ∧ (t.failed = true ∨ c.terminal.output.length ≤ t.output.length) := by
    by_cases h4 : m.mr 0 &&& serialLossFlag ≠ 0
    · exact ⟨_, if_pos h4, c.terminal.inputLost_output⟩
    · exact ⟨_, if_neg h4, Or.inr le_rfl⟩
  obtain ⟨t, ht, hlen⟩ := hmet
  rw [ht]
  obtain ⟨ho, hf, he⟩ := t.feed_output (m.mr 1).toUInt8
  rcases Terminal.append_cases (t.feed (m.mr 1).toUInt8).1.echo (t.feed (m.mr 1).toUInt8).2
    with happ | happ
  · exact Or.inl ⟨happ, fun k => Phase.noConfusion⟩
  rcases hlen with hlen | hlen
  · left
    refine ⟨?_, fun k => Phase.noConfusion⟩
    show ((t.feed (m.mr 1).toUInt8).2.append _).failed = true
    rw [happ]
    exact hf.trans hlen
  · refine Or.inr (Or.inr ⟨rfl, fun hevent => ?_⟩)
    have hecho := List.length_pos_iff.mpr (he hevent)
    have hsent : c.outputSent = c.terminal.output.length := not_not.mp hc
    unfold Console.Unsent
    show c.outputSent ≠ ((t.feed (m.mr 1).toUInt8).2.append _).output.length
    rw [happ, List.length_append, ho]
    omega

/-! ### The invariant -/

/-- There is something for the terminal to do. -/
def Link.HasWork {τ : Type*} (s : Link τ) : Prop :=
  s.console.Unsent ∨ s.console.pendingEvent ≠ .none ∨ s.driver.rx.Waiting

/-- In step `step` of a call: it has not read yet, or the queue is announced. -/
def Link.Fresh {τ : Type*} (s : Link τ) (step : ℕ) : Prop :=
  step = 0 ∨ (step = 1 ∧ s.console.pendingEvent = .none) ∨ Announced s.driver s.notified

/-- What each phase of a call promises. -/
def Awake {τ : Type*} (s : Link τ) : Prop :=
  match s.console.phase with
  | .idle => s.console.terminal.failed = true ∨ (s.HasWork → s.driver.Wakes s.notified)
  | .loop step => s.console.terminal.failed = true ∨
      (s.Fresh step ∧ (step ≠ 0 → s.console.pendingEvent ≠ .none → s.console.Unsent))
  | .body step => s.console.terminal.failed = false ∧ s.Fresh step ∧ ¬ s.console.Unsent
  | .last => s.console.terminal.failed = true ∨
      (Announced s.driver s.notified ∧ (s.console.pendingEvent ≠ .none → s.console.Unsent))

section

variable {τ : Type*} {profile : Profile} {client administrator : Peer τ}

theorem awake_boot (peer : τ) : Awake (Link.boot profile peer) :=
  Or.inr ⟨Or.inl rfl, fun h => absurd rfl h⟩

/-- What an interrupt leaves in the queue is announced, if what was there before was. -/
theorem announced_interrupt (s : SerialServer) (notified : Bool) (ch : ℕ) (pending : UInt32)
    (fifo : List UInt32) (h : Announced s notified) :
    Announced (serialNotified s ch pending fifo).1
      (notified || (serialNotified s ch pending fifo).2) := by
  intro hw
  rcases serialNotified_waiting s ch pending fifo hw with hn | hs
  · rw [hn, Bool.or_true]
  · rw [hs] at hw
    rw [h hw, Bool.true_or]

theorem wakes_interrupt (s : SerialServer) (notified : Bool) (ch : ℕ) (pending : UInt32)
    (fifo : List UInt32) (h : s.Wakes notified) :
    (serialNotified s ch pending fifo).1.Wakes
      (notified || (serialNotified s ch pending fifo).2) := by
  rcases h with hn | ht
  · left
    rw [hn, Bool.true_or]
  · rcases serialNotified_transmit ch pending fifo ht with hn | ht
    · left
      rw [hn, Bool.or_true]
    · exact Or.inr ht

/-- An interrupt keeps every promise. -/
theorem awake_interrupt {s : Link τ} (h : Awake s) (ch : ℕ) (pending : UInt32)
    (fifo : List UInt32) :
    Awake (linkStep profile client administrator s (.interrupt ch pending fifo)).1 := by
  have hann := announced_interrupt s.driver s.notified ch pending fifo
  have hwakes := wakes_interrupt s.driver s.notified ch pending fifo
  have hwait := serialNotified_waiting s.driver ch pending fifo
  unfold Awake linkStep at *
  dsimp only
  cases hphase : s.console.phase with
  | idle =>
    rw [hphase] at h
    refine h.imp_right fun h => ?_
    rintro (hu | he | hw)
    · exact hwakes (h (Or.inl hu))
    · exact hwakes (h (Or.inr (Or.inl he)))
    · rcases hwait hw with hn | hs
      · exact Or.inl (by rw [hn, Bool.or_true])
      · dsimp only at hw
        rw [hs] at hw
        exact hwakes (h (Or.inr (Or.inr hw)))
  | loop step =>
    rw [hphase] at h
    exact h.imp_right fun h => ⟨h.1.imp_right (Or.imp_right hann), h.2⟩
  | body step =>
    rw [hphase] at h
    exact ⟨h.1, h.2.1.imp_right (Or.imp_right hann), h.2.2⟩
  | last =>
    rw [hphase] at h
    exact h.imp_right fun h => ⟨hann h.1, h.2⟩

theorem awake_deliver {s : Link τ} (h : Awake s) (ch : ℕ) :
    Awake (linkStep profile client administrator s (.deliver ch)).1 := by
  unfold linkStep
  dsimp only
  by_cases hd : s.console.phase = .idle ∧ (ch = 0 → s.notified = true)
  swap
  · rw [if_neg hd]
    exact h
  rw [if_pos hd]
  by_cases hch : ch = 0
  · simp only [Console.notified, if_pos hch]
    exact Or.inr ⟨Or.inl rfl, fun h => absurd rfl h⟩
  · simp only [Console.notified, if_neg hch]
    exact h

/-- A flush in the last phase, or one that does not complete, ends the call: it has written. -/
theorem awake_returned {c c' : Console} {driver driver' : SerialServer}
    {notified notified' done : Bool} (peer : τ)
    (hf : Flushed c driver notified (done, c', driver', notified'))
    (hdone : done = false ∨ c.terminal.failed = true ∨
      (Announced driver notified ∧ (c.pendingEvent ≠ .none → c.Unsent))) :
    Awake (⟨driver', notified', { c' with phase := .idle }, peer⟩ : Link τ) := by
  by_cases hu : c.Unsent
  · rcases hf.wakes hu with hfail | hwakes
    · exact Or.inl hfail
    · exact Or.inr fun _ => hwakes
  · have hq := hf.quiet hu
    simp only [Prod.mk.injEq] at hq
    obtain ⟨rfl, rfl, rfl, rfl⟩ := hq
    rcases hdone with hdone | hfail | ⟨hann, hevent⟩
    · cases hdone
    · exact Or.inl hfail
    · refine Or.inr ?_
      rintro (hu' | he | hw)
      · exact absurd hu' hu
      · exact absurd (hevent he) hu
      · exact Or.inl (hann hw)

/-- A turn at the head of the loop. -/
theorem awake_turn_loop {s : Link τ} {step : ℕ} (h : Awake s) (hphase : s.console.phase = .loop step)
    (full : ℕ → Bool) (mr : Registers) (noise : Noise) :
    Awake (linkStep profile client administrator s (.turn full mr noise)).1 := by
  have hf := flushed mr full noise s.console s.driver s.notified
  unfold Awake at h
  rw [hphase] at h
  unfold linkStep consoleTurn
  rw [hphase]
  dsimp only
  by_cases hstep : step < 32 ∧ (!s.console.terminal.failed) = true
  · rw [if_pos hstep]
    generalize flush mr (ppcall noise (driverPeer mr full)) s.console (s.driver, s.notified) = out at hf
    obtain ⟨done, c', driver', notified'⟩ := out
    cases done with
    | false => exact awake_returned s.peer hf (Or.inl rfl)
    | true =>
      have hfail : s.console.terminal.failed = false := by simpa using hstep.2
      rcases h with h | ⟨hfresh, -⟩
      · rw [hfail] at h
        cases h
      refine ⟨(hf.kept rfl).trans hfail, ?_, hf.done rfl⟩
      rcases hfresh with h0 | ⟨h1, he⟩ | ha
      · exact Or.inl h0
      · exact Or.inr (Or.inl ⟨h1, hf.event.trans he⟩)
      · refine Or.inr (Or.inr fun hw => hf.flag (ha ?_))
        have hq : driver'.rx = s.driver.rx := hf.queue
        rw [← hq]
        exact hw
  · rw [if_neg hstep]
    by_cases hfail : s.console.terminal.failed = true
    · rw [if_pos hfail]
      exact Or.inl hfail
    -- the loop has ended after its last step, so the call has read
    have hlast : step ≥ 32 := by
      by_contra hlt
      exact hstep ⟨by omega, by simpa using hfail⟩
    rcases h with h | ⟨hfresh, hevent⟩
    · exact absurd h hfail
    rw [if_neg hfail]
    refine Or.inr ⟨?_, hevent (by omega)⟩
    rcases hfresh with h0 | ⟨h1, -⟩ | ha
    · omega
    · omega
    · exact ha

theorem awake_turn_body {s : Link τ} {step : ℕ} (h : Awake s) (hphase : s.console.phase = .body step)
    (full : ℕ → Bool) (mr : Registers) (noise : Noise) :
    Awake (linkStep profile client administrator s (.turn full mr noise)).1 := by
  unfold Awake at h
  rw [hphase] at h
  obtain ⟨-, hfresh, hsent⟩ := h
  unfold linkStep consoleTurn
  rw [hphase]
  dsimp only
  by_cases he : s.console.pendingEvent ≠ .none
  · rw [if_pos he]
    refine Or.inr ⟨?_, fun _ h => absurd rfl h⟩
    rcases hfresh with h0 | ⟨-, hnone⟩ | ha
    · exact Or.inr (Or.inl ⟨by omega, rfl⟩)
    · exact absurd hnone he
    · exact Or.inr (Or.inr ha)
  rw [if_neg he, ppcall_eq]
  have hread := serialProtected_read mr full s.driver
    (show tcsMessage ((readRequest mr).deliver noise.callee) Op.serialRead 0 = true from rfl)
  unfold driverPeer
  generalize serialProtected mr full s.driver 1 ((readRequest mr).deliver noise.callee) = out at hread
  obtain ⟨reply, driver', notify⟩ := out
  have hann : Announced driver' (s.notified || notify) := by
    intro hw
    have hn : notify = true := hread hw
    rw [hn, Bool.or_true]
  have hcases := s.console.received_cases step (reply.deliver noise.caller) hsent
  dsimp only
  generalize s.console.received step (reply.deliver noise.caller) = c' at hcases
  unfold Awake
  dsimp only
  rcases hcases with ⟨hfail, hbody⟩ | ⟨hlast, hevent⟩ | ⟨hloop, hunsent⟩
  · cases hphase' : c'.phase with
    | idle => exact Or.inl hfail
    | loop k => exact Or.inl hfail
    | body k => exact absurd hphase' (hbody k)
    | last => exact Or.inl hfail
  · rw [hlast]
    exact Or.inr ⟨hann, fun h => absurd (hevent.trans (not_not.mp he)) h⟩
  · rw [hloop]
    exact Or.inr ⟨Or.inr (Or.inr hann), fun _ => hunsent⟩

theorem awake_turn_last {s : Link τ} (h : Awake s) (hphase : s.console.phase = .last)
    (full : ℕ → Bool) (mr : Registers) (noise : Noise) :
    Awake (linkStep profile client administrator s (.turn full mr noise)).1 := by
  have hf := flushed mr full noise s.console s.driver s.notified
  unfold Awake at h
  rw [hphase] at h
  unfold linkStep consoleTurn
  rw [hphase]
  dsimp only
  generalize flush mr (ppcall noise (driverPeer mr full)) s.console (s.driver, s.notified) = out at hf
  obtain ⟨done, c', driver', notified'⟩ := out
  exact awake_returned s.peer hf (Or.inr h)

/-- One step keeps what the phases promise. -/
theorem awake_step {s : Link τ} (h : Awake s) (a : LinkAction) :
    Awake (linkStep profile client administrator s a).1 := by
  cases a with
  | interrupt ch pending fifo => exact awake_interrupt h ch pending fifo
  | deliver ch => exact awake_deliver h ch
  | turn full mr noise =>
    cases hphase : s.console.phase with
    | idle =>
      unfold linkStep consoleTurn
      rw [hphase]
      exact h
    | loop step => exact awake_turn_loop h hphase full mr noise
    | body step => exact awake_turn_body h hphase full mr noise
    | last => exact awake_turn_last h hphase full mr noise

end

/-- **No lost wakeup.** In every reachable state where the terminal is idle and has not failed, and
has output to be taken, an event to be served, or bytes or a mark to be read, it is notified or the
transmit interrupt is enabled. -/
theorem no_lost_wakeup {τ : Type*} (profile : Profile) (client administrator : Peer τ) (peer : τ)
    (actions : List LinkAction) :
    let s := Run.final (linkStep profile client administrator) (Link.boot profile peer) actions
    s.console.phase = .idle → s.console.terminal.failed = false →
      (s.console.outputSent ≠ s.console.terminal.output.length ∨ s.console.pendingEvent ≠ .none ∨
        s.driver.rx.count ≠ 0 ∨ s.driver.rx.lost = true) →
      s.notified = true ∨ s.driver.imsc &&& txIrq ≠ 0 := by
  intro s hidle hfailed hwork
  have h : Awake s := Run.final_induct (awake_boot peer) (fun s a h => awake_step h a) actions
  unfold Awake at h
  rw [hidle] at h
  rcases h with h | h
  · rw [hfailed] at h
    cases h
  · exact h hwork

/-- Terminal and driver after one turn, with a transmitter that is full. -/
def blockedLink : Link Unit :=
  Run.final (linkStep testProfile (answering ⟨0, 0, fun _ => 0⟩) (answering ⟨0, 0, fun _ => 0⟩))
    (Link.boot testProfile ()) [.turn (fun _ => true) (fun _ => 0) ⟨fun _ => 0, fun _ => 0⟩]

/-- The banner is blocked, and the transmitter will interrupt. -/
theorem no_lost_wakeup_blocked :
    blockedLink.console.outputSent ≠ blockedLink.console.terminal.output.length ∧
      (blockedLink.notified = true ∨ blockedLink.driver.imsc &&& txIrq ≠ 0) := by
  have hunsent : blockedLink.console.outputSent ≠ blockedLink.console.terminal.output.length := by
    decide +kernel
  have hidle : blockedLink.console.phase = .idle := by decide +kernel
  have hfailed : blockedLink.console.terminal.failed = false := by decide +kernel
  exact ⟨hunsent, no_lost_wakeup testProfile _ _ () _ hidle hfailed (Or.inl hunsent)⟩

end Tcs
