/-
# The serial driver

`lib/serial.c` and `servers/serial.c`. Received bytes wait in a ring buffer
of 256 bytes for the terminal to take them one at a time. Where bytes are
lost the queue is emptied and marked: what came before a gap is never taken
after it, and the next byte that is taken carries the mark.

The driver answers two calls of the terminal, `READ` and `WRITE`, and serves
the interrupts of the UART. The UART is not modelled: the interrupt status,
the received words and whether the transmitter is full are arguments.
`microkit_notify` is the second component of the result, and the one bit
that the kernel keeps of it belongs to the terminal's side.

Key definitions: `SerialRx`, `serialLoss`, `serialReceive`, `serialTake`,
`SerialServer`, `serialNotified`, `serialAnswer`, `serialProtected`.
Key theorems: `contents_serialReceive`, `serialTake_cons`,
`serialNotified_waiting`, `serialNotified_transmit`.
-/
import Tcs.Ipc
import Tcs.Lib.Ring

namespace Tcs

open Ipc

/-! ### The receive queue -/

/-- `TCS_SERIAL_CAPACITY`. -/
@[simp] abbrev serialCapacity : ℕ := 256
/-- `TCS_SERIAL_CHUNK`. -/
@[simp] abbrev serialChunk : ℕ := 32
/-- `TCS_SERIAL_BYTE`. -/
@[simp] abbrev serialByte : UInt64 := 1
/-- `TCS_SERIAL_LOSS`. -/
@[simp] abbrev serialLossFlag : UInt64 := 2

namespace Op

@[simp] abbrev serialRead : UInt64 := 48
@[simp] abbrev serialWrite : UInt64 := 49

end Op

namespace Label

@[simp] abbrev serialData : UInt64 := 0x181

end Label

/-- `struct tcs_serial_rx`, with the bounds that its users keep. -/
structure SerialRx where
  bytes : Vector UInt8 serialCapacity
  head : ℕ
  count : ℕ
  lost : Bool
  head_lt : head < serialCapacity
  count_le : count ≤ serialCapacity

/-- The zeroed queue. -/
def SerialRx.zero : SerialRx :=
  ⟨Vector.replicate serialCapacity 0, 0, 0, false, by decide, by decide⟩

/-- `tcs_serial_loss`. -/
def serialLoss (rx : SerialRx) : SerialRx :=
  { rx with head := 0, count := 0, lost := true, head_lt := by decide, count_le := by decide }

/-- The queue with room for a byte. -/
def SerialRx.room (rx : SerialRx) : SerialRx :=
  if rx.count = serialCapacity then serialLoss rx else rx

theorem SerialRx.room_count_lt (rx : SerialRx) : rx.room.count < serialCapacity := by
  have := rx.count_le
  unfold SerialRx.room
  split_ifs with h
  · exact Nat.zero_lt_succ _
  · omega

/-- `tcs_serial_receive`. -/
def serialReceive (rx : SerialRx) (byte : UInt8) : SerialRx :=
  { rx.room with
    bytes := rx.room.bytes.set ((rx.room.head + rx.room.count) % serialCapacity) byte
      (Nat.mod_lt _ (by decide))
    count := rx.room.count + 1
    count_le := rx.room_count_lt }

/-- `tcs_serial_take`: the flags, the byte and the queue. -/
def serialTake (rx : SerialRx) : UInt64 × UInt8 × SerialRx :=
  let flags := if rx.lost then serialLossFlag else 0
  if rx.count ≠ 0 then
    (flags ||| serialByte, rx.bytes.get ⟨rx.head, rx.head_lt⟩,
      { rx with
        lost := false
        head := (rx.head + 1) % serialCapacity
        count := rx.count - 1
        head_lt := Nat.mod_lt _ (by decide)
        count_le := Nat.le_trans (Nat.sub_le _ _) rx.count_le })
  else (flags, 0, { rx with lost := false })

/-- The bytes that wait, oldest first. -/
def SerialRx.contents (rx : SerialRx) : List UInt8 := Ring.contents rx.bytes rx.head rx.count

@[simp] theorem SerialRx.length_contents (rx : SerialRx) : rx.contents.length = rx.count :=
  Ring.length_contents _ _ _

theorem SerialRx.contents_push (rx : SerialRx) (byte : UInt8) :
    (serialReceive rx byte).contents = rx.room.contents ++ [byte] :=
  Ring.contents_push _ _ rx.room_count_lt byte (Nat.mod_lt _ (by decide))

/-- **Receive.** A byte is added; where there is no room, everything that waits is dropped first. -/
theorem contents_serialReceive (rx : SerialRx) (byte : UInt8) :
    (serialReceive rx byte).contents =
      if rx.count = serialCapacity then [byte] else rx.contents ++ [byte] := by
  rw [SerialRx.contents_push]
  unfold SerialRx.room
  by_cases h : rx.count = serialCapacity
  · rw [if_pos h, if_pos h]
    rfl
  · rw [if_neg h, if_neg h]

theorem serialReceive_lost (rx : SerialRx) (byte : UInt8) :
    (serialReceive rx byte).lost = (rx.lost || decide (rx.count = serialCapacity)) := by
  show rx.room.lost = _
  unfold SerialRx.room
  by_cases h : rx.count = serialCapacity
  · rw [if_pos h, decide_eq_true h, Bool.or_true]
    rfl
  · rw [if_neg h, decide_eq_false h, Bool.or_false]

/-- The flags of a byte, or of none, with the mark of a loss. -/
def serialFlags (lost byte : Bool) : UInt64 :=
  (if lost then serialLossFlag else 0) ||| (if byte then serialByte else 0)

/-- **Take.** The oldest byte is taken with the mark, which is cleared. -/
theorem serialTake_cons {rx : SerialRx} {byte : UInt8} {rest : List UInt8}
    (h : rx.contents = byte :: rest) :
    (serialTake rx).1 = serialFlags rx.lost true ∧ (serialTake rx).2.1 = byte ∧
      (serialTake rx).2.2.contents = rest ∧ (serialTake rx).2.2.lost = false := by
  have hc : rx.count = rest.length + 1 := by
    rw [← rx.length_contents, h, List.length_cons]
  have hne : rx.count ≠ 0 := by omega
  have hpop := Ring.contents_pop rx.bytes rx.head_lt rest.length
  unfold SerialRx.contents at h
  rw [hc, hpop, List.cons.injEq] at h
  have htake : serialTake rx = (serialFlags rx.lost true, rx.bytes.get ⟨rx.head, rx.head_lt⟩, _) :=
    if_pos hne
  rw [htake]
  refine ⟨rfl, h.1, ?_, rfl⟩
  show Ring.contents rx.bytes ((rx.head + 1) % serialCapacity) (rx.count - 1) = rest
  rw [hc]
  exact h.2

theorem serialTake_nil {rx : SerialRx} (h : rx.contents = []) :
    serialTake rx = (serialFlags rx.lost false, 0, { rx with lost := false }) := by
  have hc : ¬ rx.count ≠ 0 := by rw [← rx.length_contents, h]; simp
  unfold serialTake serialFlags
  rw [if_neg hc]
  simp

/-! ### The driver -/

/-- `TX_IRQ`. -/
@[simp] abbrev txIrq : UInt32 := 0x20
/-- `ERROR_IRQ`. -/
@[simp] abbrev errorIrq : UInt32 := 0x780
/-- `RECEIVE_IRQS`: `RX_IRQ`, `RT_IRQ` and `ERROR_IRQ`. -/
@[simp] abbrev receiveIrqs : UInt32 := 0x7d0

/-- The driver: its queue, the interrupt mask that it has set, and the bytes that it has written to
the data register, oldest first. -/
structure SerialServer where
  rx : SerialRx
  imsc : UInt32
  wire : List UInt8

/-- The driver after `init`. -/
def SerialServer.init : SerialServer := ⟨SerialRx.zero, receiveIrqs, []⟩

/-- The transmit interrupt is enabled. -/
def SerialServer.transmitEnabled (s : SerialServer) : Prop := s.imsc &&& txIrq ≠ 0

/-- One word from the data register, with the errors of its reception. -/
def serialWord (rx : SerialRx) (data : UInt32) : SerialRx :=
  if data &&& 0xf00 ≠ 0 then serialLoss rx else serialReceive rx data.toUInt8

/-- `notified`, when the interrupt status is `pending` and the data register hands out `fifo`
before it is empty: the driver, and whether it notifies the terminal. -/
def serialNotified (s : SerialServer) (ch : ℕ) (pending : UInt32) (fifo : List UInt32) :
    SerialServer × Bool :=
  if ch ≠ 0 then (s, false)
  else
    let rx := if pending &&& errorIrq ≠ 0 then serialLoss s.rx else s.rx
    let rx := (fifo.take 64).foldl serialWord rx
    let imsc := if pending &&& txIrq ≠ 0 then receiveIrqs else s.imsc
    ({ s with rx := rx, imsc := imsc }, rx.count ≠ 0 ∨ rx.lost ∨ pending &&& txIrq ≠ 0)

/-- The bytes that are written before the transmitter is full; `full i` tells it before byte `i`. -/
def transmitCount (full : ℕ → Bool) (count : ℕ) : ℕ :=
  ((List.range count).takeWhile (!full ·)).length

/-- The answer to `READ`, over the registers `mr`, and the queue. -/
def serialAnswer (mr : Registers) (rx : SerialRx) : Message × SerialRx :=
  let (flags, byte, rx) := serialTake rx
  (⟨Label.serialData, 2, (mr.set 0 flags).set 1 byte.toUInt64⟩, rx)

/-- `protected`, over the registers `mr`: the reply, the driver and whether it notifies the
terminal. -/
def serialProtected (mr : Registers) (full : ℕ → Bool) (s : SerialServer) (ch : ℕ)
    (msg : Message) : Message × SerialServer × Bool :=
  if ch ≠ 1 then (tcsReply mr ⟨Status.denied, 0⟩, s, false)
  else if tcsMessage msg Op.serialRead 0 then
    let (reply, rx) := serialAnswer mr s.rx
    (reply, { s with rx := rx }, rx.count ≠ 0)
  else if msg.label ≠ tcsLabel Op.serialWrite ∨ msg.count = 0 ∨ msg.count > serialChunk then
    (tcsReply mr ⟨Status.badMessage, 0⟩, s, false)
  else if (List.range msg.count).any fun i => msg.mr i > 255 then
    (tcsReply mr ⟨Status.badMessage, 0⟩, s, false)
  else
    let sent := transmitCount full msg.count
    (tcsReply mr ⟨Status.ok, UInt64.ofNat sent⟩,
      { s with
        imsc := if sent < msg.count then receiveIrqs ||| txIrq else s.imsc
        wire := s.wire ++ (List.range sent).map fun i => (msg.mr i).toUInt8 },
      sent ≠ 0)

/-! ### What wakes the terminal -/

/-- The terminal will be called again: it is notified, or the transmitter interrupts. -/
def SerialServer.Wakes (s : SerialServer) (notified : Bool) : Prop :=
  notified = true ∨ s.transmitEnabled

/-- The queue has something for the terminal. -/
def SerialRx.Waiting (rx : SerialRx) : Prop := rx.count ≠ 0 ∨ rx.lost = true

/-- An interrupt that leaves something in the queue notifies the terminal. -/
theorem serialNotified_waiting (s : SerialServer) (ch : ℕ) (pending : UInt32) (fifo : List UInt32)
    (h : (serialNotified s ch pending fifo).1.rx.Waiting) :
    (serialNotified s ch pending fifo).2 = true ∨ (serialNotified s ch pending fifo).1 = s := by
  unfold serialNotified at h ⊢
  by_cases hch : ch ≠ 0
  · rw [if_pos hch]
    exact Or.inr rfl
  · rw [if_neg hch] at h ⊢
    left
    exact decide_eq_true (or_assoc.mp (Or.inl h))

/-- The transmit interrupt is disabled with a notification of the terminal only. -/
theorem serialNotified_transmit {s : SerialServer} (ch : ℕ) (pending : UInt32)
    (fifo : List UInt32) (h : s.transmitEnabled) :
    (serialNotified s ch pending fifo).1.Wakes (serialNotified s ch pending fifo).2 := by
  unfold SerialServer.Wakes serialNotified
  by_cases hch : ch ≠ 0
  · rw [if_pos hch]
    exact Or.inr h
  · rw [if_neg hch]
    by_cases hp : pending &&& txIrq ≠ 0
    · exact Or.inl (decide_eq_true (Or.inr (Or.inr hp)))
    · right
      dsimp only
      rw [if_neg hp]
      exact h

end Tcs
