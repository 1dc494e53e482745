/-
# The line editor and the frame decoder

`lib/terminal.c` and `lib/signed_input.c`: the bytes of a serial line become
lines (`lineFeed`) or packets in hexadecimal (`signedFeed`), one byte at a
time. Both editors answer a byte with an event and the characters to echo;
an event other than `none` ends a line. After a loss both discard what they
hold and refuse everything up to the end of the line.

A character of a line buffer is the byte that was fed, so a buffer holds
characters below 128 only.

Key definitions: `lineFeed`, `terminalInput`, `signedFeed`, `commandParse`,
`Fed`, `Decoded`.
Key theorems: `terminalInput_fed`, `signedFeed_fed`, `Decoded.byte`,
`Decoded.enter`.
-/
import Tcs.Terminal
import Mathlib.Data.List.DropRight

namespace Tcs

/-- `struct tcs_line_feedback`. -/
structure LineFeedback where
  event : LineEvent
  echo : List Char

/-- A byte that ends nothing and is not echoed. -/
def LineFeedback.silent : LineFeedback := ⟨.none, []⟩

/-! The control bytes that the editors know. -/

/-- Ctrl-C. -/
@[simp] abbrev ctrlC : UInt8 := 3
@[simp] abbrev lineFeedByte : UInt8 := 10
@[simp] abbrev returnByte : UInt8 := 13

/-- The character that a byte is stored and echoed as. -/
def byteChar (byte : UInt8) : Char := Char.ofNat byte.toNat

theorem toNat_byteChar (b : UInt8) : (byteChar b).toNat = b.toNat := by
  have hv : b.toNat.isValidChar := Or.inl (b.toNat_lt.trans (by decide))
  have hchar : byteChar b = Char.ofNatAux b.toNat hv := dif_pos hv
  rw [hchar]
  rfl

/-- The byte of a character. -/
def charByte (c : Char) : UInt8 := UInt8.ofNat c.toNat

/-- What reaches an editor: a byte, or the notice that input was lost. -/
inductive EditorInput
  | byte (b : UInt8)
  | discard
  deriving DecidableEq, Repr

/-- The bytes that end a line. -/
def EditorInput.delimits : EditorInput → Bool
  | .byte b => b = returnByte ∨ b = lineFeedByte ∨ b = ctrlC
  | .discard => false

/-- A delimiter other than Ctrl-C. -/
theorem EditorInput.end_of_delimits {b : UInt8} (hd : (EditorInput.byte b).delimits = true)
    (hc : b ≠ ctrlC) : b = returnByte ∨ b = lineFeedByte := by
  rcases of_decide_eq_true hd with h | h | h
  · exact Or.inl h
  · exact Or.inr h
  · exact absurd h hc

theorem EditorInput.not_delimits {b : UInt8} (hd : (EditorInput.byte b).delimits = false) :
    b ≠ returnByte ∧ b ≠ lineFeedByte ∧ b ≠ ctrlC := by
  have hne := of_decide_eq_false hd
  rw [not_or, not_or] at hne
  exact hne

/-! ### Lines -/

/-- `TCS_LINE_CAPACITY`. -/
@[simp] abbrev lineCapacity : ℕ := 128

/-- `reset_line`. -/
def Line.reset (line : Line) : Line :=
  { line with bytes := [], rejected := false, completed := false }

/-- `tcs_line_discard`. -/
def lineDiscard (line : Line) : Line := { line.reset with rejected := true, previousCr := false }

/-- `tcs_line_feed`. -/
def lineFeed (line : Line) (byte : UInt8) : LineEvent × Line :=
  let line := if line.completed then line.reset else line
  if byte = lineFeedByte ∧ line.previousCr then (.none, { line with previousCr := false })
  else
    let line := { line with previousCr := byte = returnByte }
    if byte = ctrlC then (.cancelled, line.reset)
    else if byte = returnByte ∨ byte = lineFeedByte then
      (if line.rejected then .rejected else .ready, { line with completed := true })
    else if line.rejected then (.none, line)
    else if byte = 8 ∨ byte = 127 then (.none, { line with bytes := line.bytes.dropLast })
    else if (byte < 32 ∧ byte ≠ 9) ∨ byte > 126 ∨ line.bytes.length = lineCapacity - 1 then
      (.none, lineDiscard line)
    else (.none, { line with bytes := line.bytes ++ [byteChar byte] })

/-- `tcs_terminal_input`. -/
def terminalInput (line : Line) (byte : UInt8) : LineFeedback × Line :=
  let previousLength := if line.completed then 0 else line.bytes.length
  let (event, line) := lineFeed line byte
  let echo :=
    if event = .ready ∨ event = .rejected then "\r\n".toList
    else if event = .cancelled then "^C\r\n".toList
    else if !line.rejected ∧ (byte = 8 ∨ byte = 127) ∧ line.bytes.length < previousLength then
      ['\x08', ' ', '\x08']
    else if !line.rejected ∧ line.bytes.length = previousLength + 1 then
      [if byte = 9 then ' ' else byteChar byte]
    else []
  (⟨event, echo⟩, line)

/-! ### Packets -/

/-- `tcs_signed_begin`. -/
def signedBegin (previousCr : Bool) : SignedInput := { SignedInput.zero with previousCr := previousCr }

/-- The value of a hexadecimal digit; an upper case letter is none. -/
def hexNibble (byte : UInt8) : Option UInt8 :=
  if 0x30 ≤ byte ∧ byte ≤ 0x39 then some (byte - 0x30)
  else if 0x61 ≤ byte ∧ byte ≤ 0x66 then some (byte - 0x61 + 10)
  else none

/-- `tcs_signed_feed`. -/
def signedFeed (s : SignedInput) (byte : UInt8) : LineFeedback × SignedInput :=
  if s.completed then (.silent, s)
  else if byte = lineFeedByte ∧ s.previousCr then (.silent, { s with previousCr := false })
  else
    let s := { s with previousCr := byte = returnByte }
    if byte = ctrlC then (⟨.cancelled, "^C\r\n".toList⟩, { signedDiscard with completed := true })
    else if byte = returnByte ∨ byte = lineFeedByte then
      let valid := !s.rejected && s.digits = 2 * adminPacketBytes
      let s := if valid then s else { signedDiscard with previousCr := s.previousCr }
      (⟨if valid then .ready else .rejected, "\r\n".toList⟩, { s with completed := true })
    else if s.rejected then (.silent, s)
    else
      match hexNibble byte with
      | none => (.silent, signedDiscard)
      | some nibble =>
        if s.digits ≥ 2 * adminPacketBytes then (.silent, signedDiscard)
        else
          let i := s.digits / 2
          let value :=
            if s.digits % 2 ≠ 0 then s.packet.toList.getD i 0 ||| nibble else nibble <<< 4
          (⟨.none, [byteChar byte]⟩,
            { s with packet := s.packet.setIfInBounds i value, digits := s.digits + 1 })

/-! ### Commands -/

/-- `enum tcs_command_kind`. -/
inductive CommandKind
  | empty
  | help
  | version
  | status
  | read
  | invalid
  deriving DecidableEq, Repr

/-- `struct tcs_command`. -/
structure Command where
  kind : CommandKind
  generation : UInt64
  deriving DecidableEq, Repr

/-- `space`. -/
def space (c : Char) : Bool := c = ' ' ∨ c = '\t'

/-- One turn of the loops that read a decimal number: a character that is no digit, or a number
above `UINT64_MAX`, ends them. -/
def digitStep (value : UInt64) (c : Char) : Option UInt64 :=
  if c < '0' ∨ c > '9' then none
  else
    let digit := UInt64.ofNat (c.toNat - '0'.toNat)
    if value > (Word.max - digit) / 10 then none else some (value * 10 + digit)

/-- `tcs_command_parse`. -/
def commandParse (bytes : List Char) : Command :=
  let invalid : Command := ⟨.invalid, 0⟩
  if bytes.length ≥ lineCapacity then invalid
  else if bytes.any fun c => (c.toNat < 32 ∧ c ≠ '\t') ∨ c.toNat > 126 then invalid
  else
    let text := (bytes.dropWhile space).rdropWhile space
    if text = [] then ⟨.empty, 0⟩
    else
      let name := text.takeWhile (!space ·)
      let split := text.dropWhile (!space ·)
      if split = [] then
        if name = "help".toList then ⟨.help, 0⟩
        else if name = "version".toList then ⟨.version, 0⟩
        else if name = "status".toList then ⟨.status, 0⟩
        else invalid
      else if name ≠ "read".toList then invalid
      else
        match (split.dropWhile space).foldlM digitStep 0 with
        | none => invalid
        | some generation => if generation = 0 then invalid else ⟨.read, generation⟩

/-! ### What a byte can do -/

/-- `tcs_line_feed` as a step. -/
def lineFeedStep (line : Line) (byte : UInt8) : Line × LineEvent :=
  ((lineFeed line byte).2, (lineFeed line byte).1)

/-- `tcs_signed_feed` as a step. -/
def signedFeedStep (s : SignedInput) (byte : UInt8) : SignedInput × LineEvent :=
  ((signedFeed s byte).2, (signedFeed s byte).1.event)

/-- What a byte does to an editor that did refuse its line, or did not, and that refuses it
afterwards or does not: it ends the line or goes on, and a line that is refused stays refused and
is not ready when it ends. -/
inductive Fed (before : Bool) (feedback : LineFeedback) (after : Bool) : Prop
  | goesOn (event : feedback.event = .none) (kept : before = true → after = true)
  | ready (event : feedback.event = .ready) (echo : feedback.echo = "\r\n".toList)
      (clean : before = false)
  | rejected (event : feedback.event = .rejected) (echo : feedback.echo = "\r\n".toList)
  | cancelled (event : feedback.event = .cancelled) (echo : feedback.echo = "^C\r\n".toList)

theorem Fed.echo_ne_nil {before after : Bool} {feedback : LineFeedback}
    (h : Fed before feedback after) (he : feedback.event ≠ .none) : feedback.echo ≠ [] := by
  rcases h with ⟨event, -⟩ | ⟨-, echo, -⟩ | ⟨-, echo⟩ | ⟨-, echo⟩
  · exact absurd event he
  all_goals rw [echo]; simp

theorem Fed.ne_ready {after : Bool} {feedback : LineFeedback}
    (h : Fed true feedback after) : feedback.event ≠ .ready := by
  rcases h with ⟨event, -⟩ | ⟨-, -, clean⟩ | ⟨event, -⟩ | ⟨event, -⟩
  · rw [event]; decide
  · cases clean
  · rw [event]; decide
  · rw [event]; decide

theorem Fed.refused {after : Bool} {feedback : LineFeedback} (h : Fed true feedback after)
    (he : feedback.event = .none) : after = true := by
  rcases h with ⟨-, kept⟩ | ⟨event, -⟩ | ⟨event, -⟩ | ⟨event, -⟩
  · exact kept rfl
  all_goals rw [event] at he; cases he

/-- The line is refused up to its end. -/
def Line.refuses (line : Line) : Bool := line.rejected && !line.completed

/-- The line that the next byte meets: a completed one is reset. -/
def Line.met (line : Line) : Line := if line.completed then line.reset else line

theorem Line.met_facts (line : Line) :
    line.met.rejected = line.refuses ∧ line.met.completed = false := by
  unfold Line.met Line.refuses
  by_cases hc : line.completed = true
  · rw [if_pos hc, hc]
    exact ⟨by simp [Line.reset], rfl⟩
  · rw [if_neg hc]
    simp [hc]

theorem Line.met_of_not_completed {line : Line} (h : line.completed = false) : line.met = line :=
  if_neg (by simp [h])

theorem lineFeed_met (line : Line) (byte : UInt8) : lineFeed line.met byte = lineFeed line byte := by
  have hmet : (if line.met.completed then line.met.reset else line.met) = line.met :=
    if_neg (by simp [line.met_facts.2])
  unfold lineFeed
  rw [hmet]
  rfl

/-- The next byte starts a line. -/
def Line.Starts (line : Line) : Prop := line.met = { Line.zero with previousCr := line.previousCr }

/-- A byte goes on with a line, or ends it and the next one starts a line. -/
theorem lineFeed_cases (line : Line) (byte : UInt8) :
    ((lineFeed line byte).1 = .none ∧ (lineFeed line byte).2.completed = false ∧
        (line.refuses = true → (lineFeed line byte).2.refuses = true)) ∨
      ((lineFeed line byte).2.Starts ∧
        ((lineFeed line byte).1 = .ready ∧ line.refuses = false ∨
          (lineFeed line byte).1 = .rejected ∨ (lineFeed line byte).1 = .cancelled)) := by
  obtain ⟨hr, hc⟩ := line.met_facts
  rw [← lineFeed_met, ← hr]
  generalize line.met = met at hr hc
  unfold lineFeed Line.refuses
  rw [if_neg (show ¬ met.completed = true by simp [hc])]
  dsimp only
  by_cases h1 : byte = lineFeedByte ∧ met.previousCr = true
  · rw [if_pos h1]
    exact Or.inl ⟨rfl, hc, fun h => by simp [h, hc]⟩
  rw [if_neg h1]
  by_cases h2 : byte = ctrlC
  · rw [if_pos h2]
    exact Or.inr ⟨rfl, Or.inr (Or.inr rfl)⟩
  rw [if_neg h2]
  by_cases h3 : byte = returnByte ∨ byte = lineFeedByte
  · rw [if_pos h3]
    refine Or.inr ⟨rfl, ?_⟩
    by_cases h4 : met.rejected = true
    · exact Or.inr (Or.inl (if_pos h4))
    · exact Or.inl ⟨if_neg h4, by simpa using h4⟩
  rw [if_neg h3]
  by_cases h4 : met.rejected = true
  · rw [if_pos h4]
    exact Or.inl ⟨rfl, hc, fun h => by simp [h4, hc]⟩
  rw [if_neg h4]
  left
  by_cases h5 : byte = 8 ∨ byte = 127
  · rw [if_pos h5]
    exact ⟨rfl, hc, fun h => absurd h h4⟩
  rw [if_neg h5]
  by_cases h6 : (byte < 32 ∧ byte ≠ 9) ∨ byte > 126 ∨ met.bytes.length = lineCapacity - 1
  · rw [if_pos h6]
    exact ⟨rfl, rfl, fun h => absurd h h4⟩
  · rw [if_neg h6]
    exact ⟨rfl, hc, fun h => absurd h h4⟩

/-- **A byte in the line editor.** -/
theorem terminalInput_fed (line : Line) (byte : UInt8) :
    Fed line.refuses (terminalInput line byte).1 (terminalInput line byte).2.refuses := by
  have hevent : (terminalInput line byte).1.event = (lineFeed line byte).1 := rfl
  rcases lineFeed_cases line byte with ⟨h, -, hk⟩ | ⟨-, ⟨h, hc⟩ | h | h⟩
  · exact .goesOn h hk
  · refine .ready h ?_ hc
    unfold terminalInput
    simp only [h, true_or, if_true]
  · refine .rejected h ?_
    unfold terminalInput
    simp only [h, or_true, if_true]
  · refine .cancelled h ?_
    unfold terminalInput
    simp only [h]
    rfl

/-- **A byte in the frame decoder.** -/
theorem signedFeed_fed (s : SignedInput) (byte : UInt8) :
    Fed s.rejected (signedFeed s byte).1 (signedFeed s byte).2.rejected := by
  unfold signedFeed
  by_cases h0 : s.completed = true
  · rw [if_pos h0]
    exact .goesOn rfl id
  rw [if_neg h0]
  by_cases h1 : byte = lineFeedByte ∧ s.previousCr = true
  · rw [if_pos h1]
    exact .goesOn rfl id
  rw [if_neg h1]
  dsimp only
  by_cases h2 : byte = ctrlC
  · rw [if_pos h2]
    exact .cancelled rfl rfl
  rw [if_neg h2]
  by_cases h3 : byte = returnByte ∨ byte = lineFeedByte
  · rw [if_pos h3]
    by_cases h4 : (!s.rejected && decide (s.digits = 2 * adminPacketBytes)) = true
    · refine .ready (if_pos h4) rfl ?_
      simp only [Bool.and_eq_true, Bool.not_eq_true'] at h4
      exact h4.1
    · exact .rejected (if_neg h4) rfl
  rw [if_neg h3]
  by_cases h4 : s.rejected = true
  · rw [if_pos h4]
    exact .goesOn rfl id
  rw [if_neg h4]
  cases hexNibble byte with
  | none => exact .goesOn rfl fun _ => rfl
  | some nibble =>
    dsimp only
    by_cases h5 : s.digits ≥ 2 * adminPacketBytes
    · rw [if_pos h5]
      exact .goesOn rfl fun _ => rfl
    · rw [if_neg h5]
      exact .goesOn rfl id

/-! ### Decoding a packet -/

theorem byte_halves (b : UInt8) : (b >>> 4) <<< 4 ||| b &&& 15 = b := by
  have hb := b.toNat_lt
  rw [← UInt8.toNat_inj, UInt8.toNat_or, UInt8.toNat_shiftLeft, UInt8.toNat_shiftRight,
    UInt8.toNat_and]
  show (b.toNat >>> 4) <<< 4 % 2 ^ 8 ||| b.toNat &&& 15 = b.toNat
  rw [Nat.shiftRight_eq_div_pow, Nat.shiftLeft_eq, Nat.mod_eq_of_lt (by omega),
    show b.toNat &&& 15 = b.toNat % 2 ^ 4 from Nat.and_two_pow_sub_one_eq_mod _ 4, Nat.mul_comm,
    ← Nat.two_pow_add_eq_or_of_lt (Nat.mod_lt _ (by decide))]
  exact Nat.div_add_mod _ _

theorem hexNibble_ne {byte nibble : UInt8} (h : hexNibble byte = some nibble) :
    byte ≠ lineFeedByte ∧ byte ≠ ctrlC ∧ byte ≠ returnByte := by
  refine ⟨?_, ?_, ?_⟩ <;> (rintro rfl; cases h)

/-- The input has decoded `bytes` and nothing else. -/
structure Decoded (s : SignedInput) (bytes : List UInt8) : Prop where
  notCompleted : s.completed = false
  notRejected : s.rejected = false
  digits : s.digits = 2 * bytes.length
  packet : s.packet.toList.take bytes.length = bytes
  delimiter : bytes ≠ [] → s.previousCr = false

theorem decoded_begin (previousCr : Bool) : Decoded (signedBegin previousCr) [] :=
  ⟨rfl, rfl, rfl, rfl, fun h => absurd rfl h⟩

theorem signedFeed_digit {s : SignedInput} {byte nibble : UInt8} (hc : s.completed = false)
    (hr : s.rejected = false) (hd : s.digits < 2 * adminPacketBytes)
    (hb : hexNibble byte = some nibble) :
    signedFeed s byte = (⟨.none, [byteChar byte]⟩, { s with
      previousCr := false
      packet := s.packet.setIfInBounds (s.digits / 2)
        (if s.digits % 2 ≠ 0 then s.packet.toList.getD (s.digits / 2) 0 ||| nibble
          else nibble <<< 4)
      digits := s.digits + 1 }) := by
  obtain ⟨h1, h2, h3⟩ := hexNibble_ne hb
  unfold signedFeed
  simp only [hc, hr, hb, h1, h2, h3, if_false, false_and, or_self, decide_false, Bool.false_eq_true]
  rw [if_neg (by omega)]

/-- **A byte.** Its two digits add it to the packet. -/
theorem Decoded.byte {s : SignedInput} {bytes : List UInt8} (h : Decoded s bytes)
    (hl : bytes.length < adminPacketBytes) {b high low : UInt8}
    (hh : hexNibble high = some (b >>> 4)) (hlo : hexNibble low = some (b &&& 15)) :
    (signedFeed s high).1.event = .none ∧
      (signedFeed (signedFeed s high).2 low).1.event = .none ∧
      Decoded (signedFeed (signedFeed s high).2 low).2 (bytes ++ [b]) := by
  obtain ⟨h1, h2, h3, h4, h5⟩ := h
  have hlen : s.packet.toList.length = adminPacketBytes := Vector.length_toList
  have even : (2 * bytes.length) / 2 = bytes.length ∧ (2 * bytes.length) % 2 = 0 := by omega
  have odd : (2 * bytes.length + 1) / 2 = bytes.length ∧ (2 * bytes.length + 1) % 2 = 1 := by omega
  rw [signedFeed_digit h1 h2 (by omega) hh, h3, even.1, even.2]
  rw [signedFeed_digit (by exact h1) (by exact h2) (by show 2 * bytes.length + 1 < _; omega) hlo]
  refine ⟨rfl, rfl, h1, h2, ?_, ?_, fun _ => rfl⟩
  · show 2 * bytes.length + 1 + 1 = _
    rw [List.length_append, List.length_singleton]
    omega
  · simp only [odd.1, odd.2, ne_eq, not_true_eq_false, if_false, one_ne_zero, not_false_eq_true,
      if_true, Vector.toList_setIfInBounds, List.set_set]
    -- the low digit finds the high one in place
    have hget : (s.packet.toList.set bytes.length ((b >>> 4) <<< 4)).getD bytes.length 0 =
        (b >>> 4) <<< 4 := by
      rw [List.getD_eq_getElem?_getD, List.getElem?_set_self (by omega)]
      rfl
    rw [hget, byte_halves, List.length_append, List.length_singleton,
      List.take_succ_eq_append_getElem (by rw [List.length_set]; omega), List.getElem_set_self,
      List.take_set_of_le le_rfl, h4]

/-- **The delimiter.** After the last byte it ends the packet. -/
theorem Decoded.enter {s : SignedInput} {bytes : List UInt8} (h : Decoded s bytes)
    (hl : bytes.length = adminPacketBytes) {enter : UInt8}
    (he : enter = returnByte ∨ enter = lineFeedByte) :
    (signedFeed s enter).1.event = .ready ∧ (signedFeed s enter).2.packet.toList = bytes := by
  obtain ⟨h1, h2, h3, h4, h5⟩ := h
  have hcr : s.previousCr = false := h5 (by rintro rfl; cases hl)
  have hp : s.packet.toList = bytes := by
    rw [← h4, hl, List.take_of_length_le (le_of_eq Vector.length_toList)]
  have hne : enter ≠ ctrlC := by rcases he with rfl | rfl <;> decide
  unfold signedFeed
  simp only [h1, h2, h3, hcr, hl, he, hne, if_false, if_true, and_false, Bool.false_eq_true,
    Bool.not_false, Bool.true_and, decide_true]
  exact ⟨trivial, hp⟩

end Tcs
